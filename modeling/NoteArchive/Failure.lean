import NoteArchive.DateFormat.Check
import NoteArchive.Disk
import NoteArchive.Json.Reader
import NoteArchive.Text.Utf8

/-!
# Failures

What can go wrong, as causes.

* `SystemError`: a refusal of the system, with the paths in question.
* `RootProblem`, `FileProblem`: what is wrong with the folder of a vault, and with a change of
  its files.
* `Intrusion`: a failure that comes from outside and interrupts an operation.
* `Failure`: all of these, with `Failure.kind`, the name of the kind of failure, and
  `Failure.message`, its text.
-/

namespace NoteArchive

namespace SystemCause

def number : SystemCause → Nat
  | .missing => 2
  | .alreadyExists => 17
  | .notFolder => 20
  | .isFolder => 21
  | .intoItself => 22
  | .nameTooLong => 36

def words : SystemCause → String
  | .missing => "No such file or directory"
  | .alreadyExists => "File exists"
  | .notFolder => "Not a directory"
  | .isFolder => "Is a directory"
  | .intoItself => "Invalid argument"
  | .nameTooLong => "File name too long"

/-- The name of the kind of a refusal; some kinds have no name of their own. -/
def kind : SystemCause → String
  | .missing => "FileNotFoundError"
  | .alreadyExists => "FileExistsError"
  | .notFolder => "NotADirectoryError"
  | .isFolder => "IsADirectoryError"
  | .intoItself => "OSError"
  | .nameTooLong => "OSError"

end SystemCause

/-- A refusal of the system: the path, and for a move the path to which it would have gone. -/
structure SystemError where
  cause : SystemCause
  path : String
  target : Option String
  deriving Repr, DecidableEq

def SystemError.message (e : SystemError) : String :=
  s!"[Errno {e.cause.number}] {e.cause.words}: " ++ Text.quoted e.path ++
    match e.target with
    | none => ""
    | some target => " -> " ++ Text.quoted target

/-- What is wrong with the folder of a vault. -/
inductive RootProblem where
  | missing
  | notFolder
  | denied
  deriving Repr, DecidableEq

/-- The text of a problem with the folder at `root`. -/
def RootProblem.message (root : String) : RootProblem → String
  | .missing => "ディレクトリが存在しません: " ++ root
  | .notFolder => "指定されたパスはディレクトリではありません: " ++ root
  | .denied => "ディレクトリに読み書き権限がありません: " ++ root

/-- What is wrong with a change of the files of a vault. -/
inductive FileProblem where
  | outsideVault (path : String)
  | noParent (path : String)
  | folderExists (path : String)
  | folderRefused (path : String) (e : SystemError)
  | noSource
  | targetTaken
  | noTargetFolder
  | moveDenied (text : String)
  | moveRefused (text : String)
  deriving Repr, DecidableEq

def FileProblem.message : FileProblem → String
  | .outsideVault path => "Vault外のパスは操作できません: " ++ path
  | .noParent path => "親フォルダが存在しません: " ++ path
  | .folderExists path => "既に存在します: " ++ path
  | .folderRefused path e => "フォルダ作成エラー: " ++ path ++ " - " ++ e.message
  | .noSource => "移動元のファイルが存在しません"
  | .targetTaken => "移動先に同名のファイルが既に存在します"
  | .noTargetFolder => "移動先のフォルダが存在しません"
  | .moveDenied text => "アクセス権限エラー: " ++ text
  | .moveRefused text => "ファイル操作エラー: " ++ text

/-- What sort of failure comes from outside: a change of files that failed, a missing permission,
another refusal of the system, or anything else. -/
inductive IntrusionSort where
  | file
  | denied
  | system
  | other
  deriving Repr, DecidableEq

/-- A failure from outside, with the name of its kind and its text. -/
structure Intrusion where
  sort : IntrusionSort
  kind : String
  text : String
  deriving Repr, DecidableEq

/-- What can go wrong. -/
inductive Failure where
  | root (folder : String) (p : RootProblem)
  | file (p : FileProblem)
  | mixedFormat (format : String)
  | unsavedSettings (path : String) (e : SystemError)
  | system (e : SystemError)
  | nullCharacter
  | notUtf8 (e : Text.Utf8.Error)
  | notEncodable (e : Text.Utf8.EncodeError)
  | limit (f : Json.Fault)
  | intrusion (i : Intrusion)
  deriving Repr, DecidableEq

namespace Failure

def kind : Failure → String
  | .root _ _ => "ValidationError"
  | .file _ => "FileOperationError"
  | .mixedFormat _ => "DateFormatError"
  | .unsavedSettings _ _ => "ConfigError"
  | .system e => e.cause.kind
  | .nullCharacter => "ValueError"
  | .notUtf8 _ => "UnicodeDecodeError"
  | .notEncodable _ => "UnicodeEncodeError"
  | .limit (.tooDeep _) => "RecursionError"
  | .limit _ => "ValueError"
  | .intrusion i => i.kind

def message : Failure → String
  | .root folder p => p.message folder
  | .file p => p.message
  | .mixedFormat format => DateFormat.mixedMessage format
  | .unsavedSettings path e => "設定保存エラー: " ++ path ++ " - " ++ e.message
  | .system e => e.message
  | .nullCharacter => "embedded null byte"
  | .notUtf8 e => e.message
  | .notEncodable e => e.message
  | .limit f => f.words
  | .intrusion i => i.text

/-- The failure is a change of files that failed, which a batch of moves expects. -/
def isFileProblem : Failure → Bool
  | .file _ => true
  | .intrusion i => i.sort = .file
  | _ => false

end Failure

end NoteArchive
