import NoteArchive.CommandLine.Command

/-!
# Running a command

* `Outcome`: what the user sees of a command: the exit code, the output, and the errors.
* `Command.run`: a command in the world.
* `run`: the words of a command line in the world.

A command on a vault begins with a check of the vault.
-/

namespace NoteArchive.CommandLine

/-- What the user sees of a command. -/
structure Outcome where
  exit : Nat
  output : String := ""
  errors : String := ""
  deriving Repr, DecidableEq

/-- Lines, each with its end. -/
def lines (texts : List String) : String := String.join (texts.map (· ++ "\n"))

/-- What a failure of a command is called. -/
def failureHeading : Failure → String
  | .root _ _ => "入力エラー"
  | .file _ => "処理エラー"
  | .mixedFormat _ => "処理エラー"
  | .unsavedSettings _ _ => "処理エラー"
  | .intrusion i => if i.sort = .file then "処理エラー" else "予期しないエラー"
  | _ => "予期しないエラー"

/-- A failed command, with the output so far. -/
def Outcome.failed (output : String) (e : Failure) : Outcome where
  exit := 1
  output
  errors := lines ["❌ " ++ failureHeading e ++ ": " ++ e.message]

/-- The outcome of lines that are printed after some output.  It ends before the first line that
cannot be encoded. -/
def Outcome.printed (output : String) : List Text.Wide → Outcome
  | [] => { exit := 0, output }
  | line :: rest =>
    match Text.plain? line with
    | some text => printed (output ++ text ++ "\n") rest
    | none => .failed output (.notEncodable (Text.Utf8.firstHalf line))

/-- The operations around the work of a command: the program, and the command itself. -/
def callsAround : Nat := 2

/-- The vault at a path, if it may be used. -/
def openVault (text : String) : Act Vault := do
  let w ← get
  let v ← Act.ofExcept (Vault.at? w.disk w.here text)
  v.checkRoot
  return v

/-- Something that is done, with what the progress log in force shows on the console
meanwhile. -/
def withConsole {α : Type} (act : Act α) : Act (Except Failure α × String) := do
  let start := (← get).events.length
  let r ← Act.attempt act
  let w ← get
  return (r, (Logging.hearAll {} (w.events.drop start)).consoleText)

/-! ### Operations -/

/-- An operation on the vault at a path. -/
def runOperation (op : Operation) (vault : String) (today : Option Date) (verbose : Bool) :
    Act Outcome := do
  let (r, output) ← withConsole do
    let v ← openVault vault
    op.run v today verbose callsAround
  match r with
  | .ok (some _) => return { exit := 0, output }
  | .ok none => return { exit := 1, output }
  | .error e => return .failed output e

/-! ### Settings -/

/-- The changes that are asked for: an empty text asks for the usual one. -/
def askedChanges (c : Settings.Changes) : Settings.Changes where
  targetFolder := c.targetFolder.map fun s => if s = "" then Settings.usual.targetFolder else s
  showSummary := c.showSummary
  dateFormat := c.dateFormat.map fun s => if s = "" then DateFormat.usual else s
  useSubfolders := c.useSubfolders

/-- The warning about a format that cannot be used. -/
def formatWarning (c : Settings.Changes) : List String :=
  match c.dateFormat with
  | none => []
  | some format =>
    if DateFormat.isValid format then []
    else ["⚠️  無効な日付フォーマットのため " ++ DateFormat.usual ++ " を使用します: " ++ format]

/-- The settings, shown to the user. -/
def settingsLines (r : Settings.Raw) : List Text.Wide :=
  [Text.wide "移動先フォルダ: " ++ r.targetFolder,
   Text.wide "日付フォーマット: " ++ r.dateFormat,
   "サマリー通知: " ++ switchText r.showSummary,
   "年/月サブフォルダ: " ++ switchText r.useSubfolders]

/-- The settings of the vault at a path are changed, if there are changes, and shown. -/
def changeSettings (vault : String) (changes : Settings.Changes) : Act Outcome := do
  let c := askedChanges changes
  let shown ← Act.attempt do
    let v ← openVault vault
    let r ← v.loadSettings callsAround
    tellAll r.validatedLog
    return (v, r.validated)
  match shown with
  | .error e => return .failed "" e
  | .ok (v, r) =>
    if c = {} then return .printed "" (settingsLines r)
    else
      -- the settings are validated when they are changed and once more when they are written
      tellAll (r.updatedLog c)
      match ← Act.attempt (v.adoptSettings (r.updated c)) with
      | .error e => return .failed (lines (formatWarning c)) e
      | .ok r =>
        return .printed (lines (formatWarning c ++ ["✅ 設定を保存しました: " ++ v.settingsFile.text]))
          (settingsLines r)

/-! ### Formats -/

/-- The pattern of a format, its fields and its separator, shown to the user. -/
def formatLines (c : Compiled) : List String :=
  ["✅ 有効な日付フォーマット: " ++ c.format,
   "正規表現: " ++ c.pattern,
   "フィールド: " ++ ", ".intercalate (c.tokens.map fun t => t.name ++ "(" ++ t.field.name ++ ")"),
   "区切り文字: " ++ if c.separatorText = "" then "なし" else c.separatorText]

/-- A format is checked. -/
def explainFormat (format : String) : Act Outcome := do
  let warnings := (DateFormat.problems format).map fun p => "⚠️  " ++ p.message
  if DateFormat.isValid format then
    tellAll (DateFormat.compileResolvedLog format)
    return { exit := 0
             output := lines (warnings ++ formatLines (DateFormat.compileResolved format)) }
  else
    return { exit := 1
             output := lines (warnings ++
               ["❌ 無効な日付フォーマットです。" ++ DateFormat.usual ++ " が使用されます。"]) }

/-! ### Command lines -/

def Command.run : Command → Act Outcome
  | .operate op vault today verbose => runOperation op vault today verbose
  | .config vault changes => changeSettings vault changes
  | .checkFormat format => explainFormat format

/-- The help for the program or a command. -/
def helpText (program : String) : String :=
  lines ["usage: " ++ program ++ " [-h] ...", "",
    "commands: " ++ ", ".intercalate Kind.allNames]

def Request.run : Request → Act Outcome
  | .help program => return { exit := 0, output := helpText program }
  | .wrong program e => return { exit := 2, errors := lines [program ++ ": error: " ++ e.message] }
  | .command c => c.run

/-- The words of a command line in the world. -/
def run (words : List String) : Act Outcome := (Request.ofWords words).run

end NoteArchive.CommandLine
