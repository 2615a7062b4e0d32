import NoteArchive.DateFormat.Check
import NoteArchive.Failure

/-!
# Compiled date formats

A format is compiled to the row of pieces that the name of a note has to follow.

* `Piece`: a separator or a token.
* `Compiled`, `compile?`: the compiled format.  There is none exactly when the separators are
  mixed, which is a failure of `compile`.
* `Compiled.pattern`: the same as a regular expression, for the user and the log.
* `compileLog`: what the log says while a format is compiled.
-/

namespace NoteArchive

namespace DateFormat

/-- A piece of the name of a note. -/
inductive Piece where
  | separator (c : Char)
  | token (t : Token)
  deriving Repr, DecidableEq

namespace Piece

def token? : Piece → Option Token
  | .separator _ => none
  | .token t => some t

/-- The pattern of a piece: a token is a group, and the hyphen is escaped. -/
def pattern : Piece → String
  | .separator c => if c = '-' then "\\-" else String.ofList [c]
  | .token t => "(" ++ t.pattern ++ ")"

end Piece

/-- The pieces of a part; an unrecognised part has none. -/
def Part.pieces : Part → List Piece
  | .separator c => [.separator c]
  | .segment s => ((tokenize s).getD []).map .token

end DateFormat

/-- A compiled format: its text, its pieces, and its last separator. -/
structure Compiled where
  format : String
  pieces : List DateFormat.Piece
  separator : Option Char
  deriving Repr, DecidableEq

namespace Compiled

/-- The tokens of the pieces, in order. -/
def tokens (c : Compiled) : List Token := c.pieces.filterMap DateFormat.Piece.token?

/-- The whole name of a note as a regular expression. -/
def pattern (c : Compiled) : String :=
  "^" ++ String.join (c.pieces.map DateFormat.Piece.pattern) ++ "\\.md$"

/-- The last separator as a text, which is empty if there is none. -/
def separatorText (c : Compiled) : String :=
  match c.separator with
  | none => ""
  | some s => String.ofList [s]

/-- The compiled format of a row of characters. -/
def ofParts (format : String) : Compiled where
  format
  pieces := (DateFormat.parts format.toList).flatMap DateFormat.Part.pieces
  separator := DateFormat.lastSeparator format.toList

end Compiled

namespace DateFormat

/-- The compiled format, unless the separators are mixed. -/
def compile? (format : String) : Option Compiled :=
  if hasMixedSeparators format.toList then none else some (.ofParts format)

/-- The compiled format.  Mixed separators are a failure. -/
def compile (format : String) : Except Failure Compiled :=
  match compile? format with
  | none => .error (.mixedFormat format)
  | some c => .ok c

/-- The format that is used where `format` is asked for, compiled. -/
def compileResolved (format : String) : Compiled := .ofParts (resolve format)

theorem compile?_resolve (format : String) :
    compile? (resolve format) = some (compileResolved format) := by
  have h := isValid_resolve format
  simp only [isValid, Bool.and_eq_true, Bool.not_eq_true'] at h
  simp [compile?, compileResolved, h.2]

/-! ### What the log says -/

def compileRecord (level : Level) (text : String) : Record := ⟨"date_format", level, text⟩

def partLog : Part → List Record
  | .separator c => [compileRecord .debug ("区切り文字を追加: " ++ String.ofList [c])]
  | .segment s =>
    match tokenize s with
    | none => [compileRecord .warning ("認識できない部分を無視: " ++ String.ofList s)]
    | some ts => ts.map fun t =>
        compileRecord .debug ("トークンを追加: " ++ t.name ++ ": " ++ t.pattern)

/-- What the log says while a format is compiled; nothing when the separators are mixed. -/
def compileLog (format : String) : List Record :=
  match compile? format with
  | none => []
  | some c =>
    compileRecord .debug ("正規表現を構築中: " ++ format) ::
      ((parts format.toList).flatMap partLog ++
        [compileRecord .debug (format ++ " の正規表現: " ++ c.pattern)])

/-- What the log says while the format that is used is chosen and compiled. -/
def compileResolvedLog (format : String) : List Record :=
  resolveLog format ++ compileLog (resolve format)

end DateFormat

end NoteArchive
