import NoteArchive.DateFormat.Compiled
import NoteArchive.Text.Digit

/-!
# Matching the name of a note

The name of a note matches a format when it is the pieces of the format, one after the other, and
`.md` at its end.

* `Token.accepts`: the texts that a token matches.
* `captures`: the texts that the tokens match in a name, if it matches.  A token of four letters
  and more takes as many as it can, as long as the rest still matches.
* `Compiled.isMatch`: a name matches a format.

Only ASCII digits and letters count, and nothing may follow the `.md`.
-/

namespace NoteArchive

/-- The end of the name of a note. -/
def noteSuffix : List Char := ['.', 'm', 'd']

namespace Token

/-- The characters of the texts that a token matches. -/
def admits : Token → Char → Bool
  | .dd | .mm | .yyyy | .yy => Text.isAsciiDigit
  | .mmm | .mmmm => Text.isAsciiLetter

/-- The least length of a text that a token matches. -/
def width : Token → Nat
  | .dd | .mm | .yy => 2
  | .mmm => 3
  | .yyyy | .mmmm => 4

/-- A token that matches texts of any length from its width on. -/
def isOpen : Token → Bool
  | .mmmm => true
  | _ => false

def accepts (t : Token) (s : List Char) : Bool :=
  s.all t.admits && (if t.isOpen then t.width ≤ s.length else s.length = t.width)

/-- The lengths that a token can take at the front of `s`, the greatest one first. -/
def lengths (t : Token) (s : List Char) : List Nat :=
  let run := (s.takeWhile t.admits).length
  if run < t.width then []
  else if t.isOpen then (List.range' t.width (run - t.width + 1)).reverse
  else [t.width]

end Token

namespace DateFormat

/-- The texts that the tokens among the pieces match, when the pieces match the whole of `s`. -/
def captures : List Piece → List Char → Option (List (List Char))
  | [], s => if s = noteSuffix then some [] else none
  | .separator c :: rest, s =>
    match s with
    | [] => none
    | d :: r => if d = c then captures rest r else none
  | .token t :: rest, s =>
    (t.lengths s).findSome? fun n => (captures rest (s.drop n)).map (s.take n :: ·)

end DateFormat

namespace Compiled

/-- The texts that the tokens of a format match in a name. -/
def captures (c : Compiled) (name : List Char) : Option (List (List Char)) :=
  DateFormat.captures c.pieces name

def isMatch (c : Compiled) (name : String) : Bool := (c.captures name.toList).isSome

end Compiled

end NoteArchive
