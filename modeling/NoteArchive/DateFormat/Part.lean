import NoteArchive.DateFormat.Token

/-!
# Parts of a date format

A date format is cut at its separators, the hyphen and the slash.

* `Part`: a separator, or a row of other characters.
* `parts`: the parts of a format, in order.
* `flatMap_parts`: the parts, one after the other, are the format.
* `Part.tokens?`: the tokens of a part; a part that is not made of tokens is unrecognised.
-/

namespace NoteArchive.DateFormat

/-- The characters that separate the parts of a format. -/
def isSeparator (c : Char) : Bool := c = '-' || c = '/'

/-- A part of a format. -/
inductive Part where
  | separator (c : Char)
  | segment (s : List Char)
  deriving Repr, DecidableEq

namespace Part

def letters : Part → List Char
  | .separator c => [c]
  | .segment s => s

def text (p : Part) : String := String.ofList p.letters

/-- The tokens of a part.  Separators have none. -/
def tokens? : Part → Option (List Token)
  | .separator _ => none
  | .segment s => tokenize s

/-- A row of characters that is not made of tokens. -/
def isUnrecognised : Part → Bool
  | .separator _ => false
  | .segment s => (tokenize s).isNone

end Part

/-- A character in front of the parts of what follows it. -/
def consPart (c : Char) : List Part → List Part
  | .segment s :: rest => .segment (c :: s) :: rest
  | rest => .segment [c] :: rest

/-- The parts of a format. -/
def parts : List Char → List Part
  | [] => []
  | c :: r => if isSeparator c then .separator c :: parts r else consPart c (parts r)

theorem flatMap_consPart (c : Char) (ps : List Part) :
    (consPart c ps).flatMap Part.letters = c :: ps.flatMap Part.letters := by
  cases ps with
  | nil => rfl
  | cons p rest => cases p <;> rfl

/-- The parts, one after the other, are the format. -/
theorem flatMap_parts (f : List Char) : (parts f).flatMap Part.letters = f := by
  induction f with
  | nil => rfl
  | cons c r ih =>
    rw [parts]
    split
    · simp [Part.letters, ih]
    · rw [flatMap_consPart, ih]

/-- The tokens of a format in order: those of its parts that are made of tokens. -/
def findTokens (f : List Char) : List Token :=
  (parts f).flatMap fun p => p.tokens?.getD []

def hasMixedSeparators (f : List Char) : Bool := f.contains '-' && f.contains '/'

def lastSeparator (f : List Char) : Option Char := f.reverse.find? isSeparator

end NoteArchive.DateFormat
