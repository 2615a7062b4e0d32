import NoteArchive.Json.Basic
import NoteArchive.Text.Utf8

/-!
# Writing JSON

* `Json.escape`: a character inside a written text.  Only the quote, the backslash and the
  controls below `U+0020` are written otherwise than as they are.
* `Json.pieces`: what is written one after the other for a value with every item and field on a
  line of its own, two blanks deeper than its container.  `Json.indented` is all of it.
* `Json.writePieces`: the bytes of pieces, which end before the first one with half a character
  in it.
* `Json.compact`: a value on one line.
-/

namespace NoteArchive.Json

open Text (Wide wide)

/-- One character of a written text. -/
def escape (c : Char) : List Char :=
  if c = '"' then ['\\', '"']
  else if c = '\\' then ['\\', '\\']
  else if c = '\n' then ['\\', 'n']
  else if c = '\r' then ['\\', 'r']
  else if c = '\t' then ['\\', 't']
  else if c = '\x0c' then ['\\', 'f']
  else if c = '\x08' then ['\\', 'b']
  else if c.toNat < 0x20 then '\\' :: 'u' :: Text.hexDigits 4 c.toNat
  else [c]

/-- One point of a written text. -/
def escapePoint : Text.Point → Wide
  | .char c => (escape c).map .char
  | .half place => [.half place]

/-- A text between its quotes. -/
def writeText (t : Wide) : Wide := .char '"' :: (t.flatMap escapePoint ++ [.char '"'])

/-- A number with a fraction.  Infinities and what is no number have names. -/
def writeFloat : Decimal.Binary64 → String
  | .nan => "NaN"
  | .infinite negative => if negative then "-Infinity" else "Infinity"
  | x => x.text

/-! ### Lines -/

/-- A line end and the blanks in front of a line that lies `depth` deep. -/
def newline (depth : Nat) : List Char := '\n' :: List.replicate (2 * depth) ' '

/-- Characters as a piece. -/
def piece (s : List Char) : Wide := s.map .char

mutual

/-- What is written for a value whose container lies `depth` deep, and before it `front`, which
is one piece with a value that is no container. -/
def pieces (depth : Nat) (front : List Char) : Json → List Wide
  | .null => [piece (front ++ "null".toList)]
  | .bool b => [piece (front ++ (if b then "true" else "false").toList)]
  | .int n => [piece (front ++ (toString n).toList)]
  | .float x => [piece (front ++ (writeFloat x).toList)]
  | .text t => [piece front ++ writeText t]
  | .array [] => [piece front, piece ['[', ']']]
  | .array (item :: rest) =>
    piece front :: (pieces (depth + 1) ('[' :: newline (depth + 1)) item ++
      (itemPieces (depth + 1) rest ++ [piece (newline depth), piece [']']]))
  | .object [] => [piece front, piece ['\x7b', '\x7d']]
  | .object ((name, value) :: rest) =>
    piece front :: piece ['\x7b'] :: piece (newline (depth + 1)) ::
      (writeText name :: piece [':', ' '] :: pieces (depth + 1) [] value ++
        (fieldPieces (depth + 1) rest ++ [piece (newline depth), piece ['\x7d']]))

/-- What is written for the items after the first one. -/
def itemPieces (depth : Nat) : List Json → List Wide
  | [] => []
  | item :: rest => pieces depth (',' :: newline depth) item ++ itemPieces depth rest

/-- What is written for the fields after the first one. -/
def fieldPieces (depth : Nat) : List (Wide × Json) → List Wide
  | [] => []
  | (name, value) :: rest =>
    piece (',' :: newline depth) ::
      (writeText name :: piece [':', ' '] :: pieces depth [] value ++ fieldPieces depth rest)

end

/-- A value with one item or field a line, with another character for each half. -/
def indented (v : Json) : List Char := ((pieces 0 [] v).flatten).map Text.Point.stand

/-- A file that could not be written to its end: the bytes that were written, and the error. -/
structure Cut where
  written : List UInt8
  error : Text.Utf8.EncodeError
  deriving Repr, DecidableEq

/-- The bytes of pieces that are written one after the other. -/
def writePieces : List Wide → Except Cut (List UInt8)
  | [] => .ok []
  | p :: rest =>
    match Text.Utf8.encode? p with
    | .error e => .error ⟨[], e⟩
    | .ok bytes =>
      match writePieces rest with
      | .ok more => .ok (bytes ++ more)
      | .error cut => .error { cut with written := bytes ++ cut.written }

/-! ### One line -/

/-- A text between its quotes, with another character for each half. -/
def compactText (t : Wide) : String := Text.stand (writeText t)

mutual

/-- The pieces of a value on one line, in front of the pieces that follow. -/
def compactPieces : Json → List String → List String
  | .null, k => "null" :: k
  | .bool b, k => (if b then "true" else "false") :: k
  | .int n, k => toString n :: k
  | .float x, k => writeFloat x :: k
  | .text t, k => compactText t :: k
  | .array [], k => "[]" :: k
  | .array (item :: rest), k => "[" :: compactPieces item (compactItems rest ("]" :: k))
  | .object [], k => "\x7b\x7d" :: k
  | .object ((name, value) :: rest), k =>
    "\x7b" :: compactText name :: ":" :: compactPieces value (compactFields rest ("\x7d" :: k))

/-- The pieces of the items after the first one. -/
def compactItems : List Json → List String → List String
  | [], k => k
  | item :: rest, k => "," :: compactPieces item (compactItems rest k)

/-- The pieces of the fields after the first one. -/
def compactFields : List (Wide × Json) → List String → List String
  | [], k => k
  | (name, value) :: rest, k =>
    "," :: compactText name :: ":" :: compactPieces value (compactFields rest k)

end

/-- A value on one line. -/
def compact (v : Json) : String := String.join (compactPieces v [])

end NoteArchive.Json
