import NoteArchive.Json.Basic
import NoteArchive.Text.Digit

/-!
# Reading JSON

The reader takes a text to a value or to the first place where it cannot go on.

* `Json.Fault`: what can be wrong, and `Json.ReadError`: the fault and its place.
* `Json.read`: the reader.  Beyond the standard it knows the numbers `NaN`, `Infinity` and
  `-Infinity`; of two fields of one name the last one counts.

A step of the reader returns the rest of the text.  A fault carries the rest that begins at its
place, so that the place is known by counting what is left.  Lists and objects may lie in one
another up to a limit, which is `nestingLimit` where nothing else is said, and a whole number may
have `digitLimit` digits.
-/

namespace NoteArchive.Json

/-- What can be wrong with a text. -/
inductive Fault where
  | byteOrderMark
  | noValue
  | noName
  | noColon
  | noComma
  | extraData
  | openText
  | controlCharacter
  | badEscape
  | badCode
  /-- A whole number with more digits than are read. -/
  | tooManyDigits (count : Nat)
  /-- Lists or objects too deep in one another. -/
  | tooDeep (container : String)
  deriving Repr, DecidableEq

/-- The text of a fault, without its place. -/
def Fault.words : Fault → String
  | .byteOrderMark => "Unexpected UTF-8 BOM (decode using utf-8-sig)"
  | .noValue => "Expecting value"
  | .noName => "Expecting property name enclosed in double quotes"
  | .noColon => "Expecting ':' delimiter"
  | .noComma => "Expecting ',' delimiter"
  | .extraData => "Extra data"
  | .openText => "Unterminated string starting at"
  | .controlCharacter => "Invalid control character at"
  | .badEscape => "Invalid \\escape"
  | .badCode => "Invalid \\uXXXX escape"
  | .tooManyDigits count =>
    s!"Exceeds the limit (4300 digits) for integer string conversion: value has {count} digits; "
      ++ "use sys.set_int_max_str_digits() to increase the limit"
  | .tooDeep container =>
    s!"maximum recursion depth exceeded while decoding a JSON {container} from a unicode string"

/-- A fault is malformed text, or else a limit of the reader. -/
def Fault.isLimit : Fault → Bool
  | .tooManyDigits _ => true
  | .tooDeep _ => true
  | _ => false

/-- A fault with its place: the line and the column from one on, and the position from zero. -/
structure ReadError where
  fault : Fault
  line : Nat
  column : Nat
  position : Nat
  deriving Repr, DecidableEq

/-- The text of an error; a limit has no place. -/
def ReadError.message (e : ReadError) : String :=
  if e.fault.isLimit then e.fault.words
  else s!"{e.fault.words}: line {e.line} column {e.column} (char {e.position})"

/-- The greatest depth of lists and objects in one another, where nothing else is said. -/
def nestingLimit : Nat := 988

/-- The greatest number of digits of a whole number. -/
def digitLimit : Nat := 4300

/-- A step: what was read and the rest, or a fault and the rest that begins at its place. -/
abbrev Step (α : Type) := Except (Fault × List Char) (α × List Char)

/-- The characters that may stand between the parts of a text. -/
def isSpace (c : Char) : Bool := c = ' ' || c = '\t' || c = '\n' || c = '\r'

/-- The rest after spaces. -/
def skipSpaces (s : List Char) : List Char := s.dropWhile isSpace

/-! ### Texts -/

/-- The value of a hexadecimal digit. -/
def hexValue? (c : Char) : Option Nat :=
  let n := c.toNat
  if 48 ≤ n ∧ n ≤ 57 then some (n - 48)
  else if 97 ≤ n ∧ n ≤ 102 then some (n - 87)
  else if 65 ≤ n ∧ n ≤ 70 then some (n - 55)
  else none

/-- The number of four hexadecimal digits. -/
def code? (a b c d : Char) : Option Nat := do
  let a ← hexValue? a
  let b ← hexValue? b
  let c ← hexValue? c
  let d ← hexValue? d
  return 4096 * a + 256 * b + 16 * c + d

/-- The character after a backslash that stands for one character. -/
def escaped? (c : Char) : Option Char :=
  if c = '"' ∨ c = '\\' ∨ c = '/' then some c
  else if c = 'b' then some '\x08'
  else if c = 'f' then some '\x0c'
  else if c = 'n' then some '\n'
  else if c = 'r' then some '\r'
  else if c = 't' then some '\t'
  else none

/-- The first half of a character beyond the first plane. -/
def isHighHalf (n : Nat) : Bool := 0xd800 ≤ n && n ≤ 0xdbff

/-- The second half of a character beyond the first plane. -/
def isLowHalf (n : Nat) : Bool := 0xdc00 ≤ n && n ≤ 0xdfff

/-- The character of two halves. -/
def joinHalves (high low : Nat) : Char :=
  Char.ofNat (0x10000 + 0x400 * (high - 0xd800) + (low - 0xdc00))

/-- A point in front of what a step reads. -/
def Step.push (p : Text.Point) (r : Step Text.Wide) : Step Text.Wide :=
  r.map fun (t, rest) => (p :: t, rest)

/-- What follows the backslash after the first half of a character: no code, a code with a digit
that is none, or a code and the rest, which is not empty. -/
inductive SecondHalf where
  | absent
  | bad
  | code (n : Nat) (rest : List Char)

/-- The code after a backslash, for the second half of a character. -/
def secondHalf : List Char → SecondHalf
  | u :: a :: b :: d :: g :: f :: w =>
    if u = 'u' then
      match code? a b d g with
      | none => .bad
      | some n => .code n (f :: w)
    else .absent
  | _ => .absent

theorem length_of_secondHalf {s rest : List Char} {n : Nat} (h : secondHalf s = .code n rest) :
    rest.length < s.length := by
  unfold secondHalf at h
  split at h
  · split at h
    · split at h
      · cases h
      · cases h; simp
    · cases h
  · cases h

/-- The points of a text after its opening quote, up to its closing one.  `opening` begins with the
opening quote.  The four digits of a code are read only if something follows them, and two halves of
a character only if something follows the second; a half that is left alone stays as it is. -/
def readText (opening : List Char) : List Char → Step Text.Wide
  | [] => .error (.openText, opening)
  | c :: r =>
    if c = '"' then .ok ([], r)
    else if c = '\\' then
      match r with
      | [] => .error (.openText, opening)
      | e :: t =>
        if e = 'u' then
          match t with
          | a :: b :: d :: g :: f :: w =>
            match code? a b d g with
            | none => .error (.badCode, e :: a :: b :: d :: g :: f :: w)
            | some n =>
              if isHighHalf n ∧ f = '\\' then
                match h : secondHalf w with
                | .absent => Step.push (.ofCode n) (readText opening (f :: w))
                | .bad => .error (.badCode, w)
                | .code m rest =>
                  have := length_of_secondHalf h
                  if isLowHalf m then Step.push (.char (joinHalves n m)) (readText opening rest)
                  else Step.push (.ofCode n) (readText opening (f :: w))
              else Step.push (.ofCode n) (readText opening (f :: w))
          | _ => .error (.badCode, e :: t)
        else match escaped? e with
          | some x => Step.push (.char x) (readText opening t)
          | none => .error (.badEscape, c :: e :: t)
    else if c.toNat < 0x20 then .error (.controlCharacter, c :: r)
    else Step.push (.char c) (readText opening r)
  termination_by s => s.length
  decreasing_by all_goals (simp_all; try omega)

/-! ### Numbers -/

def digitsAhead (s : List Char) : List Char × List Char :=
  (s.takeWhile Text.isAsciiDigit, s.dropWhile Text.isAsciiDigit)

/-- The digits of the whole part: a zero alone, or digits that do not begin with a zero. -/
def wholePart (s : List Char) : List Char × List Char :=
  match s with
  | [] => ([], [])
  | c :: r => if c = '0' then ([c], r) else digitsAhead s

/-- The digits of the fraction, which is there only if a digit follows the point. -/
def fractionPart (s : List Char) : List Char × List Char :=
  match s with
  | [] => ([], [])
  | c :: r =>
    if c = '.' then
      match digitsAhead r with
      | ([], _) => ([], s)
      | found => found
    else ([], s)

/-- The exponent, which is there only if a digit follows its letter and its sign. -/
def exponentPart (s : List Char) : Option Int × List Char :=
  match s with
  | [] => (none, [])
  | c :: r =>
    if c = 'e' ∨ c = 'E' then
      let (negative, r) := match r with
        | [] => (false, [])
        | sign :: t =>
          if sign = '-' then (true, t) else if sign = '+' then (false, t) else (false, r)
      match digitsAhead r with
      | ([], _) => (none, s)
      | (digits, rest) =>
        let n : Int := Text.digitsNumber digits
        (some (if negative then -n else n), rest)
    else (none, s)

/-- A number, with the sign taken off.  `all` is the text from the sign on. -/
def readNumber (all : List Char) (negative : Bool) (s : List Char) : Step Json :=
  let (whole, r) := wholePart s
  if whole.isEmpty then .error (.noValue, all)
  else
    let (fraction, r) := fractionPart r
    let (exponent, rest) := exponentPart r
    match fraction, exponent with
    | [], none =>
      if digitLimit < whole.length then .error (.tooManyDigits whole.length, all)
      else
        let n : Int := Text.digitsNumber whole
        .ok (.int (if negative then -n else n), rest)
    | _, _ =>
      .ok (.float (Decimal.Binary64.ofDecimal negative (Text.digitsNumber (whole ++ fraction))
        (exponent.getD 0 - fraction.length)), rest)

/-! ### Values -/

/-- The rest after a word at the front. -/
def afterWord (word : String) (s : List Char) : Option (List Char) :=
  if word.toList.isPrefixOf s then some (s.drop word.length) else none

/-- The values that are written by a name. -/
def namedValues : List (String × Json) :=
  [("null", .null), ("true", .bool true), ("false", .bool false), ("NaN", .float .nan),
   ("Infinity", .float (.infinite false)), ("-Infinity", .float (.infinite true))]

/-- A value written by a name, if there is one at the front. -/
def readNamed (s : List Char) : Option (Json × List Char) :=
  namedValues.findSome? fun (word, value) => (afterWord word s).map (value, ·)

mutual

/-- A value at the front of `s`, of depth `depth` at most.  The fuel bounds the steps. -/
def readValue (depth : Nat) : Nat → List Char → Step Json
  | 0, s => .error (.noValue, s)
  | _ + 1, [] => .error (.noValue, [])
  | fuel + 1, c :: r =>
    if c = '"' then
      (readText (c :: r) r).map fun (t, rest) => (.text t, rest)
    else if c = '\x7b' then
      match depth with
      | 0 => .error (.tooDeep "object", c :: r)
      | depth + 1 =>
        match skipSpaces r with
        | [] => .error (.noName, [])
        | d :: t =>
          if d = '\x7d' then .ok (.object [], t)
          else (readFields depth fuel [] (d :: t)).map fun (fs, rest) => (.object fs, rest)
    else if c = '[' then
      match depth with
      | 0 => .error (.tooDeep "array", c :: r)
      | depth + 1 =>
        match skipSpaces r with
        | [] => .error (.noValue, [])
        | d :: t =>
          if d = ']' then .ok (.array [], t)
          else (readItems depth fuel (d :: t)).map fun (items, rest) => (.array items, rest)
    else match readNamed (c :: r) with
      | some found => .ok found
      | none =>
        if c = '-' then readNumber (c :: r) true r else readNumber (c :: r) false (c :: r)

/-- The items of a list, from an item on up to the closing bracket. -/
def readItems (depth : Nat) : Nat → List Char → Step (List Json)
  | 0, s => .error (.noValue, s)
  | fuel + 1, s =>
    match readValue depth fuel s with
    | .error e => .error e
    | .ok (item, r) =>
      match skipSpaces r with
      | [] => .error (.noComma, [])
      | c :: t =>
        if c = ']' then .ok ([item], t)
        else if c = ',' then
          (readItems depth fuel (skipSpaces t)).map fun (items, rest) => (item :: items, rest)
        else .error (.noComma, c :: t)

/-- The fields of an object, from a name on up to the closing brace, put to those before. -/
def readFields (depth : Nat) : Nat → List (Text.Wide × Json) → List Char →
    Step (List (Text.Wide × Json))
  | 0, _, s => .error (.noName, s)
  | _ + 1, _, [] => .error (.noName, [])
  | fuel + 1, before, q :: r =>
    if q = '"' then
      match readText (q :: r) r with
      | .error e => .error e
      | .ok (name, r) =>
        match skipSpaces r with
        | [] => .error (.noColon, [])
        | colon :: t =>
          if colon = ':' then
            match readValue depth fuel (skipSpaces t) with
            | .error e => .error e
            | .ok (value, r) =>
              let fields := putField name value before
              match skipSpaces r with
              | [] => .error (.noComma, [])
              | c :: t =>
                if c = '\x7d' then .ok (fields, t)
                else if c = ',' then readFields depth fuel fields (skipSpaces t)
                else .error (.noComma, c :: t)
          else .error (.noColon, colon :: t)
    else .error (.noName, q :: r)

end

/-- The error of a fault at the place where `rest` begins in `s`. -/
def ReadError.at (s : List Char) (fault : Fault) (rest : List Char) : ReadError :=
  let position := s.length - rest.length
  let before := s.take position
  { fault
    position
    line := before.count '\n' + 1
    column := (before.reverse.takeWhile (· ≠ '\n')).length + 1 }

/-- The value that a text writes, of depth `limit` at most, or the first error. -/
def read (s : List Char) (limit : Nat := nestingLimit) : Except ReadError Json :=
  match s with
  | [] => .error (.at s .noValue [])
  | c :: _ =>
    if c = '\ufeff' then .error (.at s .byteOrderMark s)
    else
      match readValue limit (2 * s.length + 2) (skipSpaces s) with
      | .error (fault, rest) => .error (.at s fault rest)
      | .ok (value, rest) =>
        match skipSpaces rest with
        | [] => .ok value
        | left => .error (.at s .extraData left)

end NoteArchive.Json
