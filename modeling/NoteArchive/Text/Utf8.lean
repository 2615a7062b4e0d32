import NoteArchive.Text.Quoted

/-!
# UTF-8

Files hold bytes.  A settings file is read as UTF-8, and when its bytes are no UTF-8 the error
names the first bad place.

* `encode`: the bytes of a text.  `encode?`: the same for a text in which characters may be halved,
  and the first error where one is.
* `decode`: the text of some bytes, or the first error.  The decoder is a machine over single
  bytes whose state is the character that is still incomplete (`Pending`).
* `display`: a text for any bytes, with the undecodable bytes shown by their codes.

An incomplete character ends at the first byte that cannot continue it.  The range of the byte
after the first one depends on the first: it leaves out the long forms of short characters, the
surrogates, and what lies above `U+10FFFF`.
-/

namespace NoteArchive.Text.Utf8

/-- Why bytes are no UTF-8. -/
inductive Reason where
  /-- A byte that cannot begin a character. -/
  | badStart
  /-- A byte that cannot continue the character before it. -/
  | badContinuation
  /-- The bytes end inside a character. -/
  | truncated
  deriving Repr, DecidableEq

/-- The first place where bytes are no UTF-8: the reason, the position of the first byte in
question, and the bytes in question. -/
structure Error where
  reason : Reason
  position : Nat
  bytes : List UInt8
  deriving Repr, DecidableEq

def Reason.words : Reason → String
  | .badStart => "invalid start byte"
  | .badContinuation => "invalid continuation byte"
  | .truncated => "unexpected end of data"

/-- The text of an error: one byte is shown, of several only the positions. -/
def Error.message (e : Error) : String :=
  let place := match e.bytes with
    | [b] => s!"byte 0x{String.ofList (hexDigits 2 b.toNat)} in position {e.position}"
    | bs => s!"bytes in position {e.position}-{e.position + bs.length - 1}"
  "'utf-8' codec can't decode " ++ place ++ ": " ++ e.reason.words

/-- A character of which some bytes are still to come: how many, the range of the next one, the
number that the bytes so far write, and these bytes, the last one first. -/
structure Pending where
  missing : Nat
  low : Nat
  high : Nat
  value : Nat
  seen : List UInt8
  deriving Repr

/-- What a byte at the start of a character is. -/
inductive Start where
  | whole (c : Char)
  | lead (p : Pending)
  | bad

/-- The byte at the start of a character. -/
def start (b : UInt8) : Start :=
  let n := b.toNat
  if n < 0x80 then .whole (Char.ofNat n)
  else if n < 0xc2 then .bad
  else if n < 0xe0 then .lead ⟨1, 0x80, 0xbf, n - 0xc0, [b]⟩
  else if n < 0xf0 then
    .lead ⟨2, if n = 0xe0 then 0xa0 else 0x80, if n = 0xed then 0x9f else 0xbf, n - 0xe0, [b]⟩
  else if n < 0xf5 then
    .lead ⟨3, if n = 0xf0 then 0x90 else 0x80, if n = 0xf4 then 0x8f else 0xbf, n - 0xf0, [b]⟩
  else .bad

/-- The byte can continue the pending character. -/
def Pending.accepts (p : Pending) (b : UInt8) : Bool :=
  p.low ≤ b.toNat && b.toNat ≤ p.high

/-- The pending character with one byte more. -/
def Pending.push (p : Pending) (b : UInt8) : Pending :=
  ⟨p.missing - 1, 0x80, 0xbf, 64 * p.value + (b.toNat - 0x80), b :: p.seen⟩

/-- The machine, at byte `at`, with the pending character if there is one. -/
def decodeFrom (pos : Nat) : Option Pending → List UInt8 → Except Error (List Char)
  | none, [] => .ok []
  | some p, [] => .error ⟨.truncated, pos - p.seen.length, p.seen.reverse⟩
  | none, b :: r =>
    match start b with
    | .whole c => (decodeFrom (pos + 1) none r).map (c :: ·)
    | .lead p => decodeFrom (pos + 1) (some p) r
    | .bad => .error ⟨.badStart, pos, [b]⟩
  | some p, b :: r =>
    if p.accepts b then
      if p.missing = 1 then
        (decodeFrom (pos + 1) none r).map (Char.ofNat (p.push b).value :: ·)
      else decodeFrom (pos + 1) (some (p.push b)) r
    else .error ⟨.badContinuation, pos - p.seen.length, p.seen.reverse⟩

/-- The text that the bytes write, or the first error. -/
def decode (bytes : List UInt8) : Except Error (List Char) := decodeFrom 0 none bytes

/-- The bytes that write a text. -/
def encode (s : List Char) : List UInt8 := s.flatMap String.utf8EncodeChar

/-- The first place where a text cannot be encoded: the position of half a character, and this half
with those right behind it. -/
structure EncodeError where
  position : Nat
  halves : List Point
  deriving Repr, DecidableEq

/-- The text of an error: one half is shown, of several only the positions. -/
def EncodeError.message (e : EncodeError) : String :=
  let place := match e.halves with
    | [p] => s!"character '\\u{String.ofList (hexDigits 4 p.code)}' in position {e.position}"
    | ps => s!"characters in position {e.position}-{e.position + ps.length - 1}"
  "'utf-8' codec can't encode " ++ place ++ ": surrogates not allowed"

/-- The first error of a text that cannot be encoded. -/
def firstHalf (t : Wide) : EncodeError where
  position := (t.takeWhile Point.isChar).length
  halves := (t.dropWhile Point.isChar).takeWhile fun p => !p.isChar

/-- The bytes that write a text, or its first error. -/
def encode? (t : Wide) : Except EncodeError (List UInt8) :=
  match plain? t with
  | some s => .ok (encode s.toList)
  | none => .error (firstHalf t)

/-- A byte shown by its code. -/
def displayByte (b : UInt8) : List Char := '\\' :: 'x' :: hexDigits 2 b.toNat

/-- The text of bytes from the pending character on, undecodable bytes by their codes. -/
def displayFrom : Option Pending → List UInt8 → List Char
  | none, [] => []
  | some p, [] => p.seen.reverse.flatMap displayByte
  | none, b :: r =>
    match start b with
    | .whole c => c :: displayFrom none r
    | .lead p => displayFrom (some p) r
    | .bad => displayByte b ++ displayFrom none r
  | some p, b :: r =>
    if p.accepts b then
      if p.missing = 1 then Char.ofNat (p.push b).value :: displayFrom none r
      else displayFrom (some (p.push b)) r
    else
      p.seen.reverse.flatMap displayByte ++
        match start b with
        | .whole c => c :: displayFrom none r
        | .lead q => displayFrom (some q) r
        | .bad => displayByte b ++ displayFrom none r

/-- A text for any bytes. -/
def display (bytes : List UInt8) : String := String.ofList (displayFrom none bytes)

end NoteArchive.Text.Utf8
