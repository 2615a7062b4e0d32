import NoteArchive.Text.Printable
import NoteArchive.Text.Wide

/-!
# Quoted text

Warnings and system errors show a text between quotes, so that its ends and its unseen
characters are visible.

* The quote is `'`, or `"` when the text holds a `'` and no `"`.
* A backslash and the quote in use are written after a backslash.
* Line feed, carriage return and tab are written `\n`, `\r` and `\t`.
* Every other character that is not printable is written by its code in two, four or eight
  hexadecimal digits, after `\x`, `\u` or `\U`, and so is half a character.

`quotedUpTo` shows only the front of a long text.
-/

namespace NoteArchive.Text

/-- The lower-case hexadecimal digits of `n`, with zeros in front up to `width` digits. -/
def hexDigits (width n : Nat) : List Char :=
  let digits := Nat.toDigits 16 n
  List.replicate (width - digits.length) '0' ++ digits

/-- A character by its code, in the shortest of the three widths that holds it. -/
def escapeCode (c : Char) : List Char :=
  if c.toNat < 0x100 then '\\' :: 'x' :: hexDigits 2 c.toNat
  else if c.toNat < 0x10000 then '\\' :: 'u' :: hexDigits 4 c.toNat
  else '\\' :: 'U' :: hexDigits 8 c.toNat

/-- One character of a text that stands between two `quote`s. -/
def escapeChar (quote c : Char) : List Char :=
  if c = '\\' ∨ c = quote then ['\\', c]
  else if c = '\n' then ['\\', 'n']
  else if c = '\r' then ['\\', 'r']
  else if c = '\t' then ['\\', 't']
  else if isPrintable c then [c]
  else escapeCode c

/-- One point of such a text. -/
def escapePoint (quote : Char) : Point → List Char
  | .char c => escapeChar quote c
  | .half place => '\\' :: 'u' :: hexDigits 4 (Point.half place).code

/-- The quote that stands around a text. -/
def quoteFor (t : Wide) : Char :=
  if t.contains (.char '\'') && !t.contains (.char '"') then '"' else '\''

/-- A text between quotes. -/
def quoted (t : Wide) : String :=
  let quote := quoteFor t
  String.ofList (quote :: (t.flatMap (escapePoint quote) ++ [quote]))

/-- The front of a text between quotes, of `limit` characters at most.  Where the text is longer its
end is missing, and the quote with it. -/
def quotedUpTo (limit : Nat) (s : String) : String :=
  String.ofList ((quoted s).toList.take limit)

end NoteArchive.Text
