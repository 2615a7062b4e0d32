import NoteArchive.DateFormat.Captures
import NoteArchive.Calendar.Date

/-!
# Reading the date of a note

The date of a note is read from the texts that the tokens match in its name, from left to right;
where a field is written twice the last one counts.

* `Slot`: how the text of a token is read.
* `Misread`: why a name has no date, and what the log says then.
* `readDate`: the date of a name.

A year of two digits lies in the years from 1950 to 2049, and no year is below 1000.
-/

namespace NoteArchive

/-- How a text in a name is read. -/
inductive Slot where
  | day
  | month
  | monthName
  | year
  | shortYear
  /-- The text is not read. -/
  | unread
  deriving Repr, DecidableEq

/-- The reading of the text of a token. -/
def Token.slot : Token → Slot
  | .dd => .day
  | .mm => .month
  | .mmm | .mmmm => .monthName
  | .yyyy => .year
  | .yy => .shortYear

/-- Why a name has no date. -/
inductive Misread where
  | mismatch (name pattern : String)
  | missingText (offset : Nat)
  | badDay (day : Nat)
  | badMonthName (text : String)
  | badMonth (month : Nat)
  | badYear (year : Int)
  | incomplete (year : Option Int) (month day : Option Nat)
  | noSuchDay (year : Int) (month day : Nat)
  /-- A text that is to be a number has another character than a digit. -/
  | notNumber (text : String)
  deriving Repr, DecidableEq

/-- A number that may be missing. -/
def optionText {α : Type} [ToString α] : Option α → String
  | none => "None"
  | some n => toString n

/-- How much is shown of a text that is no number. -/
def shownLength : Nat := 200

def Misread.message : Misread → String
  | .mismatch name pattern => "パターン不一致: " ++ name ++ " (" ++ pattern ++ ")"
  | .missingText offset => s!"セグメント不足: オフセット {offset}"
  | .badDay day => s!"無効な日: {day}"
  | .badMonthName text => "無効な月名: " ++ text
  | .badMonth month => s!"無効な月: {month}"
  | .badYear year => s!"無効な年: {year}"
  | .incomplete year month day =>
    "年月日が不足しています: " ++ optionText year ++ "-" ++ optionText month ++ "-" ++ optionText day
  | .noSuchDay year month day => s!"存在しない日付: {year}-{month}-{day}"
  | .notNumber text =>
    "invalid literal for int() with base 10: " ++ Text.quotedUpTo shownLength text

/-! ### Months and years -/

/-- The English names of the months, short and long. -/
def monthNames : List (String × Nat) :=
  [("jan", 1), ("feb", 2), ("mar", 3), ("apr", 4), ("may", 5), ("jun", 6), ("jul", 7), ("aug", 8),
   ("sep", 9), ("oct", 10), ("nov", 11), ("dec", 12), ("january", 1), ("february", 2),
   ("march", 3), ("april", 4), ("june", 6), ("july", 7), ("august", 8), ("september", 9),
   ("october", 10), ("november", 11), ("december", 12)]

/-- The month of a name, in whatever letter case. -/
def monthOfName? (s : List Char) : Option Nat :=
  (monthNames.find? fun (name, _) => name.toList = s.map Char.toLower).map (·.2)

/-- The year that a year of two digits stands for. -/
def resolveShortYear (n : Int) : Int := if n < 50 then 2000 + n else 1900 + n

/-- The first and the last year that a note may have. -/
def firstYear : Int := 1000

@[inherit_doc firstYear]
def lastYear : Int := 9999

/-! ### Reading texts -/

/-- What is known of a date. -/
structure PartialDate where
  year : Option Int
  month : Option Nat
  day : Option Nat
  deriving Repr, DecidableEq

/-- The number that a text writes in digits. -/
def readNumber (s : List Char) : Except Misread Nat :=
  if s ≠ [] ∧ s.all Text.isDigit then .ok (Text.digitsNumber s)
  else .error (.notNumber (String.ofList s))

/-- A year that a note may have. -/
def readYear (year : Int) (known : PartialDate) : Except Misread PartialDate :=
  if year < firstYear ∨ lastYear < year then .error (.badYear year)
  else .ok { known with year := some year }

/-- What is known of a date after one more text. -/
def readSlot (known : PartialDate) (slot : Slot) (s : List Char) : Except Misread PartialDate :=
  match slot with
  | .day => do
    let day ← readNumber s
    if day < 1 ∨ 31 < day then .error (.badDay day) else .ok { known with day := some day }
  | .month => do
    let month ← readNumber s
    if month < 1 ∨ 12 < month then .error (.badMonth month)
    else .ok { known with month := some month }
  | .monthName =>
    match monthOfName? s with
    | none => .error (.badMonthName (String.ofList s))
    | some month => .ok { known with month := some month }
  | .year => do
    let year ← readNumber s
    readYear year known
  | .shortYear => do
    let year ← readNumber s
    readYear (resolveShortYear year) known
  | .unread => .ok known

/-- What is known of a date after the texts of all slots, the first of which has the number
`offset`.  Texts beyond the last slot are not read. -/
def readSlots (known : PartialDate) (offset : Nat) :
    List Slot → List (List Char) → Except Misread PartialDate
  | [], _ => .ok known
  | _ :: _, [] => .error (.missingText offset)
  | slot :: slots, s :: texts => do
    let known ← readSlot known slot s
    readSlots known (offset + 1) slots texts

/-- The date that is known, if it is known in full and in the calendar. -/
def PartialDate.complete (known : PartialDate) : Except Misread Date :=
  match known.year, known.month, known.day with
  | some year, some month, some day =>
    let date : Date := ⟨year.toNat, month, day⟩
    if date.IsReal then .ok date else .error (.noSuchDay year month day)
  | _, _, _ => .error (.incomplete known.year known.month known.day)

/-- The date of a stem, read by `slots`. -/
def Compiled.readDateBy (c : Compiled) (slots : List Slot) (stem : String) :
    Except Misread Date :=
  match c.captures (stem.toList ++ noteSuffix) with
  | none => .error (.mismatch (stem ++ String.ofList noteSuffix) c.pattern)
  | some texts => do
    let known ← readSlots ⟨none, none, none⟩ 0 slots (texts.filter (! ·.isEmpty))
    known.complete

/-- The date of a stem, which is the name of a note without the `.md`. -/
def Compiled.readDate (c : Compiled) (stem : String) : Except Misread Date :=
  c.readDateBy (c.tokens.map Token.slot) stem

/-- The stem of a name that ends in `.md`; another name is its own stem. -/
def stemOfName (name : String) : String :=
  let s := name.toList
  if noteSuffix.isSuffixOf s then String.ofList (s.take (s.length - noteSuffix.length)) else name

def readingLog (r : Except Misread Date) : List Record :=
  [⟨"date_parser", .debug, match r with
    | .ok date => "日付を解析: " ++ date.text
    | .error m => m.message⟩]

end NoteArchive
