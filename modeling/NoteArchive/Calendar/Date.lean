import NoteArchive.Text.Digit

/-!
# Dates

* `Date`: a year, a month and a day.
* `Date.IsReal`: the date is in the Gregorian calendar, in the years 1 to 9999.
* `Date.text`: the date as `YYYY-MM-DD`.
* `Date.read?`: the date that a text writes.
* `Date.ordinal`: the number of the day, from the first day of year 1 on.
-/

namespace NoteArchive

structure Date where
  year : Nat
  month : Nat
  day : Nat
  deriving Repr, DecidableEq

namespace Date

/-- A leap year: every fourth year, of the hundreds every fourth again. -/
def isLeap (year : Nat) : Bool := year % 4 = 0 && (year % 100 ≠ 0 || year % 400 = 0)

def daysIn (year month : Nat) : Nat :=
  if month = 2 then (if isLeap year then 29 else 28)
  else if month = 4 ∨ month = 6 ∨ month = 9 ∨ month = 11 then 30
  else 31

/-- The date is in the calendar. -/
def IsReal (d : Date) : Prop :=
  1 ≤ d.year ∧ d.year ≤ 9999 ∧ 1 ≤ d.month ∧ d.month ≤ 12 ∧ 1 ≤ d.day ∧
    d.day ≤ daysIn d.year d.month

instance (d : Date) : Decidable d.IsReal :=
  inferInstanceAs (Decidable (_ ∧ _))

/-- The digits of a number, with zeros in front up to `width` digits. -/
def padded (width n : Nat) : List Char :=
  let digits := Nat.toDigits 10 n
  List.replicate (width - digits.length) '0' ++ digits

/-- The date as `YYYY-MM-DD`. -/
def text (d : Date) : String :=
  String.ofList (padded 4 d.year ++ '-' :: (padded 2 d.month ++ '-' :: padded 2 d.day))

/-! ### Reading a date

The year has four digits and the month one or two, where the first of two is `0` or `1`.  The
day has one or two characters, where the first of two is a blank or one of `0` to `3`.  The
digits of the year, and the last digit of the days from 10 to 29, may be of any script. -/

/-- The months by their texts. -/
def readMonth? (s : List Char) : Option Nat :=
  match s with
  | [c] => if c ≠ '0' ∧ Text.isAsciiDigit c then some (Text.digitsNumber s) else none
  | [a, b] =>
    if a = '0' then (if b ≠ '0' ∧ Text.isAsciiDigit b then some (Text.digitsNumber s) else none)
    else if a = '1' ∧ (b = '0' ∨ b = '1' ∨ b = '2') then some (Text.digitsNumber s)
    else none
  | _ => none

/-- The days by their texts. -/
def readDay? (s : List Char) : Option Nat :=
  match s with
  | [c] => if c ≠ '0' ∧ Text.isAsciiDigit c then some (Text.digitsNumber s) else none
  | [a, b] =>
    if a = '3' then (if b = '0' ∨ b = '1' then some (Text.digitsNumber s) else none)
    else if a = '1' ∨ a = '2' then (if Text.isDigit b then some (Text.digitsNumber s) else none)
    else if a = '0' ∨ a = ' ' then
      (if b ≠ '0' ∧ Text.isAsciiDigit b then some (Text.digitsNumber [b]) else none)
    else none
  | _ => none

/-- The month and the day, with the hyphen between them. -/
def readMonthDay? : List Char → Option (Nat × Nat)
  | a :: b :: r =>
    if b = '-' then do
      let month ← readMonth? [a]
      let day ← readDay? r
      return (month, day)
    else match r with
      | [] => none
      | c :: r =>
        if c = '-' then do
          let month ← readMonth? [a, b]
          let day ← readDay? r
          return (month, day)
        else none
  | _ => none

/-- The date that a text writes, if there is such a day. -/
def read? (s : String) : Option Date := do
  match s.toList with
  | a :: b :: c :: d :: hyphen :: r =>
    if hyphen = '-' ∧ [a, b, c, d].all Text.isDigit then
      let (month, day) ← readMonthDay? r
      let date : Date := ⟨Text.digitsNumber [a, b, c, d], month, day⟩
      if date.IsReal then return date else none
    else none
  | _ => none

/-! ### Counting days -/

/-- The days of a year before a month. -/
def daysBefore (year month : Nat) : Nat :=
  (List.range (month - 1)).foldl (fun days m => days + daysIn year (m + 1)) 0

/-- The number of a day, where the first day of year 1 has the number 1. -/
def ordinal (d : Date) : Nat :=
  let y := d.year - 1
  365 * y + y / 4 - y / 100 + y / 400 + daysBefore d.year d.month + d.day

end Date

end NoteArchive
