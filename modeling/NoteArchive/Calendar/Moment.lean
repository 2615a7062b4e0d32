import NoteArchive.Calendar.Date
import NoteArchive.Decimal.Places

/-!
# Moments and the clock

* `Moment`: a date and a time of day, to the microsecond.
* `Moment.text` and `Moment.stamp`: a moment for a reader, and in the name of a file.
* `Moment.read?`: the moment that a text writes.
* `Moment.secondsSince`: how long ago another moment was.
* `Clock`: the moments that the clock will show.  The last one is shown for ever.
-/

namespace NoteArchive

structure Moment where
  date : Date
  hour : Nat
  minute : Nat
  second : Nat
  microsecond : Nat
  deriving Repr, DecidableEq

namespace Moment

/-- The moment as `YYYY-MM-DD hh:mm:ss`; the year has as many digits as it needs. -/
def text (m : Moment) : String :=
  String.ofList (Nat.toDigits 10 m.date.year ++ '-' :: (Date.padded 2 m.date.month ++ '-' ::
    (Date.padded 2 m.date.day ++ ' ' :: (Date.padded 2 m.hour ++ ':' ::
      (Date.padded 2 m.minute ++ ':' :: Date.padded 2 m.second)))))

/-- The moment as `YYYYMMDD_hhmmss`. -/
def stamp (m : Moment) : String :=
  String.ofList (Nat.toDigits 10 m.date.year ++ Date.padded 2 m.date.month ++
    Date.padded 2 m.date.day ++ '_' :: (Date.padded 2 m.hour ++ Date.padded 2 m.minute ++
      Date.padded 2 m.second))

/-- The number that `n` digits write, after the character `mark`. -/
def readPart? (mark : Char) (n : Nat) (s : List Char) : Option (Nat × List Char) :=
  match s with
  | c :: r =>
    if c = mark ∧ n ≤ r.length ∧ (r.take n).all Text.isAsciiDigit then
      some (Text.digitsNumber (r.take n), r.drop n)
    else none
  | [] => none

/-- The microseconds of a fraction of a second: a point and up to six digits, or nothing. -/
def readFraction? : List Char → Option Nat
  | [] => some 0
  | c :: digits =>
    if c = '.' ∧ digits ≠ [] ∧ digits.length ≤ 6 ∧ digits.all Text.isAsciiDigit then
      some (Text.digitsNumber (digits ++ List.replicate (6 - digits.length) '0'))
    else none

/-- The moment that a text writes as `YYYY-MM-DDThh:mm:ss`, perhaps with a fraction. -/
def read? (s : String) : Option Moment := do
  let cs := s.toList
  let date ← Date.read? (String.ofList (cs.take 10))
  let (hour, r) ← readPart? 'T' 2 (cs.drop 10)
  let (minute, r) ← readPart? ':' 2 r
  let (second, r) ← readPart? ':' 2 r
  let microsecond ← readFraction? r
  return ⟨date, hour, minute, second, microsecond⟩

/-- The microseconds from the beginning of the calendar. -/
def microseconds (m : Moment) : Int :=
  (((m.date.ordinal * 24 + m.hour) * 60 + m.minute) * 60 + m.second) * 1000000 + m.microsecond

/-- The seconds from `start` to `m`, with two decimal places. -/
def secondsSince (m start : Moment) : String :=
  Decimal.secondsText (m.microseconds - start.microseconds)

end Moment

/-- The moments that the clock will show, of which the last one stays. -/
structure Clock where
  now : Moment
  later : List Moment

namespace Clock

/-- The clock after it was looked at. -/
def advance (c : Clock) : Clock :=
  match c.later with
  | [] => c
  | m :: rest => ⟨m, rest⟩

/-- The clock that shows some moments, or `usual` for ever if there are none. -/
def ofMoments (usual : Moment) : List Moment → Clock
  | [] => ⟨usual, []⟩
  | m :: rest => ⟨m, rest⟩

/-- The day that the clock shows. -/
def today (c : Clock) : Date := c.now.date

end Clock

end NoteArchive
