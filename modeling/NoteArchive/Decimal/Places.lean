import NoteArchive.Decimal.Binary64

/-!
# Numbers with two decimal places

A duration is counted in microseconds, turned into seconds as a binary number, and shown with
two decimal places.  Both roundings go to the nearest and both take the even one of two equally
near numbers; since the first is in base two, the second sees what the first has left.

* `secondsText`: the text of a number of microseconds.
-/

namespace NoteArchive.Decimal

/-- A count of hundredths with a point before its last two digits. -/
def hundredthsText (n : Nat) : List Char :=
  Nat.toDigits 10 (n / 100) ++ '.' :: (if n % 100 < 10 then ['0'] else []) ++
    Nat.toDigits 10 (n % 100)

/-- The hundredths nearest to the binary number nearest to `num / den`. -/
def hundredths (num den : Nat) : Nat :=
  if num = 0 then 0
  else match nearest num den with
    | none => 0
    | some (m, e) =>
      let (n, d) := scaleBinary (100 * m) 1 (-e)
      roundHalfEven n d

/-- Seconds with two places, from microseconds. -/
def secondsText (microseconds : Int) : String :=
  let body := hundredthsText (hundredths microseconds.natAbs 1000000)
  String.ofList (if microseconds < 0 then '-' :: body else body)

end NoteArchive.Decimal
