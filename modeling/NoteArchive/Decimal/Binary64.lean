/-!
# Binary floating-point numbers, exactly

A number with a fraction is held in the binary format with fifty-three bits of precision and
exponents from `-1074` to `971`.  Everything here is exact arithmetic on natural numbers.

* `roundHalfEven`: a quotient of natural numbers, rounded to the nearest, ties to even.
* `nearest`: the format's number nearest to a quotient, ties to the even significand.
* `ofDecimal`: the number that a decimal numeral is read as.
-/

namespace NoteArchive.Decimal

/-- The natural number nearest to `num / den`; of two that are equally near, the even one. -/
def roundHalfEven (num den : Nat) : Nat :=
  let q := num / den
  let r := num % den
  if 2 * r < den then q
  else if den < 2 * r then q + 1
  else if q % 2 = 0 then q else q + 1

/-- A number of the binary format: not a number, an infinity, or the finite number
`significand * 2 ^ exponent` with its sign. -/
inductive Binary64 where
  | nan
  | infinite (negative : Bool)
  | finite (negative : Bool) (significand : Nat) (exponent : Int)
  deriving Repr, DecidableEq

/-- The quotient `num / den` divided by `2 ^ e`, again as a quotient of natural numbers. -/
def scaleBinary (num den : Nat) (e : Int) : Nat × Nat :=
  if 0 ≤ e then (num, den * Nat.pow 2 e.toNat) else (num * Nat.pow 2 (-e).toNat, den)

/-- The quotient `num / den` divided by `10 ^ e`, again as a quotient of natural numbers. -/
def scaleDecimal (num den : Nat) (e : Int) : Nat × Nat :=
  if 0 ≤ e then (num, den * Nat.pow 10 e.toNat) else (num * Nat.pow 10 (-e).toNat, den)

/-- The greatest `k` with `2 ^ k ≤ num / den`, for positive `num` and `den`. -/
def floorLog2 (num den : Nat) : Int :=
  let k : Int := (Nat.log2 num : Int) - Nat.log2 den
  let (n, d) := scaleBinary num den k
  if d ≤ n then k else k - 1

/-- The significand and the exponent of the finite number nearest to `num / den`, which is
positive, or `none` when the nearest one is infinite. -/
def nearest (num den : Nat) : Option (Nat × Int) :=
  let e := max (floorLog2 num den - 52) (-1074)
  let (n, d) := scaleBinary num den e
  let m := roundHalfEven n d
  let (m, e) := if m = Nat.pow 2 53 then (Nat.pow 2 52, e + 1) else (m, e)
  if 971 < e then none else some (m, e)

/-- How many decimal digits write `n`. -/
def digitCount (n : Nat) : Nat := (Nat.toDigits 10 n).length

/-- The significand and the exponent of `digits * 10 ^ exponent`.  An exponent so large or so
small that every such number is infinite or zero is not raised to a power. -/
def nearestDecimal (digits : Nat) (exponent : Int) : Option (Nat × Int) :=
  if digits = 0 then some (0, 0)
  else
    let top := exponent + digitCount digits
    if 310 < top then none
    else if top < -330 then some (0, 0)
    else
      let (num, den) := scaleDecimal digits 1 (-exponent)
      nearest num den

/-- The number that a decimal numeral is read as: the nearest one, or an infinity. -/
def Binary64.ofDecimal (negative : Bool) (digits : Nat) (exponent : Int) : Binary64 :=
  match nearestDecimal digits exponent with
  | some (m, e) => .finite negative m e
  | none => .infinite negative

end NoteArchive.Decimal
