import NoteArchive.Decimal.Binary64

/-!
# The shortest decimal text of a binary number

A binary number is written with the fewest decimal digits that are read back as the same
number; of two such texts the nearer one is taken.

* `shortest`: these digits and their exponent.
* `Binary64.text`: the text.  It is positional while the first digit stands for a power of ten
  from `10 ^ -4` to `10 ^ 15`, always with a point; else it has an exponent of two or more
  digits with its sign.
-/

namespace NoteArchive.Decimal

/-- The greatest `k` with `10 ^ k ≤ num / den`, for positive `num` and `den`. -/
def floorLog10 (num den : Nat) : Int :=
  if den ≤ num then (digitCount (num / den) : Int) - 1
  else
    let count := digitCount (den / num)
    if den ≤ Nat.pow 10 (count - 1) * num then 1 - (count : Int) else -(count : Int)

/-- The digits, in a row of `count` at most, that are read back as the number of the significand
`m` and the exponent `e`: on the grid of so many digits only the two neighbours of the number
can be. -/
def shortestWith (m : Nat) (e : Int) (count : Nat) : Option (Nat × Int) :=
  let (num, den) := scaleBinary m 1 (-e)
  let step := floorLog10 num den - count + 1
  let (n, d) := scaleDecimal num den step
  let below := n / d
  let reads := fun q => nearestDecimal q step == some (m, e)
  let nearer := if 2 * (n % d) < d ∨ (2 * (n % d) = d ∧ below % 2 = 0) then below else below + 1
  let farther := if nearer = below then below + 1 else below
  if reads nearer then some (nearer, step)
  else if reads farther then some (farther, step)
  else none

/-- The shortest digits of a positive number, and the power of ten that the last one counts.
Seventeen digits are always enough. -/
def shortest (m : Nat) (e : Int) : Nat × Int :=
  ((List.range 17).findSome? fun k => shortestWith m e (k + 1)).getD (0, 0)

/-- A number without the zeros at its end, and how many these were.  The fuel is the count of
digits. -/
def dropZeros (fuel n : Nat) : Nat × Nat :=
  match fuel with
  | 0 => (n, 0)
  | fuel + 1 =>
    if n % 10 = 0 ∧ n ≠ 0 then
      let (m, zeros) := dropZeros fuel (n / 10)
      (m, zeros + 1)
    else (n, 0)

/-- The digits written in place, with a point. -/
def positional (digits : List Char) (first : Int) : List Char :=
  let count : Int := digits.length
  if count - 1 ≤ first then digits ++ List.replicate (first - count + 1).toNat '0' ++ ['.', '0']
  else if 0 ≤ first then
    digits.take (first.toNat + 1) ++ '.' :: digits.drop (first.toNat + 1)
  else '0' :: '.' :: List.replicate (-first - 1).toNat '0' ++ digits

/-- The digits with an exponent, the first one before the point. -/
def scientific (digits : List Char) (first : Int) : List Char :=
  let point := match digits.drop 1 with
    | [] => []
    | rest => '.' :: rest
  let size := Nat.toDigits 10 first.natAbs
  digits.take 1 ++ point ++
    'e' :: (if first < 0 then '-' else '+') :: (if size.length < 2 then '0' :: size else size)

def Binary64.text : Binary64 → String
  | .nan => "nan"
  | .infinite negative => if negative then "-inf" else "inf"
  | .finite negative m e =>
    let body :=
      if m = 0 then ['0', '.', '0']
      else
        let (n, step) := shortest m e
        let (n, zeros) := dropZeros (digitCount n) n
        let digits := Nat.toDigits 10 n
        let first := step + zeros + digits.length - 1
        if -4 ≤ first ∧ first < 16 then positional digits first else scientific digits first
    String.ofList (if negative then '-' :: body else body)

end NoteArchive.Decimal
