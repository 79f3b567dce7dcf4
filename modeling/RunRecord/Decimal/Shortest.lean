import RunRecord.Binary64
import RunRecord.Text.Digits

/-!
# Decimal/Shortest — the shortest decimal that reads back as a given double

Of all decimals that round to the double, those with the fewest digits are taken, and of these the
one nearest to it.  `Decimal.text` lays the digits out: positionally while the leading digit stands
no further than `leastPositional` and `greatestPositional` from the units, else with an exponent.

Reports have no numbers that are not whole.  Doubles come up where a document has one in the place
of something else, since the message then names it as it would be printed.
-/

namespace RunRecord

/-- A positive decimal: `digits * 10 ^ exponent`. -/
structure Decimal where
  digits : Nat
  exponent : Int
deriving DecidableEq, Repr

namespace Decimal

/-! ## Finding the digits -/

/-- The greatest `e` with `10 ^ e ≤ x`, for positive `x`. -/
def log10Floor (x : Rat) : Int :=
  let e : Int := (Digits.digits x.num.natAbs).length - (Digits.digits x.den).length
  if x < 10 ^ e then e - 1 else e

/-- The value of a decimal. -/
def value (d : Decimal) : Rat := d.digits * 10 ^ d.exponent

/-- The decimal next to `x` on the grid of multiples of `10 ^ exponent` that rounds to the double
`x`, if one does: of two the nearer, and the even one if they are equally near. -/
def onGrid? (x : Rat) (exponent : Int) : Option Decimal :=
  let scaled := x / 10 ^ exponent
  let below : Decimal := { digits := scaled.floor.toNat, exponent }
  let above : Decimal := { digits := scaled.floor.toNat + 1, exponent }
  let nearest : Decimal := { digits := (roundEven scaled).toNat, exponent }
  match decide (Binary64.round below.value = x), decide (Binary64.round above.value = x) with
  | true, true => some nearest
  | true, false => some below
  | false, true => some above
  | false, false => none

/-- The coarsest decimal that rounds to the double `x`, among those of `count` digits and more up to
`count + more`. -/
def search (x : Rat) (count : Nat) : (more : Nat) → Decimal
  | 0 => { digits := (roundEven (x / 10 ^ (log10Floor x - count + 1))).toNat,
           exponent := log10Floor x - count + 1 }
  | more + 1 => (onGrid? x (log10Floor x - count + 1)).getD (search x (count + 1) more)

/-- The shortest decimal that rounds to the positive double `x`: seventeen digits always do. -/
def shortest (x : Rat) : Decimal := search x 1 16

/-! ## Laying them out -/

/-- The lowest place of a leading digit that is written positionally. -/
def leastPositional : Int := -5

/-- The highest place of a leading digit that is written positionally. -/
def greatestPositional : Int := 15

/-- Removes trailing zeros of a reversed run of digits, counting them. -/
def stripZeros : List Char → Nat → List Char × Nat
  | '0' :: ds, n => stripZeros ds (n + 1)
  | ds, n => (ds, n)

/-- An exponent with its sign. -/
def exponentText (e : Int) : List Char :=
  'e' :: (if e < 0 then '-' else '+') :: Digits.digits e.natAbs

/-- A decimal as text, always with a point or an exponent. -/
def text (d : Decimal) : List Char :=
  let (reversed, zeros) := stripZeros (Digits.digits d.digits).reverse 0
  let ds := reversed.reverse
  let exponent := d.exponent + zeros
  let place := exponent + ds.length - 1
  if leastPositional ≤ place ∧ place ≤ greatestPositional then
    if 0 ≤ exponent then ds ++ List.replicate exponent.toNat '0' ++ ['.', '0']
    else if 0 ≤ place then ds.take (place.toNat + 1) ++ '.' :: ds.drop (place.toNat + 1)
    else '0' :: '.' :: (List.replicate (place.natAbs - 1) '0' ++ ds)
  else
    match ds with
    | [] => []
    | [c] => c :: exponentText place
    | c :: more => c :: '.' :: (more ++ exponentText place)

end Decimal

/-- The text of a double, given its sign and magnitude. -/
def doubleText (negative : Bool) (magnitude : Rat) : List Char :=
  let body := if magnitude = 0 then ['0', '.', '0'] else (Decimal.shortest magnitude).text
  if negative then '-' :: body else body

end RunRecord
