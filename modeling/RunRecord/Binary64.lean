/-!
# Binary64 — rounding to double precision

`round x` is the multiple of a power of two nearest to `x` that has at most 53 significant bits; a
tie goes to the even one.  The exponent stops at the subnormal spacing, and is not bounded above:
`isFinite` says whether a rounded value still is a double.

Numbers are rationals here, so what is computed with doubles elsewhere is exact arithmetic with
`round` behind each operation.  Neither infinities nor the sign of zero are modelled; where they
could come up, the code that rounds asks `isFinite` or keeps the sign apart.
-/

namespace RunRecord

/-- The integer nearest to `x`; a half goes to the even neighbour. -/
def roundEven (x : Rat) : Int :=
  let below := x.floor
  let twice := 2 * (x - below)
  if 1 < twice ∨ twice = 1 ∧ below % 2 = 1 then below + 1 else below

namespace Binary64

/-- The greatest `e` with `2 ^ e ≤ x`, for positive `x`. -/
def log2Floor (x : Rat) : Int :=
  let e : Int := (x.num.natAbs.log2 : Int) - (x.den.log2 : Int)
  if x < 2 ^ e then e - 1 else e

/-- The exponent of the distance between the doubles around `x`. -/
def spacing (x : Rat) : Int :=
  if x = 0 then -1074
  else
    let magnitude := if x < 0 then -x else x
    max (log2Floor magnitude - 52) (-1074)

/-- The double nearest to `x`; a tie goes to the even significand. -/
def round (x : Rat) : Rat :=
  let unit : Rat := 2 ^ spacing x
  roundEven (x / unit) * unit

/-- Whether a rounded value is below the overflow threshold. -/
def isFinite (x : Rat) : Bool := -(2 ^ (1024 : Int)) < x && x < 2 ^ (1024 : Int)

end Binary64

end RunRecord
