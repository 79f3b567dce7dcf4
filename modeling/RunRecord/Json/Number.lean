import RunRecord.Json.Reader

/-!
# Json/Number — reading numbers

A number without fraction and exponent that fits 64 bits is exact; any other is a double.  A double
is computed from the digits that fit 64 bits, scaled by powers of ten that are doubles themselves,
so it need not be the one nearest to the number as written.

The detour is kept as it is, because a message may show the double that was found.  For the one kind
of number in a report, a count, only the first case is of use.
-/

namespace RunRecord.Json

open Reader

/-- A number as it was read. -/
inductive Number where
  /-- A natural number below 2⁶⁴. -/
  | natural (n : Nat)
  /-- The negative of a number from 1 to 2⁶³. -/
  | negative (n : Nat)
  | double (negative : Bool) (magnitude : Rat)

/-- A number as something that was found. -/
def Number.found : Number → Found
  | natural n => .integer n
  | negative n => .integer (-n)
  | double minus magnitude => .double minus magnitude

/-! ## Digits -/

/-- Whether a byte is a decimal digit. -/
def isDigit (b : UInt8) : Bool := 0x30 ≤ b && b ≤ 0x39

/-- The value of a digit. -/
def digitValue (b : UInt8) : Nat := b.toNat - 0x30

/-- The least natural number that does not fit 64 bits, 2⁶⁴. -/
def wordSize : Nat := 18446744073709551616

/-- The greatest number whose negative fits 64 bits, 2⁶³. -/
def greatestNegated : Nat := 9223372036854775808

/-- Appends digits to a number while it stays below 2⁶⁴, and counts the digits left over from the
first that does not fit. -/
def appendDigits (n : Nat) : Bytes → Nat × Nat
  | [] => (n, 0)
  | b :: bs =>
    let m := n * 10 + digitValue b
    if m < wordSize then appendDigits m bs else (n, bs.length + 1)

/-! ## Scaling -/

/-- The double nearest to a power of ten. -/
def powerOfTen (e : Nat) : Rat := Binary64.round (10 ^ e)

/-- A double divided by a power of ten, in steps of at most 10³⁰⁸. -/
def scaleDown (x : Rat) (e : Nat) : Rat :=
  if e ≤ 308 then Binary64.round (x / powerOfTen e)
  else if x = 0 then 0
  else scaleDown (Binary64.round (x / powerOfTen 308)) (e - 308)
termination_by e

/-- A double multiplied by a power of ten, if the product is a double. -/
def scaleUp? (x : Rat) (e : Nat) : Option Rat :=
  if x = 0 then some 0
  else if 308 < e then none
  else
    let y := Binary64.round (x * powerOfTen e)
    if Binary64.isFinite y then some y else none

/-- A number as a double, from its digits and a power of ten. -/
def scaled (negative : Bool) (digits : Nat) (exponent : Int) : Reader Number :=
  let x := Binary64.round digits
  if 0 ≤ exponent then
    match scaleUp? x exponent.toNat with
    | some y => pure (.double negative y)
    | none => fail (.malformed .hugeNumber)
  else pure (.double negative (scaleDown x exponent.natAbs))

/-! ## Exponents -/

/-- The greatest exponent that is counted. -/
def greatestExponent : Nat := 2147483647

/-- The number of leading digits after which an exponent is too great to be counted, if it is. -/
def overflowAt? (digits : Bytes) : Option Nat :=
  (List.range (digits.length + 1)).find? fun k =>
    greatestExponent < (digits.take k).foldl (fun n b => n * 10 + digitValue b) 0

/-- The exponent, from its letter on, of a number whose digits so far stand for
`digits * 10 ^ exponent`. -/
def exponentPart (negative : Bool) (digits : Nat) (exponent : Int) : Reader Number := do
  drop
  let down ← look fun b => pure (b == some 0x2D)
  look fun b => if b = some 0x2B ∨ b = some 0x2D then drop else pure ()
  match ← take with
  | none => fail (.cut .value)
  | some b =>
    if isDigit b then do
      let more ← takeWhile isDigit
      match overflowAt? (b :: more) with
      | none =>
        let e := (more.foldl (fun n b => n * 10 + digitValue b) (digitValue b) : Nat)
        scaled negative digits (if down then exponent - e else exponent + e)
      | some k =>
        if digits ≠ 0 ∧ ¬ down then failBack (more.length + 1 - k) (.malformed .hugeNumber)
        else pure (.double negative 0)
    else fail (.malformed .badNumber)

/-- What may follow the digits: an exponent, or the end of the number. -/
def afterDigits (negative : Bool) (digits : Nat) (exponent : Int) : Reader Number :=
  look fun b =>
    if b = some 0x65 ∨ b = some 0x45 then exponentPart negative digits exponent
    else scaled negative digits exponent

/-! ## The whole -/

/-- The fraction, from its point on. -/
def fractionPart (negative : Bool) (digits : Nat) (exponent : Int) : Reader Number := do
  drop
  let fraction ← takeWhile isDigit
  if fraction = [] then
    look fun b => failAtNext (if b.isNone then .cut .value else .malformed .badNumber)
  else
    let (digits, left) := appendDigits digits fraction
    afterDigits negative digits (exponent - (fraction.length - left : Nat))

/-- A whole number of 64 bits; zero keeps its sign, and what is too small is a double. -/
def integer (negative : Bool) (n : Nat) : Number :=
  if negative then
    if n = 0 ∨ greatestNegated < n then .double true (Binary64.round n) else .negative n
  else .natural n

/-- What follows the integer digits `run`. -/
def afterInteger (negative : Bool) (run : Bytes) : Reader Number :=
  let (digits, left) := appendDigits 0 run
  look fun b =>
    if b = some 0x2E then fractionPart negative digits left
    else if b = some 0x65 ∨ b = some 0x45 then exponentPart negative digits left
    else if left = 0 then pure (integer negative digits)
    else scaled negative digits left

/-- A number, from behind its sign. -/
def numberAfterSign (negative : Bool) : Reader Number := do
  match ← take with
  | none => fail (.cut .value)
  | some b =>
    if b = 0x30 then
      look fun next =>
        if next.any isDigit then failAtNext (.malformed .badNumber)
        else afterInteger negative []
    else if isDigit b then do
      let more ← takeWhile isDigit
      afterInteger negative (b :: more)
    else fail (.malformed .badNumber)

end RunRecord.Json
