/-!
# Calendar — dates of the proleptic Gregorian calendar and their day numbers

A **day number** counts days from 1970-01-01.  `Date.toDay` and `Date.ofDay` go between the two; the
year 0 is the year before the year 1, and years may be negative.

A date is any year, month and day; whether there is such a day is what `Date.Valid` says.  The
calendar is carried on in both directions without a change of rules, so that a formula for one year
is one for all.
-/

namespace RunRecord

/-- A year, a month from 1 and a day from 1. -/
structure Date where
  year : Int
  month : Nat
  day : Nat
deriving DecidableEq, Repr

namespace Date

/-! ## Lengths of years and months -/

/-- Every fourth year is a leap year, every hundredth is not, every four hundredth is. -/
def isLeap (year : Int) : Bool :=
  year % 4 == 0 && (year % 100 != 0 || year % 400 == 0)

/-- The number of days in a month. -/
def monthLength (leap : Bool) (month : Nat) : Nat :=
  if month = 2 then (if leap then 29 else 28)
  else if month = 4 ∨ month = 6 ∨ month = 9 ∨ month = 11 then 30
  else 31

/-- A date that exists. -/
def Valid (d : Date) : Prop :=
  (1 ≤ d.month ∧ d.month ≤ 12) ∧ 1 ≤ d.day ∧ d.day ≤ monthLength (isLeap d.year) d.month

/-- Whether a date exists is found by comparing it with the length of its month. -/
instance (d : Date) : Decidable d.Valid := by unfold Valid; infer_instance

/-- The days from 0001-01-01 to the first day of a year. -/
def daysBeforeYear (year : Int) : Int :=
  365 * (year - 1) + (year - 1) / 4 - (year - 1) / 100 + (year - 1) / 400

/-- The days from the first of January to the first day of a month. -/
def daysBeforeMonth (leap : Bool) : (month : Nat) → Nat
  | 0 | 1 => 0
  | month + 2 => daysBeforeMonth leap (month + 1) + monthLength leap (month + 1)

/-! ## Day numbers

Day numbers are counted from 1970, and the formulas count from the first of January of the year 1.
The two differ by `epoch`. -/

/-- The days from 0001-01-01 to 1970-01-01. -/
def epoch : Int := 719162

/-- The day number of a date. -/
def toDay (d : Date) : Int :=
  daysBeforeYear d.year + daysBeforeMonth (isLeap d.year) d.month + d.day - 1 - epoch

/-- The year that holds the day `n` days after 0001-01-01: the mean length of a year finds it up to
one. -/
def yearOf (n : Int) : Int :=
  let guess := n * 400 / 146097 + 1
  if n < daysBeforeYear guess then guess - 1
  else if daysBeforeYear (guess + 1) ≤ n then guess + 1
  else guess

/-- The last month, from `month` down, that starts no later than `n` days after the first of
January. -/
def monthOf (leap : Bool) (n : Nat) : (month : Nat) → Nat
  | 0 => 0
  | month + 1 => if daysBeforeMonth leap (month + 1) ≤ n then month + 1 else monthOf leap n month

/-- The date with a given day number. -/
def ofDay (n : Int) : Date :=
  let sinceOne := n + epoch
  let year := yearOf sinceOne
  let inYear := (sinceOne - daysBeforeYear year).toNat
  let month := monthOf (isLeap year) inYear 12
  { year, month, day := inYear - daysBeforeMonth (isLeap year) month + 1 }

end Date

end RunRecord
