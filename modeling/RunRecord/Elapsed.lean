import RunRecord.Binary64
import RunRecord.Instant.Basic
import RunRecord.Text.Digits

/-!
# Elapsed — the time between two instants, in seconds with three decimals

The **span** between two instants is a whole number of nanoseconds.  Its text is computed in double
precision: whole seconds and the remaining nanoseconds are added as doubles, and the sum is rounded
to thousandths, a half going to the even one.  A negative span keeps its sign even where it rounds
to zero.

All instants are within 2 ^ 53 seconds of each other, so the whole seconds of a span are exact in
double precision, and only the rest and the sum are rounded.  That the sum of two doubles is shown,
and not the span, can be seen in the last digit of long spans.
-/

namespace RunRecord

namespace Instant

/-- The time of day counted in nanoseconds, a leap second taken as a long second 59. -/
def nanoOfDay (t : Instant) : Int := t.second * 1000000000 + t.nano

/-- The leap second that lies between two times of day but not in the difference of their clocks:
one is gained after a leap second that holds the start, and lost before one that holds the end.
Only the seconds of the day are compared, so a leap second that ends a day is missed if the other
instant lies on the next. -/
def leapCorrection (start stop : Instant) : Int :=
  if start.second < stop.second ∧ 1000000000 ≤ start.nano then 1000000000
  else if stop.second < start.second ∧ 1000000000 ≤ stop.nano then -1000000000
  else 0

/-- The nanoseconds from one instant to another.  It is exact, and negative if the clock went back.
-/
def span (start stop : Instant) : Int :=
  (stop.day - start.day) * 86400000000000 + (stop.nanoOfDay - start.nanoOfDay) +
    leapCorrection start stop

end Instant

namespace Elapsed

open Digits

/-- A number of nanoseconds as seconds in double precision: whole seconds and the rest are rounded
each, and so is their sum. -/
def seconds (nanos : Nat) : Rat :=
  let whole := Binary64.round (nanos / 1000000000 : Nat)
  let rest := Binary64.round ((nanos % 1000000000 : Nat) / 1000000000)
  Binary64.round (whole + rest)

/-- Those seconds to the nearest thousandth.  A half goes to the even one, whatever it was before it
became a double. -/
def thousandths (nanos : Nat) : Nat := (roundEven (seconds nanos * 1000)).toNat

/-- A number of thousandths as a decimal fraction. -/
def decimal (n : Nat) : List Char := digits (n / 1000) ++ '.' :: fixed 3 n

/-- The text of a span of nanoseconds.  The sign is that of the span itself, so a span of less than
half a thousandth may show as `-0.000`. -/
def text (nanos : Int) : List Char :=
  let body := decimal (thousandths nanos.natAbs)
  if nanos < 0 then '-' :: body else body

end Elapsed

/-- The time from one instant to another as a report shows it.  There is one such text for any two
instants, in either order. -/
def elapsed (start stop : Instant) : String := String.ofList (Elapsed.text (start.span stop))

end RunRecord
