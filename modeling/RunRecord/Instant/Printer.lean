import RunRecord.Instant.Basic
import RunRecord.Text.Digits

/-!
# Instant/Printer — an instant as text

The date, `T`, the time of day, a fraction of none, three, six or nine digits, whichever is the
first to be exact, and `Z`.  Years outside 0 to 9999 carry a sign; a leap second is second 60.

An instant has one text and not several, always in universal time, so that texts may be compared
where instants are.  Four digits of a year are the least; longer years are written out.
-/

namespace RunRecord

open Digits

/-- A year in at least four digits, with a sign if it has more or lies before the year 0. -/
def yearText (year : Int) : List Char :=
  if year < 0 then '-' :: padded 4 year.natAbs
  else if year ≤ 9999 then padded 4 year.natAbs
  else '+' :: padded 4 year.natAbs

/-- A date as year, month and day. -/
def Date.text (d : Date) : List Char :=
  yearText d.year ++ '-' :: fixed 2 d.month ++ '-' :: fixed 2 d.day

/-- A fraction of a second, given in nanoseconds, in the fewest groups of three digits. -/
def fractionText (nano : Nat) : List Char :=
  if nano = 0 then []
  else if nano % 1000000 = 0 then '.' :: fixed 3 (nano / 1000000)
  else if nano % 1000 = 0 then '.' :: fixed 6 (nano / 1000)
  else '.' :: fixed 9 nano

namespace Instant

/-- The second within its minute as a clock shows it: 60 during a leap second. -/
def shownSecond (t : Instant) : Nat :=
  if t.nano < nanosPerSecond then t.second % 60 else 60

/-- The time of day as a clock shows it. -/
def clockText (t : Instant) : List Char :=
  fixed 2 (t.second / 3600) ++ ':' :: fixed 2 (t.second / 60 % 60) ++ ':' :: fixed 2 t.shownSecond

/-- The time of day, with its fraction. -/
def timeText (t : Instant) : List Char :=
  t.clockText ++ fractionText (t.nano % nanosPerSecond)

/-- The text of an instant, in universal time. -/
def text (t : Instant) : List Char :=
  (Date.ofDay t.day).text ++ 'T' :: t.timeText ++ ['Z']

/-- The text of an instant as a string. -/
def toText (t : Instant) : String := String.ofList t.text

/-- The text of an instant to the microsecond, as it stands in front of log lines. -/
def stampText (t : Instant) : String :=
  String.ofList ((Date.ofDay t.day).text ++ 'T' :: t.clockText ++
    '.' :: fixed 6 (t.nano % nanosPerSecond / 1000) ++ ['Z'])

end Instant

end RunRecord
