import RunRecord.Instant.Basic
import RunRecord.Text.Blank
import RunRecord.Text.Digits

/-!
# Instant/Reader — reading an instant from text

A date, a separator, a time of day and an offset from universal time.  Blanks may stand around every
number and mark, digits of a fraction beyond the ninth are dropped, and the offset may be `Z`, `UTC`
or hours and minutes.  Numbers are checked as they are read, the date as a whole only once the text
has ended.

The reader takes more than the printer writes, since documents come from others as well.  What it
does not take it refuses with a reason, which becomes part of the message about the document.
-/

namespace RunRecord

open Digits

/-- Why a text is no instant. -/
inductive DateFault where
  | premature
  | malformed
  | outOfRange
  | impossible
  | trailing
deriving DecidableEq, Repr

/-- The wording of a fault. -/
def DateFault.message : DateFault → String
  | .premature => "premature end of input"
  | .malformed => "input contains invalid characters"
  | .outOfRange => "input is out of range"
  | .impossible => "no possible date and time matching input"
  | .trailing => "trailing input"

namespace Instant

/-- A step that reads from the front of a text. -/
abbrev Scan (α : Type) := List Char → Except DateFault (α × List Char)

/-! ## Numbers and marks

A scan takes something off the front of a text and hands back the rest, or says what is wrong.  It
stops at the first character that does not belong to what it scans. -/

/-- The least number that is too great to be read, 2⁶³. -/
def tooGreat : Nat := 9223372036854775808

/-- A run of one to `width` digits. -/
def scanDigits (width : Nat) : Scan Nat := fun cs =>
  let run := (cs.take width).takeWhile isDigit
  match cs, run with
  | [], _ => .error .premature
  | _ :: _, [] => .error .malformed
  | _, _ => if value run < tooGreat then .ok (value run, cs.drop run.length) else .error .outOfRange

/-- A number of at most two digits within bounds, after blanks. -/
def scanNumber (least greatest : Nat) : Scan Nat := fun cs => do
  let (n, r) ← scanDigits 2 (dropBlanks cs)
  if least ≤ n ∧ n ≤ greatest then .ok (n, r) else .error .outOfRange

/-- A given mark, after blanks. -/
def scanMark (mark : Char) : Scan Unit := fun cs =>
  match dropBlanks cs with
  | [] => .error .premature
  | c :: r => if c = mark then .ok ((), r) else .error .malformed

/-- A year in up to four digits, or in any number of digits after a sign, after blanks.  It has to
fit in 32 bits. -/
def scanYear : Scan Int := fun cs => do
  let cs := dropBlanks cs
  let (year, r) ← match cs with
    | '-' :: r => (scanDigits r.length r).map fun p => (-(p.1 : Int), p.2)
    | '+' :: r => (scanDigits r.length r).map fun p => ((p.1 : Int), p.2)
    | _ => (scanDigits 4 cs).map fun p => ((p.1 : Int), p.2)
  if -2147483648 ≤ year ∧ year ≤ 2147483647 then .ok (year, r) else .error .outOfRange

/-! ## The parts of an instant -/

/-- Year, month and day, not yet checked against the calendar. -/
def scanDate : Scan Date := fun cs => do
  let (year, r) ← scanYear cs
  let (_, r) ← scanMark '-' r
  let (month, r) ← scanNumber 1 12 r
  let (_, r) ← scanMark '-' r
  let (day, r) ← scanNumber 1 31 r
  .ok ({ year, month, day }, r)

/-- The letter `T` or a single space between date and time. -/
def scanSeparator : Scan Unit
  | [] => .error .premature
  | c :: r => if c = 'T' ∨ c = 't' ∨ c = ' ' then .ok ((), r) else .error .malformed

/-- Nanoseconds after a point that follows the seconds at once; none if there is no point. -/
def scanFraction : Scan Nat
  | '.' :: cs => do
    let (_, r) ← scanDigits 9 cs
    let run := (cs.take 9).takeWhile isDigit
    .ok (value (run ++ List.replicate (9 - run.length) '0'), r.dropWhile isDigit)
  | cs => .ok (0, cs)

/-- A time of day: the second since midnight, and the fraction, which is a second longer where the
text says second 60. -/
def scanTime : Scan (Nat × Nat) := fun cs => do
  let (hour, r) ← scanNumber 0 23 cs
  let (_, r) ← scanMark ':' r
  let (minute, r) ← scanNumber 0 59 r
  let (_, r) ← scanMark ':' r
  let (second, r) ← scanNumber 0 60 r
  let (nano, r) ← scanFraction r
  let minutes := hour * 60 + minute
  .ok (if second = 60 then (minutes * 60 + 59, nano + nanosPerSecond)
    else (minutes * 60 + second, nano), r)

/-- Two digits of an offset; a lone ASCII character ends the text too early. -/
def scanPair : Scan (Char × Char)
  | [] => .error .premature
  | [c] => if c.toNat < 0x80 then .error .premature else .error .malformed
  | a :: b :: r => if isDigit a && isDigit b then .ok ((a, b), r) else .error .malformed

/-- Hours and minutes after the sign of an offset, in minutes, with any run of colons and blanks
between them. -/
def scanHoursMinutes : Scan Nat := fun cs => do
  let (hours, r) ← scanPair cs
  let (minutes, r) ← scanPair (r.dropWhile fun c => c = ':' || isBlank c)
  if minutes.1.toNat < '6'.toNat then
    .ok (value [hours.1, hours.2] * 60 + value [minutes.1, minutes.2], r)
  else .error .outOfRange

/-- An offset from universal time in minutes, after blanks. -/
def scanOffset : Scan Int := fun cs =>
  let cs := dropBlanks cs
  if (cs.take 3).map Char.toUpper = ['U', 'T', 'C'] then .ok (0, cs.drop 3)
  else
    match cs with
    | [] => .error .premature
    | c :: r =>
      if c = 'Z' ∨ c = 'z' then .ok (0, r)
      else if c = '+' then (scanHoursMinutes r).map fun p => ((p.1 : Int), p.2)
      else if c = '-' ∨ c = '\u2212' then (scanHoursMinutes r).map fun p => (-(p.1 : Int), p.2)
      else .error .malformed

/-! ## The whole

Only here are the parts looked at together: the day must exist, and the instant must still be one
after the offset is taken off. -/

/-- Moves a local date and time to universal time, if the calendar has it. -/
def ofLocal (date : Date) (second nano : Nat) (offset : Int) : Except DateFault Instant :=
  if ¬ date.Valid ∨ date.toDay < firstDay ∨ lastDay < date.toDay ∨ 1440 ≤ offset.natAbs then
    .error .outOfRange
  else
    let shifted : Int := second - offset * 60
    match ofParts? (date.toDay + shifted / 86400) (shifted % 86400).toNat nano with
    | some t => .ok t
    | none => .error .impossible

/-- Reads an instant from the whole of a text. -/
def read (cs : List Char) : Except DateFault Instant := do
  let (date, r) ← scanDate cs
  let (_, r) ← scanSeparator r
  let ((second, nano), r) ← scanTime r
  let (offset, r) ← scanOffset r
  if dropBlanks r = [] then ofLocal date second nano offset else .error .trailing

end Instant

end RunRecord
