import RunRecord.Calendar

/-!
# Instant/Basic — points of universal time

An **instant** is a day number, a second of that day and a fraction in nanoseconds.  The last second
of any minute may be a **leap second**: its fraction then runs up to two seconds.  Instants reach
from the first day of the year -262143 to the last of the year 262142.

The bounds are part of the type, so an instant out of them cannot be built, and nothing that is
proved of instants has to ask for them.  The order is by second and then by fraction, so that a leap
second comes behind the second it belongs to.
-/

namespace RunRecord

/-- The first day an instant can lie on. -/
def firstDay : Int := -96465292

/-- The last day an instant can lie on. -/
def lastDay : Int := 95026236

/-- One thousand million nanoseconds make a second. -/
def nanosPerSecond : Nat := 1000000000

/-- A point of universal time.  The three bounds are fields, so every instant there is lies in the
calendar. -/
structure Instant where
  /-- Days since 1970-01-01. -/
  day : Int
  /-- Seconds since midnight. -/
  second : Nat
  /-- Nanoseconds since the start of the second. -/
  nano : Nat
  day_range : firstDay ≤ day ∧ day ≤ lastDay
  second_lt : second < 86400
  nano_lt : nano < 1000000000 ∨ second % 60 = 59 ∧ nano < 2000000000
deriving DecidableEq

namespace Instant

/-- The instant with the given parts, if there is one.  This is the only way in which an instant is
made from numbers that were read. -/
def ofParts? (day : Int) (second nano : Nat) : Option Instant :=
  if h : (firstDay ≤ day ∧ day ≤ lastDay) ∧ second < 86400 ∧
      (nano < 1000000000 ∨ second % 60 = 59 ∧ nano < 2000000000) then
    some ⟨day, second, nano, h.1, h.2.1, h.2.2⟩
  else none

/-- The instant a number of seconds after the start of 1970, with a fraction. -/
def ofEpoch? (seconds : Int) (nano : Nat) : Option Instant :=
  ofParts? (seconds / 86400) (seconds % 86400).toNat nano

/-- Whole seconds since the start of 1970, rounded down.  A leap second has the number of the second
that it prolongs. -/
def epochSecond (t : Instant) : Int := t.day * 86400 + t.second

/-- Instants are ordered by whole second, then by fraction: a leap second lies before the second
that follows it. -/
protected def lt (a b : Instant) : Prop :=
  a.epochSecond < b.epochSecond ∨ a.epochSecond = b.epochSecond ∧ a.nano < b.nano

/-- An instant is before another on the clock. -/
instance : LT Instant := ⟨Instant.lt⟩

/-- An instant is not after another. -/
instance : LE Instant := ⟨fun a b => ¬ b < a⟩

/-- Which of two instants is before the other is found by comparing seconds and nanoseconds. -/
instance (a b : Instant) : Decidable (a < b) :=
  inferInstanceAs (Decidable (_ ∨ _))

/-- That an instant is not after another is found in the same way. -/
instance (a b : Instant) : Decidable (a ≤ b) :=
  inferInstanceAs (Decidable (¬ _))

theorem lt_def (a b : Instant) :
    a < b ↔ a.epochSecond < b.epochSecond ∨ a.epochSecond = b.epochSecond ∧ a.nano < b.nano :=
  Iff.rfl

theorem le_def (a b : Instant) : a ≤ b ↔ ¬ b < a := Iff.rfl

theorem ofParts?_eq_some_iff {day : Int} {second nano : Nat} {t : Instant} :
    ofParts? day second nano = some t ↔ t.day = day ∧ t.second = second ∧ t.nano = nano := by
  unfold ofParts?
  constructor
  · intro h
    split at h
    · cases h; exact ⟨rfl, rfl, rfl⟩
    · cases h
  · rintro ⟨rfl, rfl, rfl⟩
    exact dif_pos ⟨t.day_range, t.second_lt, t.nano_lt⟩

end Instant

end RunRecord
