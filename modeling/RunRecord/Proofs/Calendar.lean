import RunRecord.Calendar

/-!
# Proofs/Calendar — day numbers and dates undo each other

`yearOf` guesses a year from the mean length of one and corrects the guess by at most one; the
bounds `daysBeforeYear y ≤ n < daysBeforeYear (y + 1)` pin the year, and the same bounds one level
down pin the month.  Hence `ofDay` gives a date that exists (`valid_ofDay`) and whose day number is
the one it came from (`toDay_ofDay`).

Years before the first are years like any other, with the same rule for leap years.  So the same
formulas hold for day numbers of either sign, and the statements have no bounds; that instants end
somewhere is not a matter of the calendar.
-/

namespace RunRecord

namespace Date

/-! ## Years

The rule of leap years repeats after 400 years.  The guess is good for all years because the mean
length is exact over this time, and within it the guess is off by one year at most. -/

/-- The length of a year, in the terms of the leap rule. -/
theorem daysBeforeYear_succ (year : Int) :
    daysBeforeYear (year + 1) = daysBeforeYear year + if isLeap year then 366 else 365 := by
  have hleap : isLeap year = true ↔ year % 4 = 0 ∧ (year % 100 ≠ 0 ∨ year % 400 = 0) := by
    simp [isLeap]
  unfold daysBeforeYear
  split
  · next h =>
    have := hleap.1 h
    omega
  · next h =>
    have := mt hleap.2 h
    omega

/-- **The year of a day starts no later than the day.** -/
theorem daysBeforeYear_yearOf_le (n : Int) : daysBeforeYear (yearOf n) ≤ n := by
  unfold yearOf
  simp only
  split
  · unfold daysBeforeYear
    omega
  · split
    · assumption
    · omega

/-- **And the next year starts later than the day.** -/
theorem lt_daysBeforeYear_yearOf_succ (n : Int) : n < daysBeforeYear (yearOf n + 1) := by
  unfold yearOf
  simp only
  split
  · simpa using by assumption
  · split
    · unfold daysBeforeYear
      omega
    · omega

/-! ## Months

Months are found by going backwards from the last.  The bound on the day of the year is what makes
the search end in a month that begins no later. -/

theorem daysBeforeMonth_succ {leap : Bool} {month : Nat} (h : 1 ≤ month) :
    daysBeforeMonth leap (month + 1) = daysBeforeMonth leap month + monthLength leap month := by
  obtain ⟨m, rfl⟩ := Nat.exists_eq_add_of_le' h
  rfl

/-- The days before the thirteenth month are all the days of a year. -/
theorem daysBeforeMonth_thirteen (leap : Bool) :
    daysBeforeMonth leap 13 = if leap then 366 else 365 := by
  cases leap <;> rfl

/-- **The month of a day of the year** is the one whose bounds hold the day.  The search goes from a
month backwards, and since the first month starts the year it ends in one. -/
theorem monthOf_bounds {leap : Bool} {n month : Nat} (hm : 1 ≤ month)
    (h : n < daysBeforeMonth leap (month + 1)) :
    (1 ≤ monthOf leap n month ∧ monthOf leap n month ≤ month) ∧
      daysBeforeMonth leap (monthOf leap n month) ≤ n ∧
      n < daysBeforeMonth leap (monthOf leap n month + 1) := by
  induction month with
  | zero => omega
  | succ month ih =>
    rw [monthOf]
    split
    · next hle => exact ⟨⟨hm, Nat.le_refl _⟩, hle, h⟩
    · next hle =>
      have hpos : 1 ≤ month := by
        rcases Nat.eq_zero_or_pos month with rfl | hpos
        · exact absurd (Nat.zero_le n) hle
        · exact hpos
      obtain ⟨⟨h1, h2⟩, h3⟩ := ih hpos (by omega)
      exact ⟨⟨h1, by omega⟩, h3⟩

/-! ## Dates -/

/-- The day of the year of a day number is no negative number, and less than the length of that
year. -/
theorem dayOfYear_bounds (n : Int) :
    0 ≤ n - daysBeforeYear (yearOf n) ∧
      (n - daysBeforeYear (yearOf n)).toNat
        < daysBeforeMonth (isLeap (yearOf n)) 13 := by
  have hle := daysBeforeYear_yearOf_le n
  have hlt := lt_daysBeforeYear_yearOf_succ n
  rw [daysBeforeYear_succ] at hlt
  rw [daysBeforeMonth_thirteen]
  refine ⟨by omega, ?_⟩
  split at hlt
  · next h => rw [if_pos h]; omega
  · next h => rw [if_neg h]; omega

/-- **The date of a day has that day's number.**  So two days have two dates. -/
@[simp] theorem toDay_ofDay (n : Int) : (ofDay n).toDay = n := by
  obtain ⟨hnonneg, hlt⟩ := dayOfYear_bounds (n + epoch)
  obtain ⟨-, hle, -⟩ := monthOf_bounds (by decide) hlt
  simp only [toDay, ofDay]
  omega

/-- **The date of a day exists.**  Its month is one of twelve, and its day one of those in the
month. -/
theorem valid_ofDay (n : Int) : (ofDay n).Valid := by
  obtain ⟨-, hlt⟩ := dayOfYear_bounds (n + epoch)
  obtain ⟨⟨h1, h12⟩, hle, hnext⟩ := monthOf_bounds (by decide) hlt
  rw [daysBeforeMonth_succ h1] at hnext
  exact ⟨⟨h1, h12⟩, by simp only [ofDay]; omega, by simp only [ofDay]; omega⟩

/-- The year of a day number is bounded by the day numbers of years. -/
theorem year_ofDay_bounds {least greatest n : Int} (h1 : daysBeforeYear least ≤ n + epoch)
    (h2 : n + epoch < daysBeforeYear (greatest + 1)) :
    least ≤ (ofDay n).year ∧ (ofDay n).year ≤ greatest := by
  have hle := daysBeforeYear_yearOf_le (n + epoch)
  have hlt := lt_daysBeforeYear_yearOf_succ (n + epoch)
  change least ≤ yearOf (n + epoch) ∧ yearOf (n + epoch) ≤ greatest
  unfold daysBeforeYear at h1 h2 hle hlt
  omega

end Date

end RunRecord
