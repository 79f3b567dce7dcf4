import RunRecord.Proofs.Elapsed.Rounding
import RunRecord.Proofs.Recording.Derived

/-!
# Proofs/Elapsed/Sign — when an elapsed time is shown as negative

Instants are ordered by second and fraction; a span is a difference of clocks with a correction for
leap seconds.  The two agree on which of two instants comes first, with one exception.  The
correction compares times of day, so it **misses the leap second that ends a day** where the other
instant lies on the next day: what is left of that second and what has passed of the next come to
less than the second that is missing.

A report whose end is no earlier than its start can thus show a negative time, and it is accepted
with it: the check of a report compares instants with instants and the time with what is computed,
but never the two with each other.
-/

namespace RunRecord

namespace Instant

/-- **A span that loses more than it has**: it starts in the leap second that ends a day and stops
in the first second of the next, after a smaller fraction of it. -/
def LosesLeapSecond (start stop : Instant) : Prop :=
  start.second = 86399 ∧ stop.day = start.day + 1 ∧ stop.second = 0 ∧
    stop.nano + 1000000000 < start.nano

/-- Whether a leap second is lost is told by the days, seconds and nanoseconds of both instants. -/
instance (start stop : Instant) : Decidable (start.LosesLeapSecond stop) :=
  inferInstanceAs (Decidable (_ ∧ _))

/-- **A span that does not run backwards is negative only for a lost leap second.**  The three cases
of the correction are gone through, and only the one without a correction leaves room for a negative
span. -/
theorem span_neg_iff {start stop : Instant} (h : start ≤ stop) :
    start.span stop < 0 ↔ start.LosesLeapSecond stop := by
  have hstart := start.second_lt
  have hstop := stop.second_lt
  have hstart_nano := start.nano_lt
  have hstop_nano := stop.nano_lt
  rw [le_def, lt_def, epochSecond, epochSecond] at h
  unfold span nanoOfDay leapCorrection LosesLeapSecond
  split
  · omega
  split <;> omega

end Instant

/-- The sign of an elapsed time is that of the span. -/
theorem head?_elapsed (start stop : Instant) :
    (elapsed start stop).toList.head? = some '-' ↔ start.span stop < 0 := by
  rw [elapsed, String.toList_ofList, (Elapsed.decimals _).head?_eq_minus_iff, Elapsed.decimals,
    decide_eq_true_iff]

/-- So the text begins with a minus sign for a lost leap second only. -/
theorem Instant.head?_elapsed_of_le {start stop : Instant} (h : start ≤ stop) :
    (elapsed start stop).toList.head? = some '-' ↔ start.LosesLeapSecond stop := by
  rw [head?_elapsed, span_neg_iff h]

/-- A consistent timing shows a negative time only for a lost leap second. -/
theorem Timing.Consistent.head?_time {t : Timing} (h : t.Consistent) :
    t.time.toList.head? = some '-' ↔
      ∃ stop, t.stop = some stop ∧ t.start.LosesLeapSecond stop := by
  obtain ⟨start, stop, time⟩ := t
  cases stop with
  | none =>
    have htime : time = "" := h
    simp [htime]
  | some stop =>
    obtain ⟨hle, htime⟩ : start ≤ stop ∧ time = elapsed start stop := h
    simp [htime, Instant.head?_elapsed_of_le hle]

/-- **An elapsed time is negative for a lost leap second and for nothing else**, as long as the end
is no earlier than the start; so it is in every report that is accepted. -/
theorem negative_iff_losesLeapSecond (start stop : Instant) (document : Bytes) (suite : Suite) :
    (start ≤ stop →
      ((elapsed start stop).toList.head? = some '-' ↔ start.LosesLeapSecond stop)) ∧
    (Suite.read document = .ok suite → ∀ t ∈ suite.timings,
      (t.time.toList.head? = some '-' ↔
        ∃ stop, t.stop = some stop ∧ t.start.LosesLeapSecond stop)) := by
  refine ⟨fun h => Instant.head?_elapsed_of_le h, fun hread t ht => ?_⟩
  have hconsistent := (Suite.read_eq_ok_iff.1 hread).2
  exact ((Suite.consistent_iff_timings.1 hconsistent).2 t ht).head?_time

/-- Half way through the leap second at the end of 2016. -/
def leapEnd : Instant := (Instant.ofEpoch? 1483228799 1500000000).get rfl

/-- A fifth of a second into 2017. -/
def newYear : Instant := (Instant.ofEpoch? 1483228800 200000000).get rfl

/-- A suite that ends seven tenths of a second after its start, at new year. -/
def newYearSuite : Suite :=
  { name := "s",
    timing := { start := leapEnd, stop := some newYear, time := elapsed leapEnd newYear },
    tests := [], failures := 0 }

theorem newYearSuite_read : Suite.read (newYearSuite.encode .json) = .ok newYearSuite := by
  refine Suite.read_encode_ok (by decide) (Suite.firstViolation?_eq_none_iff.2 ⟨⟨?_, rfl⟩, rfl, ?_⟩)
  · decide
  · exact fun _ h => nomatch h

/-- The suite that ends at new year is accepted with a negative time, since it loses a leap
second. -/
theorem newYearSuite_is_negative :
    leapEnd ≤ newYear ∧ leapEnd.LosesLeapSecond newYear ∧
      (elapsed leapEnd newYear).toList.head? = some '-' ∧
      Suite.read (newYearSuite.encode .json) = .ok newYearSuite ∧
      newYearSuite.timing.time.toList.head? = some '-' := by
  have hlost : leapEnd.LosesLeapSecond newYear := by decide
  obtain ⟨helapsed, hreport⟩ :=
    negative_iff_losesLeapSecond leapEnd newYear (newYearSuite.encode .json) newYearSuite
  refine ⟨by decide, hlost, (helapsed (by decide)).2 hlost, newYearSuite_read, ?_⟩
  exact (hreport newYearSuite_read _ List.mem_cons_self).2 ⟨newYear, rfl, hlost⟩

/-- **Not every span that runs forwards is shown as one**, nor in every report that is accepted. -/
theorem not_all_nonnegative :
    (¬ ∀ start stop : Instant, start ≤ stop → (elapsed start stop).toList.head? ≠ some '-') ∧
    ¬ ∀ (document : Bytes) (suite : Suite), Suite.read document = .ok suite →
      ∀ t ∈ suite.timings, t.time.toList.head? ≠ some '-' := by
  have helapsed : (elapsed leapEnd newYear).toList.head? = some '-' :=
    (head?_elapsed _ _).2 (by decide)
  exact ⟨fun h => h leapEnd newYear (by decide) helapsed,
    fun h => h _ _ newYearSuite_read _ List.mem_cons_self helapsed⟩

end RunRecord
