import RunRecord.Proofs.Recording.Derived

/-!
# Proofs/Recording/Reload — which recorded suites are read back

As long as the clock does not go back (`Recording.Steady`), all timings of a recording are
consistent, and whether its suite is read back is a matter of the failure count alone.  The count is
written once, at the first close; the reader compares it with all tests.  The two part ways exactly
when a failed test is added after the close, and then the reader refuses the suite.

Whoever writes a report wants to know whether it will be accepted, before it is written.  The answer
is given in terms of the run: no reading of the clock may be earlier than what is recorded already,
and no test that fails may be added after the close.  Neither the names nor the contents of the
nodes matter, nor does the order of the calls beyond that.
-/

namespace RunRecord

/-! ## A clock that does not go back

Only the order of the readings counts.  A clock that stands still is fine, and so is one that jumps
ahead. -/

theorem Instant.le_refl (t : Instant) : t ≤ t := by
  rw [le_def, lt_def]
  omega

theorem Instant.le_trans {a b c : Instant} (hab : a ≤ b) (hbc : b ≤ c) : a ≤ c := by
  rw [le_def, lt_def] at *
  omega

/-- Start and end are not after an instant. -/
def Timing.NotAfter (t : Timing) (now : Instant) : Prop :=
  t.start ≤ now ∧ ∀ stop ∈ t.stop, stop ≤ now

namespace Timing

variable {t : Timing} {now : Instant}

theorem NotAfter.trans {later : Instant} (h : t.NotAfter now) (hle : now ≤ later) :
    t.NotAfter later :=
  ⟨Instant.le_trans h.1 hle, fun stop hstop => Instant.le_trans (h.2 stop hstop) hle⟩

theorem notAfter_begin (now : Instant) : (begin now).NotAfter now :=
  ⟨Instant.le_refl now, fun _ hstop => nomatch hstop⟩

theorem NotAfter.finish (h : t.NotAfter now) : (t.finish now).NotAfter now := by
  rw [Timing.finish]
  split
  · exact h
  · refine ⟨h.1, fun stop hstop => ?_⟩
    obtain rfl := Option.some.inj hstop
    exact Instant.le_refl _

theorem consistent_begin (now : Instant) : (begin now).Consistent := rfl

/-- An end that is written no earlier than the start is consistent. -/
theorem Consistent.finish (h : t.Consistent) (hle : t.start ≤ now) : (t.finish now).Consistent := by
  rw [Timing.finish]
  split
  · exact h
  · exact ⟨hle, rfl⟩

end Timing

namespace Recording

/-- **No reading of the clock in a run is earlier than an instant recorded before it.**  Readings
that are not recorded do not count, so this asks less than that the clock never goes back. -/
def Steady (r : Recording) : List Call → Prop
  | [] => True
  | c :: calls =>
    (c.action.readsClock = true → ∀ t ∈ r.timings, t.NotAfter c.now) ∧ (r.call c).Steady calls

/-- After a call, nothing is recorded that is later than its reading of the clock. -/
theorem notAfter_call {r : Recording} {c : Call} (h : ∀ t ∈ r.timings, t.NotAfter c.now) :
    ∀ t ∈ (r.call c).timings, t.NotAfter c.now := by
  intro t ht
  cases yields_of_mem ht with
  | old hmem => exact h t hmem
  | begun _ => exact Timing.notAfter_begin c.now
  | ended _ hmem => exact (h _ hmem).finish

/-- A run is steady if its readings of the clock never go back. -/
theorem steady_of_isChain {r : Recording} {now : Instant} {calls : List Call}
    (h : ∀ t ∈ r.timings, t.NotAfter now)
    (hcalls : List.IsChain (· ≤ ·) (now :: calls.map Call.now)) : r.Steady calls := by
  induction calls generalizing r now with
  | nil => trivial
  | cons c calls ih =>
    rw [List.map_cons, List.isChain_cons_cons] at hcalls
    have hnow : ∀ t ∈ r.timings, t.NotAfter c.now := fun t ht => (h t ht).trans hcalls.1
    exact ⟨fun _ => hnow, ih (notAfter_call hnow) hcalls.2⟩

/-- A run that starts with a new suite is steady if the clock never goes back. -/
theorem steady_begin {name : String} {now : Instant} {calls : List Call}
    (hcalls : List.IsChain (· ≤ ·) (now :: calls.map Call.now)) :
    (ofSuite (.begin name now)).Steady calls := by
  refine steady_of_isChain (fun t ht => ?_) hcalls
  obtain rfl := List.mem_singleton.1 ht
  exact Timing.notAfter_begin now

/-! ## Timings of a steady run

Consistency of a timing asks for more than a derived time: its end may not come before its start.
This is where the order of the readings comes in. -/

/-- A call of a steady run leaves consistent timings behind. -/
theorem consistent_call {r : Recording} {c : Call} (h : ∀ t ∈ r.timings, t.Consistent)
    (hnow : c.action.readsClock = true → ∀ t ∈ r.timings, t.NotAfter c.now) :
    ∀ t ∈ (r.call c).timings, t.Consistent := by
  intro t ht
  cases yields_of_mem ht with
  | old hmem => exact h t hmem
  | begun _ => exact Timing.consistent_begin c.now
  | ended hreads hmem => exact (h _ hmem).finish (hnow hreads _ hmem).1

/-- **A steady run leaves consistent timings behind.**  By induction on the run, of which every rest
is steady in the state that it starts from. -/
theorem consistent_after {r : Recording} (h : ∀ t ∈ r.timings, t.Consistent) {calls : List Call}
    (hsteady : r.Steady calls) : ∀ t ∈ (r.after calls).timings, t.Consistent := by
  induction calls generalizing r with
  | nil => exact h
  | cons c calls ih => exact ih (consistent_call h hsteady.1) hsteady.2

end Recording

/-! ## The failure count

The count that was written at the close is compared with that of all failed tests.  They differ by
the tests that came after, so it is these that decide. -/

namespace Suite

variable {suite : Suite} {noted : Option Nat}

/-- The tests that were added after the close, given the number of tests there were then. -/
def lateTests (suite : Suite) : Option Nat → List Test
  | none => []
  | some k => suite.tests.drop k

/-- The failure count is the expected one unless a late test has failed. -/
theorem CountsAt.failures_eq_iff (h : suite.CountsAt noted) :
    suite.failures = suite.expectedFailures ↔
      (suite.lateTests noted).any Test.isFailed = false := by
  rw [expectedFailures]
  cases noted with
  | none =>
    rw [h.1, if_neg Bool.false_ne_true, h.2]
    simp [lateTests]
  | some k =>
    obtain ⟨hclosed, -, hfailures⟩ := h
    have hsplit : suite.failedCount
        = suite.failures + (suite.lateTests (some k)).countP Test.isFailed := by
      rw [failedCount, hfailures, lateTests, ← List.countP_append, List.take_append_drop]
    rw [if_pos hclosed, hsplit, Nat.left_eq_add, List.countP_eq_zero, List.any_eq_false]

/-- A suite whose timings are consistent is refused, if at all, for its failure count, as this is
the only check that is left. -/
theorem firstBreach_count (h : ∀ t ∈ suite.timings, t.Consistent)
    (hcount : suite.failures ≠ suite.expectedFailures) :
    suite.FirstBreach (.wrongFailures suite.name suite.failures suite.expectedFailures) := by
  refine ⟨[.timing .suite suite.name suite.timing], .count suite, _, rfl, fun c hc => ?_,
    .wrongFailures hcount⟩
  obtain rfl := List.mem_singleton.1 hc
  exact h _ List.mem_cons_self

/-- **Reading back a suite with consistent timings** fails exactly if a late test has failed.  The
bound on the count is that of counts in a document. -/
theorem read_encode_of_timings (h : ∀ t ∈ suite.timings, t.Consistent)
    (hcounts : suite.CountsAt noted) (hword : suite.failures < Json.wordSize) :
    Suite.read (suite.encode .json)
      = if (suite.lateTests noted).any Test.isFailed then
          .error (.inconsistent (.wrongFailures suite.name suite.failures suite.failedCount))
        else .ok suite := by
  by_cases hlate : (suite.lateTests noted).any Test.isFailed = true
  · have hcount : suite.failures ≠ suite.expectedFailures := fun heq => by
      rw [hcounts.failures_eq_iff.1 heq] at hlate
      cases hlate
    have hexpected : suite.expectedFailures = suite.failedCount := by
      cases noted with
      | none => cases hlate
      | some k => rw [expectedFailures, if_pos hcounts.1]
    have hbreach := firstBreach_count h hcount
    rw [hexpected] at hbreach
    rw [if_pos hlate, read_encode_error hword (firstViolation?_eq_some_iff.2 hbreach)]
  · have hcount := hcounts.failures_eq_iff.2 (Bool.eq_false_of_not_eq_true hlate)
    have hconsistent := consistent_iff_timings.2 ⟨hcount, h⟩
    rw [if_neg hlate, read_encode_ok hword (firstViolation?_eq_none_iff.2 hconsistent)]

end Suite

/-! ## Reading back what was recorded -/

/-- **What a steady run records is read back, unless a failed test was added after the close.**  In
that case it is refused for its failure count, which leaves the late failures out. -/
theorem read_recorded_suite {start : Suite} (h : start.Initial) {calls : List Call}
    (hsteady : (Recording.ofSuite start).Steady calls) :
    ∃ suite, ((Recording.ofSuite start).after calls).suite = some suite ∧
      (suite.failures < Json.wordSize →
        Suite.read (suite.encode .json)
          = if (suite.lateTests (Recording.closedWith start calls)).any Test.isFailed then
              .error (.inconsistent (.wrongFailures suite.name suite.failures suite.failedCount))
            else .ok suite) := by
  obtain ⟨suite, hsuite⟩ := Recording.exists_suite_after (r := .ofSuite start) ⟨start, rfl⟩ calls
  refine ⟨suite, hsuite, fun hword => Suite.read_encode_of_timings (fun t ht => ?_)
    (Recording.countsAt_closedWith h calls suite hsuite) hword⟩
  exact Recording.consistent_after h.timings hsteady t (Recording.suite_timings_subset hsuite ht)

/-- A run in which a failed test is added before the close and a passed one after it. -/
def countedRun : List Call :=
  List.map (Call.mk firstInstant)
    [.beginTest "t" "t" false "" false false,
      .attachFailure "t" { message := "boom", kind := "Error" }, .addTest "t",
      .beginTest "t" "t" false "" false false, .close, .addTest "t"]

/-- The suite after the counted run. -/
def countedSuite : Suite :=
  let test := Test.begin "t" false "" false false firstInstant
  let failed := test.attachFailure { message := "boom", kind := "Error" }
  (((Suite.begin "s" firstInstant).addTest failed).close firstInstant).addTest test

/-- The suite of the counted run is read back. -/
theorem countedSuite_read_back :
    ((Recording.ofSuite (.begin "s" firstInstant)).after countedRun).suite = some countedSuite ∧
      countedSuite.failures = 1 ∧
      Suite.read (countedSuite.encode .json) = .ok countedSuite := by
  have hsteady : (Recording.ofSuite (.begin "s" firstInstant)).Steady countedRun :=
    Recording.steady_begin (by decide)
  obtain ⟨suite, hsuite, hread⟩ := read_recorded_suite (.fresh "s" firstInstant) hsteady
  obtain rfl : countedSuite = suite := Option.some.inj hsuite
  exact ⟨rfl, rfl, hread (by decide)⟩

/-- **Not everything that is recorded is read back**: the reader refuses the suite of the late
run. -/
theorem not_all_read_back :
    ¬ ∀ (start : Suite) (calls : List Call) (suite : Suite), start.Initial →
      (Recording.ofSuite start).Steady calls →
      ((Recording.ofSuite start).after calls).suite = some suite →
      suite.failures < Json.wordSize → Suite.read (suite.encode .json) = .ok suite := by
  intro hall
  have hread := hall (.begin "s" firstInstant) lateRun lateSuite (.fresh _ _)
    (Recording.steady_begin (by decide)) rfl (by decide)
  rw [Suite.read_eq_ok_iff] at hread
  have hcount : 0 = 1 := hread.2.2.1
  cases hcount

end RunRecord
