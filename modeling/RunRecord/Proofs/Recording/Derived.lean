import RunRecord.Proofs.Recording.Run
import RunRecord.Proofs.Report.Acceptance

/-!
# Proofs/Recording/Derived — what stays true of times and counts during a run

Times and the failure count are written by the recorder and never changed otherwise, so they can be
worked out from the rest in every state of every run.  Of the two the count is the harder one: it
says nothing about tests that are added after the suite was closed, so its invariant has to remember
how many tests there were at that moment (`Recording.closedWith`).

A run may start from a suite that was read as well as from a new one, so nothing is assumed of it
that reading does not check.  The clock may show anything, and may go back; then an end is written
before its start, and the time derived from the two is a negative one.  Whether such a report is
accepted again is another question, which is left to `Proofs/Recording/Reload`.
-/

namespace RunRecord

/-! ## Where a run starts -/

/-- A suite that a run can start from: one that has just begun, or one that was read. -/
inductive Suite.Initial : Suite → Prop
  | fresh (name : String) (now : Instant) : Initial (.begin name now)
  | loaded {document : Bytes} {suite : Suite} : Suite.read document = .ok suite → Initial suite

/-- A recording of a suite, with no nodes beside it. -/
def Recording.ofSuite (suite : Suite) : Recording := { suite := some suite, held := [] }

theorem Suite.Initial.consistent {suite : Suite} (h : suite.Initial) : suite.Consistent := by
  cases h with
  | fresh name now => exact ⟨rfl, rfl, fun _ htest => nomatch htest⟩
  | loaded hread => exact (Suite.read_eq_ok_iff.1 hread).2

/-- A suite is consistent if its failure count and all its timings are. -/
theorem Suite.consistent_iff_timings {suite : Suite} :
    suite.Consistent ↔
      suite.failures = suite.expectedFailures ∧ ∀ t ∈ suite.timings, t.Consistent := by
  have htest : ∀ test : Test, test.Consistent ↔ ∀ t ∈ test.timings, t.Consistent := fun test => by
    simp only [Test.Consistent, Test.operations, Test.timings, Step.timings,
      List.forall_mem_cons, List.forall_mem_flatMap, List.forall_mem_map]
  simp only [Consistent, timings, List.forall_mem_cons, List.forall_mem_flatMap, htest]
  exact and_left_comm

theorem Recording.timings_ofSuite (suite : Suite) : (ofSuite suite).timings = suite.timings := by
  simp [ofSuite, timings]

/-- At the start of a run all timings are consistent. -/
theorem Suite.Initial.timings {suite : Suite} (h : suite.Initial) :
    ∀ t ∈ (Recording.ofSuite suite).timings, t.Consistent := by
  rw [Recording.timings_ofSuite]
  exact (Suite.consistent_iff_timings.1 h.consistent).2

/-! ## Times

Times need no memory: the end and the time of a timing are written at once, from the start that is
there. -/

/-- The time is that between start and end, and empty without an end.  Unlike consistency this does
not ask which of the two comes first. -/
def Timing.Derived (t : Timing) : Prop :=
  match t.stop with
  | none => t.time = ""
  | some stop => t.time = elapsed t.start stop

namespace Timing

variable {t : Timing}

theorem derived_of_consistent (h : t.Consistent) : t.Derived := by
  unfold Consistent at h
  unfold Derived
  cases hstop : t.stop with
  | none => simpa only [hstop] using h
  | some stop =>
    simp only [hstop] at h
    exact h.2

theorem derived_begin (now : Instant) : (begin now).Derived := rfl

theorem derived_finish (h : t.Derived) (now : Instant) : (t.finish now).Derived := by
  rw [finish]
  split
  · exact h
  · rfl

end Timing

namespace Recording

/-- A call leaves derived times behind.  Every timing after it was there before, has been begun or
has been ended, and each of these is derived. -/
theorem derived_call {r : Recording} (h : ∀ t ∈ r.timings, t.Derived) (c : Call) :
    ∀ t ∈ (r.call c).timings, t.Derived := by
  intro t ht
  cases yields_of_mem ht with
  | old hmem => exact h t hmem
  | begun _ => exact Timing.derived_begin c.now
  | ended _ hmem => exact Timing.derived_finish (h _ hmem) c.now

theorem derived_after {r : Recording} (h : ∀ t ∈ r.timings, t.Derived) (calls : List Call) :
    ∀ t ∈ (r.after calls).timings, t.Derived := by
  induction calls generalizing r with
  | nil => exact h
  | cons c calls ih => exact ih (derived_call h c)

end Recording

/-! ## Counts

The count is that of the failed tests at the first close, and later tests are not in it.  What has
to be remembered is only how many tests there were, since tests are never taken away. -/

namespace Suite

variable {suite : Suite} {noted : Option Nat}

/-- What to remember of a suite, given what was remembered before: while it is open, nothing; once
it is closed, the number of tests it had when it was first seen closed. -/
def note (suite : Suite) (noted : Option Nat) : Option Nat :=
  if suite.isClosed then some (noted.getD suite.tests.length) else none

/-- **The failure count of a suite with this number of tests at its close**: zero while the suite is
open, and then that of the failed ones among those tests.  Tests in a suite are never changed, so it
does not matter when they are looked at. -/
def CountsAt (suite : Suite) : Option Nat → Prop
  | none => suite.isClosed = false ∧ suite.failures = 0
  | some k => suite.isClosed = true ∧ k ≤ suite.tests.length ∧
      suite.failures = (suite.tests.take k).countP Test.isFailed

/-- As long as a suite is as it was remembered, there is nothing new to remember. -/
theorem CountsAt.note_eq (h : suite.CountsAt noted) : suite.note noted = noted := by
  cases noted with
  | none => rw [note, h.1, if_neg Bool.false_ne_true]
  | some k => rw [note, h.1, if_pos rfl, Option.getD_some]

theorem countsAt_begin (name : String) (now : Instant) : (begin name now).CountsAt none :=
  ⟨rfl, rfl⟩

/-- A suite that is consistent counts all its tests. -/
theorem countsAt_of_consistent (h : suite.Consistent) : suite.CountsAt (suite.note none) := by
  have hcount : suite.failures = suite.expectedFailures := h.2.1
  rw [expectedFailures] at hcount
  rw [note]
  split
  · next hclosed =>
    rw [if_pos hclosed] at hcount
    exact ⟨hclosed, Nat.le_refl _, by rw [Option.getD_none, List.take_length]; exact hcount⟩
  · next hopen =>
    rw [if_neg hopen] at hcount
    exact ⟨Bool.eq_false_of_not_eq_true hopen, hcount⟩

/-- A test that is added is not counted. -/
theorem CountsAt.addTest (h : suite.CountsAt noted) (test : Test) :
    (suite.addTest test).CountsAt noted := by
  cases noted with
  | none => exact h
  | some k =>
    obtain ⟨hclosed, hk, hcount⟩ := h
    refine ⟨hclosed, ?_, ?_⟩
    · rw [Suite.addTest, List.length_append]
      exact Nat.le_trans hk (Nat.le_add_right _ _)
    · rw [Suite.addTest, List.take_append_of_le_length hk]
      exact hcount

/-- Closing an open suite counts all its tests; closing it again changes nothing.  So what was noted
at the first close stands. -/
theorem CountsAt.close (h : suite.CountsAt noted) (now : Instant) :
    (suite.close now).CountsAt (some (noted.getD suite.tests.length)) := by
  cases noted with
  | none =>
    obtain ⟨hopen, -⟩ := h
    rw [Suite.close, hopen, if_neg Bool.false_ne_true, Option.getD_none]
    refine ⟨?_, Nat.le_refl _, by rw [List.take_length]; rfl⟩
    rw [isClosed, Option.isSome_eq_false_iff, Option.isNone_iff_eq_none] at hopen
    simp only [isClosed, Timing.finish, hopen]
    rfl
  | some k =>
    rw [Suite.close, if_pos h.1]
    exact h

end Suite

namespace Recording

/-- What to remember of a recording. -/
def note (r : Recording) (noted : Option Nat) : Option Nat :=
  r.suite.bind fun suite => suite.note noted

/-- What is remembered after a run. -/
def noteAfter (r : Recording) (noted : Option Nat) : List Call → Option Nat
  | [] => noted
  | c :: calls => (r.call c).noteAfter ((r.call c).note noted) calls

/-- **The number of tests at the first close** of the suite that is recorded after a run, or at the
start if it was closed then; `none` if it is open. -/
def closedWith (start : Suite) (calls : List Call) : Option Nat :=
  (ofSuite start).noteAfter (start.note none) calls

/-- A call keeps the failure count right. -/
theorem countsAt_call {r : Recording} {noted : Option Nat}
    (h : ∀ suite ∈ r.suite, suite.CountsAt noted) (c : Call) :
    ∀ suite ∈ (r.call c).suite, suite.CountsAt ((r.call c).note noted) := by
  have hchange := r.change_call c
  generalize r.call c = after at hchange
  intro suite hsuite
  have hnote : after.note noted = suite.note noted := by rw [note, hsuite, Option.bind_some]
  rw [hnote]
  cases hchange with
  | nothing =>
    rw [(h suite hsuite).note_eq]
    exact h suite hsuite
  | put id _ =>
    rw [(h suite hsuite).note_eq]
    exact h suite hsuite
  | @begin name _ =>
    obtain rfl := Option.some.inj hsuite
    exact Suite.countsAt_begin name c.now
  | @extend before test hbefore _ =>
    obtain rfl := Option.some.inj hsuite
    have hcounts := (h before hbefore).addTest test
    rw [hcounts.note_eq]
    exact hcounts
  | @close before hbefore _ =>
    obtain rfl := Option.some.inj hsuite
    have hcounts := (h before hbefore).close c.now
    rw [Suite.note, if_pos hcounts.1, Suite.tests_close]
    exact hcounts

/-- **The failure count is right in every state of a run.** -/
theorem countsAt_after {r : Recording} {noted : Option Nat}
    (h : ∀ suite ∈ r.suite, suite.CountsAt noted) (calls : List Call) :
    ∀ suite ∈ (r.after calls).suite, suite.CountsAt (r.noteAfter noted calls) := by
  induction calls generalizing r noted with
  | nil => exact h
  | cons c calls ih => exact ih (countsAt_call h c)

theorem countsAt_closedWith {start : Suite} (h : start.Initial) (calls : List Call) :
    ∀ suite ∈ ((ofSuite start).after calls).suite, suite.CountsAt (closedWith start calls) := by
  refine countsAt_after (fun suite hsuite => ?_) calls
  obtain rfl := Option.some.inj hsuite
  exact Suite.countsAt_of_consistent h.consistent

end Recording

/-! ## The first close

Two facts tell what is remembered without a look at how: it is noted at a close, and kept until
another suite is begun. -/

namespace Recording

theorem noteAfter_concat (r : Recording) (noted : Option Nat) (calls : List Call) (c : Call) :
    r.noteAfter noted (calls ++ [c]) = (r.after (calls ++ [c])).note (r.noteAfter noted calls) := by
  induction calls generalizing r noted with
  | nil => rfl
  | cons c' calls ih => exact ih (r.call c') ((r.call c').note noted)

variable {start suite : Suite} {calls : List Call}

/-- What is remembered at a close is the number of tests there are then. -/
theorem closedWith_close (h : start.Initial)
    (hsuite : ((ofSuite start).after calls).suite = some suite) (hopen : suite.isClosed = false)
    (now : Instant) : closedWith start (calls ++ [⟨now, .close⟩]) = some suite.tests.length := by
  have hcounts := countsAt_closedWith h calls suite hsuite
  have hnone : closedWith start calls = none := by
    rw [← hcounts.note_eq, Suite.note, hopen, if_neg Bool.false_ne_true]
  have hclose : ((ofSuite start).after (calls ++ [⟨now, .close⟩])).suite
      = some (suite.close now) := by
    rw [after_concat, call, act?, hsuite]
    rfl
  have hnoted : (ofSuite start).noteAfter (start.note none) calls = none := hnone
  rw [closedWith, noteAfter_concat, hnoted, note, hclose, Option.bind_some, Suite.note,
    if_pos (hcounts.close now).1, Suite.tests_close, Option.getD_none]

/-- A closed suite stays closed until another one is begun. -/
theorem isClosed_call {r : Recording} (hsuite : r.suite = some suite)
    (hclosed : suite.isClosed = true) {c : Call} (hc : ∀ name, c.action ≠ .beginSuite name) :
    ∃ after, (r.call c).suite = some after ∧ after.isClosed = true := by
  have hchange := r.change_call c
  generalize r.call c = after at hchange
  cases hchange with
  | nothing => exact ⟨suite, hsuite, hclosed⟩
  | put _ _ => exact ⟨suite, hsuite, hclosed⟩
  | begin haction => exact absurd haction (hc _)
  | extend hbefore _ =>
    obtain rfl := Option.some.inj (hsuite.symm.trans hbefore)
    exact ⟨_, rfl, hclosed⟩
  | close hbefore _ =>
    obtain rfl := Option.some.inj (hsuite.symm.trans hbefore)
    refine ⟨_, rfl, ?_⟩
    rw [Suite.close, if_pos hclosed]
    exact hclosed

/-- What is remembered stays until another suite is begun. -/
theorem closedWith_concat (h : start.Initial) {k : Nat} (hk : closedWith start calls = some k)
    {c : Call} (hc : ∀ name, c.action ≠ .beginSuite name) :
    closedWith start (calls ++ [c]) = some k := by
  obtain ⟨suite, hsuite⟩ := exists_suite_after (r := .ofSuite start) ⟨start, rfl⟩ calls
  have hcounts := countsAt_closedWith h calls suite hsuite
  rw [hk] at hcounts
  obtain ⟨after, hafter, hclosed⟩ := isClosed_call hsuite hcounts.1 hc
  have hnoted : (ofSuite start).noteAfter (start.note none) calls = some k := hk
  rw [closedWith, noteAfter_concat, hnoted, after_concat, note, hafter, Option.bind_some,
    Suite.note, if_pos hclosed, Option.getD_some]

end Recording

/-! ## Every run -/

/-- **Derived fields are right in every state of every run.**  Each timing, in the suite or held
beside it, has the time that its start and end give; an open suite counts no failures, and a closed
one the failures among the tests it had when it was first closed.  That number of tests is the one
there was at the start of the run if the suite was closed then; it is noted when an open suite is
closed, and kept by every call that does not begin another suite. -/
theorem derived_fields_of_run {start : Suite} (h : start.Initial) (calls : List Call) :
    (∀ t ∈ ((Recording.ofSuite start).after calls).timings, t.Derived) ∧
    (∃ suite, ((Recording.ofSuite start).after calls).suite = some suite ∧
      (suite.isClosed = false →
        Recording.closedWith start calls = none ∧ suite.failures = 0 ∧
        ∀ now, Recording.closedWith start (calls ++ [⟨now, .close⟩])
          = some suite.tests.length) ∧
      (suite.isClosed = true → ∃ k, Recording.closedWith start calls = some k ∧
        k ≤ suite.tests.length ∧ suite.failures = (suite.tests.take k).countP Test.isFailed ∧
        ∀ c : Call, (∀ name, c.action ≠ .beginSuite name) →
          Recording.closedWith start (calls ++ [c]) = some k)) ∧
    Recording.closedWith start [] =
      if start.isClosed then some start.tests.length else none := by
  refine ⟨Recording.derived_after (fun t ht => Timing.derived_of_consistent (h.timings t ht)) calls,
    ?_, rfl⟩
  obtain ⟨suite, hsuite⟩ := Recording.exists_suite_after (r := .ofSuite start) ⟨start, rfl⟩ calls
  have hcounts := Recording.countsAt_closedWith h calls suite hsuite
  refine ⟨suite, hsuite, ?_⟩
  cases hnoted : Recording.closedWith start calls with
  | none =>
    rw [hnoted] at hcounts
    refine ⟨fun hopen => ⟨rfl, hcounts.2, Recording.closedWith_close h hsuite hopen⟩,
      fun hclosed => ?_⟩
    rw [hcounts.1] at hclosed
    cases hclosed
  | some k =>
    rw [hnoted] at hcounts
    obtain ⟨hclosed, hk, hfailures⟩ := hcounts
    refine ⟨fun hopen => ?_, fun _ => ⟨k, rfl, hk, hfailures, fun c hc =>
      Recording.closedWith_concat h hnoted hc⟩⟩
    rw [hclosed] at hopen
    cases hopen

/-- A run in which a test is begun and failed, and added after the suite was closed. -/
def lateRun : List Call :=
  List.map (Call.mk firstInstant)
    [.beginTest "t" "t" false "" false false,
      .attachFailure "t" { message := "boom", kind := "Error" }, .close, .addTest "t"]

/-- The suite after the late run. -/
def lateSuite : Suite :=
  ((Suite.begin "s" firstInstant).close firstInstant).addTest
    ((Test.begin "t" false "" false false firstInstant).attachFailure
      { message := "boom", kind := "Error" })

/-- A failed test that is added after the close is not counted, not even if the suite is closed
again. -/
theorem lateSuite_not_counted :
    ((Recording.ofSuite (.begin "s" firstInstant)).after lateRun).suite = some lateSuite ∧
      lateSuite.isClosed = true ∧ lateSuite.failedCount = 1 ∧ lateSuite.failures = 0 ∧
      Recording.closedWith (.begin "s" firstInstant) (lateRun ++ [⟨firstInstant, .close⟩])
        = some 0 := by
  obtain ⟨-, ⟨suite, hsuite, -, hclosed⟩, -⟩ :=
    derived_fields_of_run (.fresh "s" firstInstant) lateRun
  obtain rfl : lateSuite = suite := Option.some.inj hsuite
  obtain ⟨k, hk, -, hfailures, hkept⟩ := hclosed rfl
  obtain rfl : 0 = k := Option.some.inj hk
  exact ⟨rfl, rfl, rfl, hfailures, hkept _ nofun⟩

end RunRecord
