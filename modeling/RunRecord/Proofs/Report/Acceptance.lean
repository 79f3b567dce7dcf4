import RunRecord.Proofs.Report.RoundTrip
import RunRecord.Report.Recorder

/-!
# Proofs/Report/Acceptance — which reports are accepted, and what is said of the others

What a report is asked is a list of **checks** in a fixed order: the timing of the suite, its
failure count, then test by test the timing of the test and of its operations, step by step.  A
report is consistent if all of them hold; if not, the **first breach** is how the first of them
fails.  `read_document` says that the early exits of the reader come to just that.

The order of the checks is that of the program, which goes through a report once and stops at the
first thing that is wrong.  It is stated as a list here, so that to be the first breach means
something without a look at the loop: all checks before it hold, whatever comes after.  The node at
fault and its name are part of the violation, as are the times or counts that do not agree.
-/

namespace RunRecord

/-! ## Checks

A check does not say how it is carried out.  `Holds` and `Fails` are given by what is compared; that
`violation?` decides between them is a lemma. -/

/-- A question that a report is asked. -/
inductive Check where
  /-- Whether the timing of a node agrees with itself. -/
  | timing (node : NodeKind) (name : String) (t : Timing)
  /-- Whether the failure count agrees with the tests. -/
  | count (suite : Suite)

namespace Check

/-- The answer is yes. -/
def Holds : Check → Prop
  | timing _ _ t => t.Consistent
  | count suite => suite.failures = suite.expectedFailures

/-- The answer is no, for a reason.  An end before the start is a reason whatever the time, so each
check has one reason at most. -/
inductive Fails : Check → Violation → Prop
  | timeWithoutEnd {node : NodeKind} {name : String} {t : Timing} :
    t.stop = none → t.time ≠ "" → Fails (timing node name t) (.timeWithoutEnd node name t.time)
  | endsBeforeStart {node : NodeKind} {name : String} {t : Timing} {stop : Instant} :
    t.stop = some stop → stop < t.start → Fails (timing node name t) (.endsBeforeStart node name)
  | wrongTime {node : NodeKind} {name : String} {t : Timing} {stop : Instant} :
    t.stop = some stop → t.start ≤ stop → t.time ≠ elapsed t.start stop →
      Fails (timing node name t) (.wrongTime node name t.time (elapsed t.start stop))
  | wrongFailures {suite : Suite} :
    suite.failures ≠ suite.expectedFailures →
      Fails (count suite) (.wrongFailures suite.name suite.failures suite.expectedFailures)

/-- The reason why a check fails, if it does. -/
def violation? : Check → Option Violation
  | timing node name t => t.violation? node name
  | count suite => suite.countViolation?

/-- A check that raises no violation holds. -/
theorem violation?_eq_none_iff {c : Check} : c.violation? = none ↔ c.Holds := by
  cases c with
  | timing node name t => exact Timing.violation?_eq_none_iff
  | count suite =>
    rw [violation?, Suite.countViolation?, Holds, ite_eq_left_iff]
    simp

/-- A check that fails for a reason raises it. -/
theorem violation?_of_fails {c : Check} {v : Violation} (h : c.Fails v) :
    c.violation? = some v := by
  cases h with
  | timeWithoutEnd hstop htime => simp only [violation?, Timing.violation?, hstop, if_neg htime]
  | endsBeforeStart hstop hlt => simp only [violation?, Timing.violation?, hstop, if_pos hlt]
  | wrongTime hstop hle htime =>
    simp only [violation?, Timing.violation?, hstop, if_neg ((Instant.le_def _ _).1 hle),
      if_neg htime]
  | wrongFailures hcount => rw [violation?, Suite.countViolation?, if_neg hcount]

/-- What does not hold fails for a reason. -/
theorem exists_fails {c : Check} (h : ¬ c.Holds) : ∃ v, c.Fails v := by
  cases c with
  | timing node name t =>
    cases hstop : t.stop with
    | none =>
      refine ⟨_, .timeWithoutEnd hstop fun htime => h ?_⟩
      simpa only [Holds, Timing.Consistent, hstop] using htime
    | some stop =>
      by_cases hlt : stop < t.start
      · exact ⟨_, .endsBeforeStart hstop hlt⟩
      · refine ⟨_, .wrongTime hstop hlt fun htime => h ?_⟩
        simp only [Holds, Timing.Consistent, hstop]
        exact ⟨hlt, htime⟩
  | count suite => exact ⟨_, .wrongFailures h⟩

/-- **The violation that a check raises is the reason why it fails.**  So the program's own tests
give no answer but these two. -/
theorem violation?_eq_some_iff {c : Check} {v : Violation} :
    c.violation? = some v ↔ c.Fails v := by
  refine ⟨fun h => ?_, violation?_of_fails⟩
  have hfails : ¬ c.Holds := fun hholds => by
    rw [violation?_eq_none_iff.2 hholds] at h
    cases h
  obtain ⟨w, hw⟩ := exists_fails hfails
  rw [violation?_of_fails hw] at h
  cases h
  exact hw

end Check

/-! ## The checks of a report

The list is put together as the report is nested.  Searching it from the front is the walk of the
program, because a search through joined lists is one through each of them. -/

/-- The check of an operation. -/
def Operation.check (operation : Operation) : Check :=
  .timing .operation operation.name operation.timing

/-- The checks of a test: its own timing, then its operations in step order.  Its failure is not
asked anything. -/
def Test.checks (test : Test) : List Check :=
  .timing .test test.name test.timing ::
    test.steps.flatMap fun step => step.operations.map Operation.check

/-- The checks of a suite: its timing, its failure count, then its tests in order. -/
def Suite.checks (suite : Suite) : List Check :=
  .timing .suite suite.name suite.timing :: .count suite :: suite.tests.flatMap Test.checks

/-- A search looks at the first element, then at the rest. -/
theorem findSome?_cons_eq_or {α β : Type} (f : α → Option β) (a : α) (as : List α) :
    (a :: as).findSome? f = (f a).or (as.findSome? f) := by
  rw [List.findSome?_cons]
  cases f a <;> rfl

/-- A search through joined lists goes through them one by one. -/
theorem findSome?_flatMap {α β γ : Type} (f : β → Option γ) (g : α → List β) (as : List α) :
    (as.flatMap g).findSome? f = as.findSome? fun a => (g a).findSome? f := by
  induction as with
  | nil => rfl
  | cons a as ih =>
    rw [List.flatMap_cons, List.findSome?_append, findSome?_cons_eq_or, ih]

/-- The walk through a test goes through its checks in their order. -/
theorem Test.firstViolation?_eq_findSome? (test : Test) :
    test.firstViolation? = test.checks.findSome? Check.violation? := by
  have hoperations : test.operations.findSome? Operation.violation?
      = (test.operations.map Operation.check).findSome? Check.violation? := by
    rw [List.findSome?_map]
    rfl
  rw [firstViolation?, hoperations, operations, List.map_flatMap, checks, findSome?_cons_eq_or]
  rfl

/-- The walk of the reader goes through the checks in their order. -/
theorem Suite.firstViolation?_eq_findSome? (suite : Suite) :
    suite.firstViolation? = suite.checks.findSome? Check.violation? := by
  have htests : suite.tests.findSome? Test.firstViolation?
      = suite.tests.findSome? fun test => test.checks.findSome? Check.violation? := by
    rw [funext Test.firstViolation?_eq_findSome?]
  rw [firstViolation?, htests, ← findSome?_flatMap, checks, findSome?_cons_eq_or,
    findSome?_cons_eq_or]
  rfl

/-! ## The first breach

A first breach is told by where it stands in the list and not by how it was found, so that a reader
can see that nothing before it is wrong. -/

/-- A violation is the first breach of a suite if it is how one of its checks fails and all checks
before that one hold. -/
def Suite.FirstBreach (suite : Suite) (v : Violation) : Prop :=
  ∃ before check after, suite.checks = before ++ check :: after ∧
    (∀ c ∈ before, c.Holds) ∧ check.Fails v

/-- What the walk finds is the first breach. -/
theorem Suite.firstViolation?_eq_some_iff {suite : Suite} {v : Violation} :
    suite.firstViolation? = some v ↔ suite.FirstBreach v := by
  rw [firstViolation?_eq_findSome?, List.findSome?_eq_some_iff]
  constructor
  · rintro ⟨before, check, after, hchecks, hv, hbefore⟩
    exact ⟨before, check, after, hchecks,
      fun c hc => Check.violation?_eq_none_iff.1 (hbefore c hc), Check.violation?_eq_some_iff.1 hv⟩
  · rintro ⟨before, check, after, hchecks, hbefore, hv⟩
    exact ⟨before, check, after, hchecks, Check.violation?_of_fails hv,
      fun c hc => Check.violation?_eq_none_iff.2 (hbefore c hc)⟩

/-- A suite that is not consistent has a first breach, and one that has a breach is not consistent.
-/
theorem Suite.not_consistent_iff {suite : Suite} :
    ¬ suite.Consistent ↔ ∃ v, suite.FirstBreach v := by
  rw [← firstViolation?_eq_none_iff, ← ne_eq, Option.ne_none_iff_exists']
  exact exists_congr fun v => firstViolation?_eq_some_iff

/-- What consistency asks of a suite, node by node. -/
theorem Suite.consistent_iff {suite : Suite} :
    suite.Consistent ↔ suite.timing.Consistent ∧
      suite.failures
        = (if suite.timing.stop.isSome then suite.tests.countP (·.failure.isSome) else 0) ∧
      ∀ test ∈ suite.tests, test.timing.Consistent ∧
        ∀ step ∈ test.steps, ∀ operation ∈ step.operations, operation.timing.Consistent := by
  refine and_congr_right fun _ => and_congr_right fun _ => forall₂_congr fun test _ =>
    and_congr_right fun _ => ?_
  simp only [Test.operations, List.forall_mem_flatMap]

/-! ## Reading a document -/

section Read

variable {document : Bytes}

/-- A report is accepted if it is decoded and consistent. -/
theorem Suite.read_eq_ok_iff {suite : Suite} :
    Suite.read document = .ok suite ↔ Suite.decode document = .ok suite ∧ suite.Consistent := by
  rw [Suite.read]
  cases Suite.decode document with
  | error e => simp
  | ok decoded =>
    rw [← Suite.firstViolation?_eq_none_iff]
    constructor
    · intro h
      cases hfirst : decoded.firstViolation? <;> simp only [hfirst] at h <;> cases h
      exact ⟨rfl, hfirst⟩
    · rintro ⟨⟨⟩, hfirst⟩
      simp only [hfirst]

/-- A report is refused for its first breach. -/
theorem Suite.read_eq_inconsistent_iff {v : Violation} :
    Suite.read document = .error (.inconsistent v) ↔
      ∃ suite, Suite.decode document = .ok suite ∧ suite.FirstBreach v := by
  rw [Suite.read]
  simp only [← Suite.firstViolation?_eq_some_iff]
  cases Suite.decode document with
  | error e => simp
  | ok decoded => cases hfirst : decoded.firstViolation? <;> simp [hfirst]

/-- A report that cannot be decoded is refused for that. -/
theorem Suite.read_eq_unreadable_iff {e : Json.Error} :
    Suite.read document = .error (.unreadable e) ↔ Suite.decode document = .error e := by
  rw [Suite.read]
  cases Suite.decode document with
  | error e => simp
  | ok decoded => cases hfirst : decoded.firstViolation? <;> simp [hfirst]

end Read

/-- **Reading accepts exactly the consistent reports and names the first breach of the others.**
What cannot be decoded is never called inconsistent. -/
theorem read_document (document : Bytes) :
    (∀ suite, Suite.read document = .ok suite ↔
      Suite.decode document = .ok suite ∧ suite.timing.Consistent ∧
      suite.failures
        = (if suite.timing.stop.isSome then suite.tests.countP (·.failure.isSome) else 0) ∧
      ∀ test ∈ suite.tests, test.timing.Consistent ∧
        ∀ step ∈ test.steps, ∀ operation ∈ step.operations, operation.timing.Consistent) ∧
    (∀ v, Suite.read document = .error (.inconsistent v) ↔
      ∃ suite, Suite.decode document = .ok suite ∧ suite.FirstBreach v) ∧
    ((∃ v, Suite.read document = .error (.inconsistent v)) ↔
      ∃ suite, Suite.decode document = .ok suite ∧ ¬ suite.Consistent) ∧
    ∀ e, Suite.read document = .error (.unreadable e) ↔ Suite.decode document = .error e := by
  refine ⟨fun suite => ?_, fun v => Suite.read_eq_inconsistent_iff, ?_,
    fun e => Suite.read_eq_unreadable_iff⟩
  · rw [Suite.read_eq_ok_iff, Suite.consistent_iff]
  · simp only [Suite.read_eq_inconsistent_iff, Suite.not_consistent_iff]
    constructor
    · rintro ⟨v, suite, hdecode, hbreach⟩
      exact ⟨suite, hdecode, v, hbreach⟩
    · rintro ⟨suite, hdecode, v, hbreach⟩
      exact ⟨v, suite, hdecode, hbreach⟩

/-- An open suite with a failure count, a test with a time but no end, and an operation that ends
before it starts. -/
def faultySuite : Suite :=
  let operation : Operation :=
    { name := "o", timing := { start := lastInstant, stop := some firstInstant, time := "" },
      result := "", message := none, kind := .script }
  let test : Test :=
    { name := "t", timing := { start := firstInstant, stop := none, time := "0.000" },
      failure := none, steps := [{ name := "", operations := [operation] }], concurrent := false,
      scope := "", skip := false, skipDelete := false }
  { name := "s", timing := .begin firstInstant, tests := [test], failures := 2 }

/-- Of the three faults of the faulty suite the failure count is named. -/
theorem read_faultySuite :
    Suite.read (faultySuite.encode .json)
      = .error (.inconsistent (.wrongFailures "s" 2 0)) := by
  refine ((read_document _).2.1 _).2 ⟨faultySuite, faultySuite.decode_encode (by decide), ?_⟩
  refine ⟨[.timing .suite "s" faultySuite.timing], .count faultySuite, _, rfl, fun c hc => ?_,
    .wrongFailures (by decide)⟩
  obtain rfl := List.mem_singleton.1 hc
  exact rfl

end RunRecord
