import RunRecord.Elapsed
import RunRecord.Event
import RunRecord.Report.Basic

/-!
# Report/Consistency — when the derived parts of a report agree with the rest

Elapsed times and the failure count can be worked out from the rest of a report.  A report is
**consistent** if they hold what is worked out, and no node ends before it starts.
`firstViolation?` walks a report in a fixed order and names the first thing that is wrong.

The walk stops at the first thing that is wrong, and the order matters to a user who is told of one
thing at a time.  It is that of the document: the suite first, and then its tests in their order.
-/

namespace RunRecord

/-! ## What consistent means -/

/-- An end comes with its elapsed time and is no earlier than the start; no end, no time. -/
def Timing.Consistent (t : Timing) : Prop :=
  match t.stop with
  | none => t.time = ""
  | some stop => t.start ≤ stop ∧ t.time = elapsed t.start stop

/-- The failure count a suite should have: that of its failed tests once closed, zero before. -/
def Suite.expectedFailures (suite : Suite) : Nat := if suite.isClosed then suite.failedCount else 0

/-- A test is consistent if it and all its operations are. -/
def Test.Consistent (test : Test) : Prop :=
  test.timing.Consistent ∧ ∀ operation ∈ test.operations, operation.timing.Consistent

/-- A suite is consistent if its own timing, its failure count and all its tests are. -/
def Suite.Consistent (suite : Suite) : Prop :=
  suite.timing.Consistent ∧ suite.failures = suite.expectedFailures ∧
    ∀ test ∈ suite.tests, test.Consistent

/-! ## Finding what is wrong -/

/-- A way in which a report is not consistent. -/
inductive Violation where
  | timeWithoutEnd (node : NodeKind) (name time : String)
  | endsBeforeStart (node : NodeKind) (name : String)
  | wrongTime (node : NodeKind) (name time expected : String)
  | wrongFailures (name : String) (recorded expected : Nat)
deriving DecidableEq, Repr

/-- The wording of a violation. -/
def Violation.message : Violation → String
  | timeWithoutEnd node name time => s!"{node.name} '{name}' has time {time} but no endTime"
  | endsBeforeStart node name => s!"{node.name} '{name}' ends before it starts"
  | wrongTime node name time expected =>
    s!"{node.name} '{name}' has time {time}, its start/end give {expected}"
  | wrongFailures name recorded expected =>
    s!"suite '{name}' records {recorded} failures, expected {expected}"

/-- What is wrong with the timing of a node. -/
def Timing.violation? (node : NodeKind) (name : String) (t : Timing) : Option Violation :=
  match t.stop with
  | none => if t.time = "" then none else some (.timeWithoutEnd node name t.time)
  | some stop =>
    if stop < t.start then some (.endsBeforeStart node name)
    else if t.time = elapsed t.start stop then none
    else some (.wrongTime node name t.time (elapsed t.start stop))

/-- What is wrong with the timing of an operation. -/
def Operation.violation? (operation : Operation) : Option Violation :=
  operation.timing.violation? .operation operation.name

/-- The first thing wrong with a test: its own timing, then its operations in order. -/
def Test.firstViolation? (test : Test) : Option Violation :=
  (test.timing.violation? .test test.name).or (test.operations.findSome? Operation.violation?)

/-- What is wrong with the failure count of a suite. -/
def Suite.countViolation? (suite : Suite) : Option Violation :=
  if suite.failures = suite.expectedFailures then none
  else some (.wrongFailures suite.name suite.failures suite.expectedFailures)

/-- The first thing wrong with a suite: its timing, its failure count, then its tests in order. -/
def Suite.firstViolation? (suite : Suite) : Option Violation :=
  (suite.timing.violation? .suite suite.name).or <|
    suite.countViolation?.or (suite.tests.findSome? Test.firstViolation?)

/-! ## The two agree

What is found wrong is something that is wrong, and the other way round; so the walk may be
forgotten where only consistency matters. -/

theorem Timing.violation?_eq_none_iff {node : NodeKind} {name : String} {t : Timing} :
    t.violation? node name = none ↔ t.Consistent := by
  unfold Timing.violation? Timing.Consistent
  cases t.stop with
  | none => simp
  | some stop =>
    by_cases h : stop < t.start
    · simp [h, Instant.le_def]
    · by_cases h' : t.time = elapsed t.start stop <;> simp [h, h', Instant.le_def]

theorem Test.firstViolation?_eq_none_iff {test : Test} :
    test.firstViolation? = none ↔ test.Consistent := by
  simp [Test.firstViolation?, Test.Consistent, Operation.violation?,
    Timing.violation?_eq_none_iff]

/-- **Nothing is found wrong exactly with the consistent suites.**  So a consistent suite is one
that the reader accepts. -/
theorem Suite.firstViolation?_eq_none_iff {suite : Suite} :
    suite.firstViolation? = none ↔ suite.Consistent := by
  simp [Suite.firstViolation?, Suite.Consistent, Suite.countViolation?,
    Timing.violation?_eq_none_iff, Test.firstViolation?_eq_none_iff]

end RunRecord
