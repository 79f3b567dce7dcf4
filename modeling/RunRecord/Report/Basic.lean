import RunRecord.Instant.Basic

/-!
# Report/Basic — the record of a test run

A **suite** holds tests, a **test** holds steps, a **step** holds operations, each in the order in
which they were added.  Suites, tests and operations are timed: their **timing** is a start, an end
once there is one, and the elapsed time as text.  Nothing here says that the three agree; that is
what `Report/Consistency` is about.

The types hold what a document can say and no more, and they are plain: whatever can be written can
be built.  So reports that contradict themselves can be read and spoken of, and then refused.
-/

namespace RunRecord

/-- What kind of action an operation was. -/
inductive OperationKind where
  | create
  | delete
  | apply
  | assert
  | error
  | script
  | command
deriving DecidableEq, Repr

namespace OperationKind

/-- All kinds, in the order in which they are listed to a user.  The order matters to messages only.
-/
def all : List OperationKind := [create, delete, apply, assert, error, script, command]

/-- The name of a kind in documents. -/
def name : OperationKind → String
  | create => "create"
  | delete => "delete"
  | apply => "apply"
  | assert => "assert"
  | error => "error"
  | script => "script"
  | command => "command"

/-- The kind with a given name. -/
def ofName? (name : String) : Option OperationKind := all.find? (·.name == name)

@[simp] theorem ofName?_name (kind : OperationKind) : ofName? kind.name = some kind := by
  cases kind <;> decide

end OperationKind

/-- Start, end and elapsed time of a timed node.  The time is kept although it follows from the
other two, because documents have it. -/
structure Timing where
  start : Instant
  stop : Option Instant
  /-- The elapsed time as text, empty while there is no end. -/
  time : String
deriving DecidableEq

/-- Why a test did not pass. -/
structure Failure where
  message : String
  kind : String
deriving DecidableEq, Repr

/-- One action of a test and its outcome. -/
structure Operation where
  name : String
  timing : Timing
  result : String
  message : Option String
  kind : OperationKind
deriving DecidableEq

/-- A named group of operations. -/
structure Step where
  name : String
  operations : List Operation
deriving DecidableEq

/-- One test of a suite. -/
structure Test where
  name : String
  timing : Timing
  failure : Option Failure
  steps : List Step
  concurrent : Bool
  /-- The namespace the test ran in, empty if it had none. -/
  scope : String
  skip : Bool
  skipDelete : Bool
deriving DecidableEq

/-- A whole test run.  Nothing in it says whether it may still grow, except that it has an end or
not. -/
structure Suite where
  name : String
  timing : Timing
  tests : List Test
  /-- The number of failed tests as counted when the suite was closed. -/
  failures : Nat
deriving DecidableEq

/-- Whether a test carries a failure. -/
def Test.isFailed (test : Test) : Bool := test.failure.isSome

/-- The operations of a test, step by step. -/
def Test.operations (test : Test) : List Operation := test.steps.flatMap (·.operations)

/-- Whether a suite has an end.  A suite that has one is called closed. -/
def Suite.isClosed (suite : Suite) : Bool := suite.timing.stop.isSome

/-- The number of tests that carry a failure. -/
def Suite.failedCount (suite : Suite) : Nat := suite.tests.countP Test.isFailed

end RunRecord
