import RunRecord.Elapsed
import RunRecord.Event
import RunRecord.Report.Basic

/-!
# Report/Recorder — building a report while the tests run

Nodes start with the clock's reading and grow: children are appended, a failure or an outcome is
set, and an end is written once.  Asking a node that has its end to end again changes nothing and is
worth a warning.  Every operation that reads the clock takes the reading as an argument.

Nodes are values: a child that is appended is a copy, and what happens later to the node it was
copied from does not reach it.  What a call has to say is kept apart from what it does, as a list of
events.
-/

namespace RunRecord

/-! ## Timings -/

/-- A timing that has just started. -/
def Timing.begin (now : Instant) : Timing := { start := now, stop := none, time := "" }

/-- A timing with its end and elapsed time written, unless it has an end already.  The elapsed time
is computed once, from the two instants that are stored with it. -/
def Timing.finish (t : Timing) (now : Instant) : Timing :=
  match t.stop with
  | some _ => t
  | none => { t with stop := some now, time := elapsed t.start now }

/-- The warning that a node with this timing earns when it is asked to end.  There is none if the
end is written now. -/
def Timing.finishEvents (t : Timing) (node : NodeKind) (name : String) : List Event :=
  match t.stop with
  | some _ => [.endedAgain node name]
  | none => []

/-! ## Operations -/

namespace Operation

/-- An operation that has just started. -/
def begin (name : String) (kind : OperationKind) (now : Instant) : Operation :=
  { name, timing := .begin now, result := "", message := none, kind }

/-- Sets the outcome. -/
def setResult (operation : Operation) (result : String) : Operation := { operation with result }

/-- Sets the message. -/
def setMessage (operation : Operation) (message : String) : Operation :=
  { operation with message := some message }

/-- Writes the end. -/
def markEnd (operation : Operation) (now : Instant) : Operation :=
  { operation with timing := operation.timing.finish now }

/-- What `markEnd` has to say. -/
def markEndEvents (operation : Operation) : List Event :=
  operation.timing.finishEvents .operation operation.name

end Operation

/-! ## Steps -/

namespace Step

/-- A step without operations. -/
def begin (name : String) : Step := { name, operations := [] }

/-- Appends an operation.  The operation is appended as it is, with or without an end. -/
def addOperation (step : Step) (operation : Operation) : Step :=
  { step with operations := step.operations ++ [operation] }

end Step

/-! ## Tests -/

namespace Test

/-- A test that has just started. -/
def begin (name : String) (concurrent : Bool) (scope : String) (skip skipDelete : Bool)
    (now : Instant) : Test :=
  { name, timing := .begin now, failure := none, steps := [], concurrent, scope, skip, skipDelete }

/-- Appends a step. -/
def addStep (test : Test) (step : Step) : Test := { test with steps := test.steps ++ [step] }

/-- Makes the test a failed one; a later failure takes the place of an earlier one. -/
def attachFailure (test : Test) (failure : Failure) : Test := { test with failure := some failure }

/-- Writes the end. -/
def markEnd (test : Test) (now : Instant) : Test :=
  { test with timing := test.timing.finish now }

/-- What `markEnd` has to say. -/
def markEndEvents (test : Test) : List Event := test.timing.finishEvents .test test.name

end Test

/-! ## Suites

Closing a suite writes its end and its failure count.  Both are written once, so a test that is
added later is in the report but not in the count. -/

namespace Suite

/-- A suite that has just started. -/
def begin (name : String) (now : Instant) : Suite :=
  { name, timing := .begin now, tests := [], failures := 0 }

/-- Appends a test.  It may be open or closed, and is not counted if it is closed. -/
def addTest (suite : Suite) (test : Test) : Suite := { suite with tests := suite.tests ++ [test] }

/-- Writes the end and counts the failed tests, unless the suite is closed already.  The count is of
the tests that are there. -/
def close (suite : Suite) (now : Instant) : Suite :=
  if suite.isClosed then suite
  else { suite with timing := suite.timing.finish now, failures := suite.failedCount }

/-- What `close` has to say: a warning for a suite that is closed already, else a summary. -/
def closeEvents (suite : Suite) (now : Instant) : List Event :=
  if suite.isClosed then suite.timing.finishEvents .suite suite.name
  else
    let closed := suite.close now
    [.closed suite.name closed.tests.length closed.failures closed.timing.time]

end Suite

end RunRecord
