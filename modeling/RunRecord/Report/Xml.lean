import RunRecord.Instant.Printer
import RunRecord.Report.Basic
import RunRecord.Text.Digits
import RunRecord.Xml.Basic

/-!
# Report/Xml — reports as element trees

Single values are attributes; tests, steps, operations, failures and messages are child elements.
What is absent, false or empty is left out as in JSON documents, save that lists leave no trace.

The message of an operation is the only text between tags; all others are attribute values.
Instants and times are the texts that JSON documents have.
-/

namespace RunRecord

open Xml

/-- An attribute that is written unless a condition holds.  It is the counterpart of a member that
may be left out. -/
def attributeUnless (absent : Bool) (key value : String) : List (String × String) :=
  if absent then [] else [(key, value)]

/-- The attributes that tell when a node ran.  The start and the time are always there. -/
def Timing.attributes (t : Timing) : List (String × String) :=
  [("startTime", t.start.toText)] ++
    (t.stop.map fun stop => ("endTime", stop.toText)).toList ++ [("time", t.time)]

/-- A failure as an element. -/
def Failure.toXml (failure : Failure) : Element :=
  .leaf "failure" [("message", failure.message), ("type", failure.kind)]

/-- An operation as an element. -/
def Operation.toXml (operation : Operation) : Element :=
  .ofChildren "results"
    ([("name", operation.name)] ++ operation.timing.attributes ++
      [("result", operation.result), ("operationType", operation.kind.name)])
    (operation.message.map (.text "message" [])).toList

/-- A step as an element. -/
def Step.toXml (step : Step) : Element :=
  .ofChildren "steps" (attributeUnless (step.name == "") "name" step.name)
    (step.operations.map Operation.toXml)

/-- A test as an element.  A failure comes before the steps, and there is at most one. -/
def Test.toXml (test : Test) : Element :=
  .ofChildren "reports"
    ([("name", test.name)] ++ test.timing.attributes ++
      attributeUnless (!test.concurrent) "concurrent" "true" ++
      attributeUnless (test.scope == "") "namespace" test.scope ++
      attributeUnless (!test.skip) "skip" "true" ++
      attributeUnless (!test.skipDelete) "skipDelete" "true")
    ((test.failure.map Failure.toXml).toList ++ test.steps.map Step.toXml)

/-- A suite as an element: it has an end tag even without tests. -/
def Suite.toXml (suite : Suite) : Element :=
  .node "TestsReport"
    ([("name", suite.name)] ++ suite.timing.attributes ++
      [("failures", String.ofList (Digits.digits suite.failures))])
    (suite.tests.map Test.toXml)

end RunRecord
