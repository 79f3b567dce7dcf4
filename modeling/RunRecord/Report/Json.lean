import RunRecord.Instant.Printer
import RunRecord.Json.Printer
import RunRecord.Report.Basic

/-!
# Report/Json — reports as JSON values

Members come in a fixed order.  Left out are an end, a failure and a message that are absent, flags
that are false, and a namespace, a step's name and lists of steps and operations that are empty.

What is left out is what the reader puts there by itself, so nothing is lost.  Elapsed times,
outcomes, the list of tests and the failure count are written in any case.
-/

namespace RunRecord

/-- A member that is written unless a condition holds. -/
def memberUnless (absent : Bool) (key : String) (value : Json) : List (String × Json) :=
  if absent then [] else [(key, value)]

/-- A member that is written if there is a value for it.  What is absent is left out and not written
as `null`. -/
def memberOf? {α : Type} (key : String) (value : α → Json) : Option α → List (String × Json)
  | none => []
  | some a => [(key, value a)]

/-- An instant as a value. -/
def Instant.toJson (t : Instant) : Json := .string t.toText

/-- The members that tell when a node ran.  They are the same for every timed node. -/
def Timing.jsonMembers (t : Timing) : List (String × Json) :=
  [("startTime", t.start.toJson)] ++ memberOf? "endTime" Instant.toJson t.stop ++
    [("time", .string t.time)]

/-- A failure as a value. -/
def Failure.toJson (failure : Failure) : Json :=
  .object [("message", .string failure.message), ("type", .string failure.kind)]

/-- An operation as a value. -/
def Operation.toJson (operation : Operation) : Json :=
  .object ([("name", .string operation.name)] ++ operation.timing.jsonMembers ++
    [("result", .string operation.result)] ++
    memberOf? "message" .string operation.message ++
    [("operationType", .string operation.kind.name)])

/-- A step as a value. -/
def Step.toJson (step : Step) : Json :=
  .object (memberUnless (step.name == "") "name" (.string step.name) ++
    memberUnless step.operations.isEmpty "results" (.array (step.operations.map Operation.toJson)))

/-- A test as a value. -/
def Test.toJson (test : Test) : Json :=
  .object ([("name", .string test.name)] ++ test.timing.jsonMembers ++
    memberOf? "failure" Failure.toJson test.failure ++
    memberUnless test.steps.isEmpty "steps" (.array (test.steps.map Step.toJson)) ++
    memberUnless (!test.concurrent) "concurrent" (.boolean test.concurrent) ++
    memberUnless (test.scope == "") "namespace" (.string test.scope) ++
    memberUnless (!test.skip) "skip" (.boolean test.skip) ++
    memberUnless (!test.skipDelete) "skipDelete" (.boolean test.skipDelete))

/-- A suite as a value.  The tests are a list even if there are none, and the failure count is there
before the suite is closed. -/
def Suite.toJson (suite : Suite) : Json :=
  .object ([("name", .string suite.name)] ++ suite.timing.jsonMembers ++
    [("reports", .array (suite.tests.map Test.toJson)), ("failures", .ofNat suite.failures)])

end RunRecord
