import RunRecord.Json.Shape
import RunRecord.Report.Consistency

/-!
# Report/JsonReader — reading reports from JSON documents

Each node is a record with a fixed list of members.  A report is accepted if its document can be
read and what it says is consistent.

A member that may be left out has the default at which it is left out when written, so that reading
undoes writing.  More may be left out than ever is, the time for one.
-/

namespace RunRecord

open Json

/-- The instant that stands in a blank record. -/
def blankInstant : Instant :=
  { day := 0, second := 0, nano := 0, day_range := by decide, second_lt := by decide,
    nano_lt := by decide }

/-- The timing of a blank record. -/
def blankTiming : Timing := { start := blankInstant, stop := none, time := "" }

/-! ## Records -/

/-- Failures as records. -/
def Failure.shape : Shape Failure where
  title := "Failure"
  blank := { message := "", kind := "" }
  members := [
    required "message" textValue fun x f => { f with message := x },
    required "type" textValue fun x f => { f with kind := x }]

/-- The kind of an operation. -/
def OperationKind.reader : Reader OperationKind :=
  choiceValue OperationKind.ofName? (OperationKind.all.map OperationKind.name)

/-- Operations as records. -/
def Operation.shape : Shape Operation where
  title := "OperationReport"
  blank := { name := "", timing := blankTiming, result := "", message := none, kind := .create }
  members := [
    required "name" textValue fun x o => { o with name := x },
    required "startTime" instantValue fun x o => { o with timing := { o.timing with start := x } },
    defaulted "endTime" (optional instantValue)
      fun x o => { o with timing := { o.timing with stop := x } },
    defaulted "time" textValue fun x o => { o with timing := { o.timing with time := x } },
    defaulted "result" textValue fun x o => { o with result := x },
    defaulted "message" (optional textValue) fun x o => { o with message := x },
    required "operationType" OperationKind.reader fun x o => { o with kind := x }]

/-- Steps as records. -/
def Step.shape : Shape Step where
  title := "StepReport"
  blank := { name := "", operations := [] }
  members := [
    defaulted "name" textValue fun x s => { s with name := x },
    defaulted "results" (listValue Operation.shape.reader) fun x s => { s with operations := x }]

/-- Tests as records. -/
def Test.shape : Shape Test where
  title := "TestReport"
  blank := { name := "", timing := blankTiming, failure := none, steps := [], concurrent := false,
             scope := "", skip := false, skipDelete := false }
  members := [
    required "name" textValue fun x t => { t with name := x },
    required "startTime" instantValue fun x t => { t with timing := { t.timing with start := x } },
    defaulted "endTime" (optional instantValue)
      fun x t => { t with timing := { t.timing with stop := x } },
    defaulted "time" textValue fun x t => { t with timing := { t.timing with time := x } },
    defaulted "failure" (optional Failure.shape.reader) fun x t => { t with failure := x },
    defaulted "steps" (listValue Step.shape.reader) fun x t => { t with steps := x },
    defaulted "concurrent" booleanValue fun x t => { t with concurrent := x },
    defaulted "namespace" textValue fun x t => { t with scope := x },
    defaulted "skip" booleanValue fun x t => { t with skip := x },
    defaulted "skipDelete" booleanValue fun x t => { t with skipDelete := x }]

/-- Suites as records. -/
def Suite.shape : Shape Suite where
  title := "SuiteReport"
  blank := { name := "", timing := blankTiming, tests := [], failures := 0 }
  members := [
    required "name" textValue fun x s => { s with name := x },
    required "startTime" instantValue fun x s => { s with timing := { s.timing with start := x } },
    defaulted "endTime" (optional instantValue)
      fun x s => { s with timing := { s.timing with stop := x } },
    defaulted "time" textValue fun x s => { s with timing := { s.timing with time := x } },
    defaulted "reports" (listValue Test.shape.reader) fun x s => { s with tests := x },
    defaulted "failures" countValue fun x s => { s with failures := x }]

/-! ## Accepting a report -/

/-- Why a document is not accepted as a report. -/
inductive ReadError where
  | unreadable (e : Json.Error)
  | inconsistent (violation : Violation)

/-- The wording of a refusal. -/
def ReadError.message : ReadError → String
  | unreadable e => e.message
  | inconsistent violation => "invalid report: " ++ violation.message

/-- The suite that a document holds, whether consistent or not. -/
def Suite.decode (document : Bytes) : Except Json.Error Suite :=
  Json.decode Suite.shape.reader document

/-- The suite that a document holds, if it is consistent. -/
def Suite.read (document : Bytes) : Except ReadError Suite :=
  match Suite.decode document with
  | .error e => .error (.unreadable e)
  | .ok suite =>
    match suite.firstViolation? with
    | some violation => .error (.inconsistent violation)
    | none => .ok suite

end RunRecord
