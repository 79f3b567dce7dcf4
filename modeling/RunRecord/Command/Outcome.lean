import RunRecord.Event
import RunRecord.Files.Access
import RunRecord.Report.JsonReader
import RunRecord.Report.Saving
import RunRecord.Toml.Basic

/-!
# Command/Outcome — what a command comes to

A command has a result or an error, prints a text, and reports events.

The result is what the next step of the program goes by; the text and the events are for the user
and the log.  A command that fails prints nothing and reports nothing, apart from its error.
-/

namespace RunRecord

/-- Why a command failed. -/
inductive CommandError where
  | readSettings (path : String) (e : FileError)
  | settingsNotText (path : String)
  | parseSettings (path : String) (e : Toml.Fault)
  | unsupportedFormat (id : String)
  | readReport (path : String) (e : FileError)
  | decodeReport (path : String) (e : ReadError)
  | makeDirectory (path : String) (e : FileError)
  | writeReport (path : String) (e : FileError)

/-- The wording of a failure: what was attempted, on what, and what went wrong. -/
def CommandError.message : CommandError → String
  | readSettings path e => s!"Failed to read report config: {path}: {e.message}"
  | settingsNotText path =>
    s!"Failed to read report config: {path}: stream did not contain valid UTF-8"
  | parseSettings path e => s!"Failed to parse report config: {path}: {e.message}"
  | unsupportedFormat id => unsupportedFormatMessage id
  | readReport path e => s!"Failed to read report: {path}: {e.message}"
  | decodeReport path e => s!"Failed to decode report: {path}: {e.message}"
  | makeDirectory path e => s!"Failed to create output directory: {path}: {e.message}"
  | writeReport path e => s!"Failed to write report: {path}: {e.message}"

/-- Result, printed text and events of a command. -/
structure Outcome (α : Type) where
  result : Except CommandError α
  printed : String
  events : List Event

/-- The outcome of a command that failed: nothing is printed. -/
def Outcome.failed {α : Type} (e : CommandError) : Outcome α :=
  { result := .error e, printed := "", events := [] }

/-- The report in a file. -/
def loadReport {m : Type → Type} [Monad m] (files : FileAccess m) (path : String) :
    m (Except CommandError Suite) := do
  match ← files.read path with
  | .error e => return .error (.readReport path e)
  | .ok content =>
    match Suite.read content with
    | .error e => return .error (.decodeReport path e)
    | .ok suite => return .ok suite

end RunRecord
