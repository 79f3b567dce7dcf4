import RunRecord.Command.Outcome
import RunRecord.Summary

/-!
# Command/Summary — printing the table of a recorded report

The command succeeds if no test failed.

Nothing is written to a file.  The table is printed whether or not a test has failed; the failures
are told once more by the result, for the exit code.
-/

namespace RunRecord

/-- What the summary command is asked to do. -/
structure SummaryOptions where
  input : String
deriving DecidableEq, Repr

/-- Runs the command; its result says whether no test failed. -/
def SummaryOptions.run {m : Type → Type} [Monad m] (options : SummaryOptions) (files : FileAccess m)
    (colours : Bool) : m (Outcome Bool) := do
  match ← loadReport files options.input with
  | .error e => return .failed e
  | .ok suite =>
    return { result := .ok !suite.anyFailed, printed := suite.printSummary colours, events := [] }

end RunRecord
