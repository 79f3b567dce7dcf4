import RunRecord.Event
import RunRecord.Files.Access
import RunRecord.Report.Document

/-!
# Report/Saving — writing reports to files

A report is encoded as a whole before any file is touched.  Every file that was written is noted as
an event.

Only the calls on files are left open: the same function saves to the real file system and to a
`FileStore`.  Nothing is tidied up after a write that fails, so the file may be left with the
beginning of a report.
-/

namespace RunRecord

/-- Why a report was not saved. -/
inductive SaveError where
  | unsupportedFormat (id : String)
  | file (e : FileError)
deriving DecidableEq, Repr

/-- The wording of an identifier that names no format. -/
def unsupportedFormatMessage (id : String) : String := "unsupported report format: " ++ id

/-- The wording of a failure. -/
def SaveError.message : SaveError → String
  | unsupportedFormat id => unsupportedFormatMessage id
  | file e => e.message

namespace Suite

variable {m : Type → Type} [Monad m]

/-- Writes a report in a format to a path. -/
def save (suite : Suite) (files : FileAccess m) (format : Format) (path : String) :
    m (Except FileError (List Event)) := do
  let content := suite.encode format
  match ← files.write path content with
  | .ok () => return .ok [.written suite.name path content.length]
  | .error e => return .error e

/-- Writes a report in the format with a given identifier to a base name with that format's
extension, and returns the path. -/
def saveAs (suite : Suite) (files : FileAccess m) (id base : String) :
    m (Except SaveError (String × List Event)) := do
  match Format.ofId? id with
  | none => return .error (.unsupportedFormat id)
  | some format =>
    let path := Path.report base format
    match ← suite.save files format path with
    | .ok events => return .ok (path, events)
    | .error e => return .error (.file e)

end Suite

end RunRecord
