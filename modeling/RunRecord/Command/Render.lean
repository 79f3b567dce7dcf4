import RunRecord.Command.Outcome
import RunRecord.Settings
import RunRecord.Terminal

/-!
# Command/Render — writing a recorded report in another format

Settings come first, then the format, then the report: only when all three are known are directories
made and the file is written.

Everything that can be wrong before that is told by files that are read, and so it leaves none
behind.  An option counts for more than the configuration file even where the file names a format
that there is not; such a format is found out only if it is to be used.
-/

namespace RunRecord

/-- What the render command is asked to do. -/
structure RenderOptions where
  input : String
  config : Option String
  format : Option String
  name : Option String
deriving DecidableEq, Repr

namespace RenderOptions

variable {m : Type → Type} [Monad m]

/-- The settings from a configuration file. -/
def loadSettings (files : FileAccess m) (path : String) : m (Except CommandError Settings) := do
  match ← files.read path with
  | .error e => return .error (.readSettings path e)
  | .ok content =>
    match Utf8.decode? content with
    | none => return .error (.settingsNotText path)
    | some document =>
      match Settings.read document with
      | .error e => return .error (.parseSettings path e)
      | .ok settings => return .ok settings

/-- The settings to go by: an option counts for more than the file, the file for more than the
default. -/
def resolve (options : RenderOptions) (files : FileAccess m) :
    m (Except CommandError Settings) := do
  match options.config with
  | none => return .ok (Settings.default.override options.format options.name)
  | some path =>
    match ← loadSettings files path with
    | .error e => return .error e
    | .ok settings => return .ok (settings.override options.format options.name)

/-- The directory to make before a path is written to, if it names one. -/
def outputDirectory? (path : String) : Option String := (Path.parent? path).filter (· ≠ "")

/-- Makes the directory that a path lies in. -/
def prepare (files : FileAccess m) (path : String) : m (Except CommandError Unit) := do
  match outputDirectory? path with
  | none => return .ok ()
  | some dir =>
    match ← files.ensureDirectories dir with
    | .ok () => return .ok ()
    | .error e => return .error (.makeDirectory dir e)

/-- Writes a report and says where it went. -/
def write (suite : Suite) (files : FileAccess m) (format : Format) (path : String)
    (colours : Bool) : m (Outcome String) := do
  match ← prepare files path with
  | .error e => return .failed e
  | .ok () =>
    match ← suite.save files format path with
    | .error e => return .failed (.writeReport path e)
    | .ok events =>
      return {
        result := .ok path
        printed := Terminal.paint colours [.green] "Report written to" ++ " " ++ path ++ "\n"
        events := events ++ [.rendered suite.name format path] }

/-- Runs the command; its result is the path that was written. -/
def run (options : RenderOptions) (files : FileAccess m) (colours : Bool) : m (Outcome String) := do
  match ← options.resolve files with
  | .error e => return .failed e
  | .ok settings =>
    match settings.reportFormat? with
    | none => return .failed (.unsupportedFormat settings.format)
    | some format =>
      match ← loadReport files options.input with
      | .error e => return .failed e
      | .ok suite => write suite files format (Path.report settings.basePath format) colours

end RenderOptions

end RunRecord
