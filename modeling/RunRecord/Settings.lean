import RunRecord.Path
import RunRecord.Toml.Document

/-!
# Settings — where a report goes and in which format

Three settings, each with a default, may be given by a configuration document and overridden one by
one.  The format is kept as it was given: whether it names a format matters only when it is needed.

A key that no setting has is passed over, but one whose value is not a string is a fault of the
document.
-/

namespace RunRecord

/-- Base name, format identifier and directory of a report file. -/
structure Settings where
  name : String
  format : String
  dir : Option String
deriving DecidableEq, Repr

namespace Settings

/-- The settings where nothing is given. -/
def default : Settings := { name := "report", format := Format.json.name, dir := none }

/-! ## Reading -/

/-- The string under a key of a table: `some none` if there is no such key, `none` if it leads to
something that is not a string. -/
def string? (table : Toml.Table) (key : String) : Option (Option String) :=
  match table.get? key with
  | none => some none
  | some (.scalar (.string s)) => some (some s)
  | some _ => none

/-- The settings that a table gives; other keys do not matter.  All three are looked up before any
of them is used. -/
def ofTable? (table : Toml.Table) : Option Settings := do
  let name ← string? table "name"
  let format ← string? table "format"
  let dir ← string? table "dir"
  some { name := name.getD default.name, format := format.getD default.format, dir }

/-- The settings that a configuration document gives. -/
def read (document : List Char) : Except Toml.Fault Settings := do
  let table ← Toml.read document
  Toml.orMalformed (ofTable? table)

/-! ## Overriding

Only the format and the name can be given as options.  The directory comes from the document or not
at all. -/

/-- Settings with a format and a name put in place of their own, where given.  What is not given
stays. -/
def override (settings : Settings) (format name : Option String) : Settings :=
  { settings with format := format.getD settings.format, name := name.getD settings.name }

/-! ## Using -/

/-- The format, if there is one with this identifier. -/
def reportFormat? (settings : Settings) : Option Format := Format.ofId? settings.format

/-- The path of the report without its extension.  It is the name alone where no directory is set.
-/
def basePath (settings : Settings) : String :=
  match settings.dir with
  | some dir => Path.join dir settings.name
  | none => settings.name

/-- The path of the report, if the format is known. -/
def outputPath? (settings : Settings) : Option String :=
  settings.reportFormat?.map (Path.report settings.basePath)

end Settings

end RunRecord
