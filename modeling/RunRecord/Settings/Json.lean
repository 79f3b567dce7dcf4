import RunRecord.Json.Printer
import RunRecord.Json.Shape
import RunRecord.Settings

/-!
# Settings/Json — settings and formats as JSON values

Settings that are left out are at their defaults; an absent directory is written as `null`.

Here the format has to be a string, and its name is not looked at; where a format stands by itself,
its name must be that of one.
-/

namespace RunRecord

open Json

/-- Formats by their names, upper case and lower case being told apart. -/
def Format.reader : Reader Format :=
  choiceValue Format.ofName? (Format.all.map Format.name)

/-- A format as a value. -/
def Format.toJson (format : Format) : Json := .string format.name

/-- Settings as records. -/
def Settings.shape : Shape Settings where
  title := "ReportConfig"
  blank := Settings.default
  members := [
    defaulted "name" textValue fun x s => { s with name := x },
    defaulted "format" textValue fun x s => { s with format := x },
    defaulted "dir" (optional pathValue) fun x s => { s with dir := x }]

/-- Settings as a value. -/
def Settings.toJson (settings : Settings) : Json :=
  .object [("name", .string settings.name), ("format", .string settings.format),
    ("dir", (settings.dir.map Json.string).getD .null)]

end RunRecord
