import RunRecord.Format
import RunRecord.Report.Json
import RunRecord.Report.Xml
import RunRecord.Text.Utf8
import RunRecord.Xml.Character
import RunRecord.Xml.Printer

/-!
# Report/Document — reports as documents

A document in either format is a whole text without a final line break.

A JSON document is indented.  An XML document has its strings made safe before it is laid out, so
what is escaped is what can be written at all.
-/

namespace RunRecord

/-- The element tree of a suite as its document holds it: only characters that XML allows. -/
def Suite.safeXml (suite : Suite) : Xml.Element := suite.toXml.mapText Xml.safe

/-- The text of a suite in a format. -/
def Suite.text (suite : Suite) : Format → List Char
  | .json => suite.toJson.render .indented
  | .xml => Xml.render suite.safeXml

/-- The bytes of a suite in a format. -/
def Suite.encode (suite : Suite) (format : Format) : Bytes := Utf8.encode (suite.text format)

end RunRecord
