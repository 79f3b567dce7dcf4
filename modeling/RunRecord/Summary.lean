import RunRecord.Report.Basic
import RunRecord.Terminal
import RunRecord.Text.Padding

/-!
# Summary — a report as a table

A header with the suite's name, a row per test in order, and a footer with counts and the total
time. A row tells a test's status, name, duration and, if it failed, why.  Everything is counted
from the tests themselves, whether or not the suite is closed.

A row is kept in its parts until it is printed, since in colours the parts are painted one by one.
Names are filled up to a column and never cut, so a long one moves what stands behind it.
-/

namespace RunRecord

open Terminal

/-! ## Status -/

/-- The status of a test as a table shows it. -/
inductive Status where
  | passed
  | failed
  | skipped
deriving DecidableEq, Repr

namespace Status

/-- A failure counts for more than the skip flag. -/
def ofTest (test : Test) : Status :=
  if test.isFailed then failed else if test.skip then skipped else passed

/-- The word for a status. -/
def label : Status → String
  | passed => "Passed"
  | failed => "Failed"
  | skipped => "Skipped"

/-- The word in its column. -/
def cell (status : Status) : String := Text.padRight 8 status.label

/-- The style of the word. -/
def style : Status → Style
  | passed => [.green]
  | failed => [.red]
  | skipped => [.dimmed]

end Status

/-! ## Rows

The plain row and the painted row have each a definition of their own.  That they show the same text
is a theorem. -/

/-- A row of the table. -/
structure Row where
  status : Status
  /-- The columns for name and duration. -/
  body : String
  /-- Why the test failed, if it did. -/
  detail : Option String
deriving DecidableEq, Repr

/-- An elapsed time with its unit. -/
def durationText (time : String) : String := if time = "" then "N/A" else time ++ "s"

/-- Why a test failed, as a row shows it. -/
def Failure.detail (failure : Failure) : String := s!"  ({failure.kind}: {failure.message})"

namespace Row

/-- The row of a test.  Everything in it comes from the test itself. -/
def ofTest (test : Test) : Row :=
  { status := .ofTest test,
    body := Text.padRight 40 test.name ++ " | " ++ Text.padLeft 10 (durationText test.timing.time),
    detail := test.failure.map Failure.detail }

/-- A row with its status and detail as given. -/
def assemble (row : Row) (status detail : String) : String :=
  "  - " ++ status ++ " | " ++ row.body ++ detail

/-- A row as plain text: the word in its column, and the detail if there is one. -/
def plain (row : Row) : String := row.assemble row.status.cell (row.detail.getD "")

/-- A row as it is printed, its status and its detail painted if colours are on.  Its other cells
are never painted. -/
def render (colours : Bool) (row : Row) : String :=
  row.assemble (paint colours row.status.style row.status.cell)
    ((row.detail.map (paint colours [.red])).getD "")

end Row

/-! ## The table -/

namespace Suite

/-- The line above the rows. -/
def header (suite : Suite) : String := s!"--- {suite.name} ---"

/-- The rows, in the order of the tests. -/
def rows (suite : Suite) : List Row := suite.tests.map Row.ofTest

/-- The line below the rows.  Its counts are made from the tests and not taken from the report. -/
def footer (suite : Suite) : String :=
  s!"{suite.tests.length} tests, {suite.failedCount} failed, total {durationText suite.timing.time}"

/-- Whether any test failed.  This is what the exit code goes by. -/
def anyFailed (suite : Suite) : Bool := 0 < suite.failedCount

/-- The style of the footer. -/
def footerStyle (suite : Suite) : Style :=
  if suite.anyFailed then [.bold, .red] else [.bold, .green]

/-- The lines of the table without colours. -/
def summaryLines (suite : Suite) : List String :=
  suite.header :: (suite.rows.map Row.plain ++ [suite.footer])

/-- The lines of the table as they are printed. -/
def printedLines (suite : Suite) (colours : Bool) : List String :=
  paint colours [.bold] suite.header ::
    (suite.rows.map (Row.render colours) ++ [paint colours suite.footerStyle suite.footer])

/-- The printed table: an empty line, then each line of the table. -/
def printSummary (suite : Suite) (colours : Bool) : String :=
  "\n" ++ String.join ((suite.printedLines colours).map (· ++ "\n"))

end Suite

end RunRecord
