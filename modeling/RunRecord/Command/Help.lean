import RunRecord.Terminal

/-!
# Command/Help — the help texts

The program has a page of its own and one for each command.  A page says what its topic does, how it
is called, and what its sections list: terms with their meanings, which start in one column, two
spaces behind the longest term.  In colours, headings are bold and underlined, and what is typed as
it stands is bold.

The pages are data and one function lays them out, so that a column or a heading is decided on in
one place.  Nothing here is asked by the parser of the command line: which options there are is told
by `Command/Line`.
-/

namespace RunRecord

/-! ## Pieces of a page -/

/-- What a piece of a page is for. -/
inductive HelpRole where
  | heading
  /-- To be typed as it stands. -/
  | literal
  /-- To be filled in, or nothing in particular. -/
  | plain
deriving DecidableEq, Repr

/-- How a role looks in colours. -/
def HelpRole.style : HelpRole → Terminal.Style
  | heading => [.bold, .underlined]
  | literal => [.bold]
  | plain => []

/-- A piece of a page. -/
structure HelpPiece where
  role : HelpRole
  text : String
deriving DecidableEq, Repr

namespace HelpPiece

/-- A heading, with its colon. -/
def heading (name : String) : HelpPiece := ⟨.heading, name ++ ":"⟩

/-- A piece that is typed as it stands. -/
def literal (text : String) : HelpPiece := ⟨.literal, text⟩

/-- A piece that has no look of its own. -/
def plain (text : String) : HelpPiece := ⟨.plain, text⟩

/-- A piece as it is shown. -/
def shown (colours : Bool) (piece : HelpPiece) : String :=
  Terminal.mark colours piece.role.style piece.text

end HelpPiece

/-- Pieces as they are shown next to each other. -/
def shownPieces (colours : Bool) (pieces : List HelpPiece) : String :=
  String.join (pieces.map (·.shown colours))

/-! ## Entries and sections -/

/-- A term and what it means. -/
structure HelpEntry where
  term : List HelpPiece
  meaning : String
deriving DecidableEq, Repr

namespace HelpEntry

/-- The number of characters of the term. -/
def width (entry : HelpEntry) : Nat := (String.join (entry.term.map (·.text))).length

/-- The line of an entry whose meaning starts two spaces behind a column of the given width. -/
def line (colours : Bool) (column : Nat) (entry : HelpEntry) : String :=
  "  " ++ shownPieces colours entry.term ++
    String.ofList (List.replicate (column - entry.width + 2) ' ') ++ entry.meaning

/-- The entry of a command. -/
def command (name meaning : String) : HelpEntry := { term := [.literal name], meaning }

/-- The entry of an option with a short and a long name; `value` names its value, if it has one. -/
def option (letter word value meaning : String) : HelpEntry :=
  let names := [.literal ("-" ++ letter), .plain ", ", .literal ("--" ++ word)]
  { term := if value = "" then names else names ++ [.plain (" <" ++ value ++ ">")], meaning }

end HelpEntry

/-- A heading with entries below it. -/
structure HelpSection where
  name : String
  entries : List HelpEntry
deriving DecidableEq, Repr

/-- The lines of a section. -/
def HelpSection.lines (colours : Bool) (part : HelpSection) : List String :=
  let column := (part.entries.map HelpEntry.width).foldl max 0
  (HelpPiece.heading part.name).shown colours :: part.entries.map (HelpEntry.line colours column)

/-! ## Pages -/

/-- What help can be asked for. -/
inductive HelpTopic where
  | program
  | render
  | summary
  | help
deriving DecidableEq, Repr

namespace HelpTopic

/-- What the topic does. -/
def purpose : HelpTopic → String
  | program => "Render and summarize recorded test-suite reports"
  | render => "Re-encode a JSON suite report as JSON or XML"
  | summary => "Print a per-test summary of a JSON suite report"
  | help => "Print this message or the help of the given subcommand(s)"

/-- How the topic is called. -/
def usage : HelpTopic → List HelpPiece
  | program => [.literal "suite-report", .plain " <COMMAND>"]
  | render =>
    [.literal "suite-report render", .plain " [OPTIONS] ", .literal "--input", .plain " <INPUT>"]
  | summary => [.literal "suite-report summary", .plain " ", .literal "--input", .plain " <INPUT>"]
  | help => [.literal "suite-report help", .plain " [COMMAND]..."]

/-- The option that asks for help. -/
def helpOption : HelpEntry := .option "h" "help" "" "Print help"

/-- The option that names the report to read. -/
def inputOption : HelpEntry := .option "i" "input" "INPUT" "Path to a JSON suite report"

/-- What the page of the topic lists. -/
def sections : HelpTopic → List HelpSection
  | program =>
    [{ name := "Commands"
       entries :=
        [.command "render" render.purpose, .command "summary" summary.purpose,
          .command "help" help.purpose] },
      { name := "Options"
        entries := [helpOption, .option "V" "version" "" "Print version"] }]
  | render =>
    [{ name := "Options"
       entries :=
        [inputOption,
          .option "c" "config" "CONFIG" "Report configuration file (TOML)",
          .option "f" "format" "FORMAT"
            "Output format: JSON or XML (overrides the config file)",
          .option "n" "name" "NAME" "Base name of the output file, without extension",
          helpOption] }]
  | summary => [{ name := "Options", entries := [inputOption, helpOption] }]
  | help =>
    [{ name := "Arguments"
       entries :=
        [{ term := [.plain "[COMMAND]..."], meaning := "Print help for the subcommand(s)" }] }]

/-- The lines of the page on a topic. -/
def lines (colours : Bool) (topic : HelpTopic) : List String :=
  let usage := (HelpPiece.heading "Usage").shown colours ++ " " ++ shownPieces colours topic.usage
  [topic.purpose, "", usage] ++ topic.sections.flatMap fun part => "" :: part.lines colours

/-- The page on a topic; every line ends in a line feed. -/
def text (colours : Bool) (topic : HelpTopic) : String :=
  String.join ((topic.lines colours).map (· ++ "\n"))

end HelpTopic

/-- What the program says about its version. -/
def versionText : String := "suite-report 0.1.0\n"

end RunRecord
