import RunRecord.Command.Line

/-!
# Command/Program — a run of the program

A run reads the command line, does what it asks for, and comes to an **exit**: a code, the output,
and the messages.  Code 0 is success, 1 a failure (or a summary with a failed test), 2 a command
line that does not fit.

The log goes to the messages, in front of the error if there is one.  It holds what a user is to
know and not what only a developer is, and each line of it begins with a time, which is given from
outside like everything else that differs from run to run.

Of a command line that does not fit, the code and the empty output are told, and that no command is
run; the text that names the fault is left out (`Exit.misused`).
-/

namespace RunRecord

/-- What a run of the program comes to. -/
structure Exit where
  code : Nat
  /-- What is written to the standard output. -/
  output : String
  /-- What is written to the standard error output. -/
  messages : String
deriving DecidableEq, Repr

/-! ## Log lines -/

/-- Whether events are logged, and how their lines start and look. -/
structure Log where
  enabled : Bool
  colours : Bool
  /-- The time, which stands in front of a line. -/
  stamp : String

/-- Whether an event is logged: debugging ones never are. -/
def Log.admits (log : Log) (event : Event) : Bool := log.enabled && event.level != .debug

/-- The part of the program that an event comes from. -/
def Event.origin : Event → String
  | rendered .. => "suite_report::cli::commands::render"
  | _ => "suite_report"

/-- How the name of a level looks in colours. -/
def Level.style : Level → Terminal.Style
  | debug => [.blue]
  | info => [.green]
  | warn => [.yellow]

/-- A field of an event in a log line: its name, which is italic in colours, and its value. -/
def Log.field (log : Log) (name : String) (value : Event.Field) : String :=
  " " ++ Terminal.mark log.colours [.italic] name ++ Terminal.mark log.colours [.dimmed] "=" ++
    value.shown

/-- The log line of an event: time, level, origin, message and fields.  In colours, time and origin
are dimmed. -/
def Log.line (log : Log) (event : Event) : String :=
  let dim := Terminal.mark log.colours [.dimmed]
  let level := Terminal.mark log.colours event.level.style (Text.padLeft 5 event.level.name)
  dim log.stamp ++ " " ++ level ++ " " ++ dim event.origin ++ dim ":" ++ " " ++ event.message ++
    String.join (event.fields.map fun (name, value) => log.field name value) ++ "\n"

/-- The log lines of events. -/
def Log.lines (log : Log) (events : List Event) : String :=
  String.join ((events.filter log.admits).map log.line)

/-! ## Exits

An exit is everything that can be seen of a run from outside, files apart. -/

namespace Exit

/-- The exit of a run that only prints. -/
def success (output : String) : Exit := { code := 0, output, messages := "" }

/-- The exit of a command; `code` is the code for its result. -/
def ofOutcome {α : Type} (log : Log) (code : α → Nat) (outcome : Outcome α) : Exit :=
  let lines := log.lines outcome.events
  match outcome.result with
  | .ok a => { code := code a, output := outcome.printed, messages := lines }
  | .error e =>
    { code := 1, output := outcome.printed, messages := lines ++ "Error: " ++ e.message ++ "\n" }

end Exit

/-! ## Runs -/

namespace Command

variable {m : Type → Type} [Monad m]

/-- Does what a command asks for. -/
def run (command : Command) (files : FileAccess m) (colours : Bool) (log : Log) : m Exit := do
  match command with
  | .help topic => return .success (topic.text colours)
  | .version => return .success versionText
  | .render options =>
    let outcome ← options.run files colours
    return .ofOutcome log (fun _ => 0) outcome
  | .summary options =>
    let outcome ← options.run files colours
    return .ofOutcome log (fun allPassed => if allPassed then 0 else 1) outcome

end Command

/-- The exit for a command line that does not fit.  The help of the program is shown, which is what
an empty command line comes to.  Every other fault has a text of its own that names it; these texts
are not modelled, and the help stands for all of them. -/
def Exit.misused (colours : Bool) : Exit :=
  { code := 2, output := "", messages := HelpTopic.program.text colours }

/-- Runs the program with the given arguments. -/
def runProgram {m : Type → Type} [Monad m] (files : FileAccess m) (colours : Bool) (log : Log)
    (arguments : List String) : m Exit := do
  match Command.ofArguments? arguments with
  | none => return .misused colours
  | some command => command.run files colours log

end RunRecord
