import RunRecord.Format

/-!
# Event — what the library reports to a log

Each event has a level, a fixed message and named fields.

What an event is called and how much it matters is fixed by its kind, so a log can be searched for
it.  How a line of a log is laid out is not decided here but by the program, in `Command/Program`.
-/

namespace RunRecord

/-- The timed kinds of node. -/
inductive NodeKind where
  | suite
  | test
  | operation
deriving DecidableEq, Repr

/-- The word for a kind of node in messages. -/
def NodeKind.name : NodeKind → String
  | suite => "suite"
  | test => "test"
  | operation => "operation"

/-- How much an event matters. -/
inductive Level where
  | debug
  | info
  | warn
deriving DecidableEq, Repr

/-- The name of a level. -/
def Level.name : Level → String
  | debug => "DEBUG"
  | info => "INFO"
  | warn => "WARN"

/-- Something worth noting that happened.  Everything the library has to say about itself is one of
these. -/
inductive Event where
  /-- A node that has its end was asked to end again. -/
  | endedAgain (node : NodeKind) (name : String)
  /-- A suite was closed. -/
  | closed (suite : String) (tests failures : Nat) (time : String)
  /-- A report was written to a file. -/
  | written (suite path : String) (bytes : Nat)
  /-- The render command has done its work. -/
  | rendered (suite : String) (format : Format) (path : String)
deriving DecidableEq, Repr

namespace Event

/-- The value of a field of an event. -/
inductive Field where
  | text (value : String)
  | number (value : Nat)
deriving DecidableEq, Repr

/-- A field's value as it stands in a log line. -/
def Field.shown : Field → String
  | .text value => value
  | .number value => toString value

/-- How much an event matters. -/
def level : Event → Level
  | endedAgain .. => .warn
  | closed .. => .debug
  | written .. => .debug
  | rendered .. => .info

/-- The message of an event. -/
def message : Event → String
  | endedAgain .. => "end time already recorded, ignoring repeated call"
  | closed .. => "suite report closed"
  | written .. => "report written"
  | rendered .. => "rendered report"

/-- The fields of an event, in order.  A reader of the log tells by them which node or file is
meant. -/
def fields : Event → List (String × Field)
  | endedAgain node name => [("node", .text node.name), ("name", .text name)]
  | closed suite tests failures time =>
    [("suite", .text suite), ("tests", .number tests), ("failures", .number failures),
      ("time", .text time)]
  | written suite path bytes =>
    [("suite", .text suite), ("path", .text path), ("bytes", .number bytes)]
  | rendered suite format path =>
    [("suite", .text suite), ("format", .text format.name), ("path", .text path)]

end Event

end RunRecord
