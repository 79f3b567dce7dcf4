import RunRecord.Command.Help
import RunRecord.Command.Render
import RunRecord.Command.Summary

/-!
# Command/Line — reading the command line

The first argument names a command or asks for help or the version.  A command's own arguments are
**options** with a value each, every option at most once and in any order.  The value is attached to
the option's word (`--input=a`) or letter (`-ia`, `-i=a`), or is the next argument, which then must
not look like an option.  A request for help is answered as soon as it is met.

Nothing is read from a file here and nothing is looked up in the environment: the arguments alone
decide what is asked for.  Arguments that do not fit ask for nothing, and then no command is run.
-/

namespace RunRecord

/-! ## The forms of an argument

What an argument looks like is told by its first characters, whatever stands before it.  An argument
that is a value is looked at in this way as well, since it must not look like an option. -/

/-- An argument by its form. -/
inductive Argument where
  /-- No option; `-` alone is none. -/
  | plain (text : String)
  /-- The mark `--`, behind which nothing is an option. -/
  | separator
  | long (word : String) (attached : Option String)
  | short (letter : Char) (attached : List Char)
deriving DecidableEq, Repr

/-- The form of an argument. -/
def Argument.ofString (s : String) : Argument :=
  match s.toList with
  | ['-', '-'] => .separator
  | '-' :: '-' :: cs =>
    .long (String.ofList (cs.takeWhile (· ≠ '=')))
      ((cs.dropWhile (· ≠ '=')).tail?.map String.ofList)
  | '-' :: letter :: attached => .short letter attached
  | _ => .plain s

/-! ## Options

What an argument means depends on the options that the command knows.  Words and letters are tables,
one row for each option. -/

/-- The options of the commands. -/
inductive OptionName where
  | input
  | config
  | format
  | name
deriving DecidableEq, Repr

namespace OptionName

/-- The word of an option. -/
def word : OptionName → String
  | input => "input"
  | config => "config"
  | format => "format"
  | name => "name"

/-- The letter of an option. -/
def letter : OptionName → Char
  | input => 'i'
  | config => 'c'
  | format => 'f'
  | name => 'n'

/-- Whether an option's value is a path, which cannot be empty. -/
def isPath : OptionName → Bool
  | input => true
  | config => true
  | format => false
  | name => false

end OptionName

/-- The options given so far and their values. -/
abbrev GivenOptions := List (OptionName × String)

/-- One more option; `none` if it is given already, or lacks a value that it needs. -/
def GivenOptions.give? (given : GivenOptions) (option : OptionName) (value : String) :
    Option GivenOptions :=
  if (given.lookup option).isSome || (option.isPath && value.isEmpty) then none
  else some ((option, value) :: given)

/-- What an argument of a command means. -/
inductive Meaning where
  | help
  | given (option : OptionName) (value : String)
  /-- An option whose value is the next argument. -/
  | awaiting (option : OptionName)

/-- The value attached to a letter; one equals sign between them does not count. -/
def attachedValue : List Char → List Char
  | '=' :: cs => cs
  | cs => cs

/-- What an argument means to a command that knows some options. -/
def Argument.meaning? (known : List OptionName) : Argument → Option Meaning
  | .plain _ => none
  | .separator => none
  | .long word attached =>
    if word = "help" ∧ attached = none then some .help
    else
      (known.find? (·.word = word)).map fun option =>
        match attached with
        | some value => .given option value
        | none => .awaiting option
  | .short letter attached =>
    if letter = 'h' then some .help
    else
      (known.find? (·.letter = letter)).map fun option =>
        if attached = [] then .awaiting option
        else .given option (String.ofList (attachedValue attached))

/-- The value that an argument gives to the option before it. -/
def Argument.value? : Argument → Option String
  | .plain text => some text
  | _ => none

/-- What the arguments of a command come to. -/
inductive Request where
  | help
  | options (given : GivenOptions)

/-- Reads the arguments of a command that knows some options, some being given already. -/
def readArguments (known : List OptionName) : List String → GivenOptions → Option Request
  | [], given => some (.options given)
  | arg :: args, given =>
    if arg = "--" then if args = [] then some (.options given) else none
    else
      match (Argument.ofString arg).meaning? known with
      | none => none
      | some .help => some .help
      | some (.given option value) => do
        let given ← given.give? option value
        readArguments known args given
      | some (.awaiting option) =>
        match args with
        | [] => none
        | next :: args => do
          let value ← (Argument.ofString next).value?
          let given ← given.give? option value
          readArguments known args given

/-! ## Commands

A command is asked for as a whole: the options given are put together once all arguments have been
read, so their order is forgotten. -/

/-- What the program can be asked to do. -/
inductive Command where
  | help (topic : HelpTopic)
  | version
  | render (options : RenderOptions)
  | summary (options : SummaryOptions)
deriving DecidableEq, Repr

namespace Command

/-- The render command with the options given; the input is required. -/
def renderWith? (given : GivenOptions) : Option Command := do
  let input ← given.lookup .input
  some (.render {
    input
    config := given.lookup .config
    format := given.lookup .format
    name := given.lookup .name })

/-- The summary command with the options given; the input is required. -/
def summaryWith? (given : GivenOptions) : Option Command := do
  let input ← given.lookup .input
  some (.summary { input })

/-- A command that takes options, from the arguments behind its name. -/
def withOptions? (topic : HelpTopic) (known : List OptionName)
    (make? : GivenOptions → Option Command) (args : List String) : Option Command :=
  match readArguments known args [] with
  | none => none
  | some .help => some (.help topic)
  | some (.options given) => make? given

/-- The topic that follows the help command. -/
def helpTopic? : List String → Option HelpTopic
  | [] => some .program
  | ["render"] => some .render
  | ["summary"] => some .summary
  | ["help"] => some .help
  | _ => none

/-- A first argument that names no command. -/
def ofOption? : Argument → Option Command
  | .long "help" none => some (.help .program)
  | .long "version" none => some .version
  | .short 'h' _ => some (.help .program)
  | .short 'V' _ => some .version
  | _ => none

/-- The command that the arguments ask for; `none` if they do not fit. -/
def ofArguments? : List String → Option Command
  | [] => none
  | first :: args =>
    if first = "render" then
      withOptions? .render [.input, .config, .format, .name] renderWith? args
    else if first = "summary" then withOptions? .summary [.input] summaryWith? args
    else if first = "help" then (helpTopic? args).map .help
    else ofOption? (Argument.ofString first)

end Command

end RunRecord
