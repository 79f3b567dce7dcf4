import RunRecord.Decimal.Shortest
import RunRecord.Text.Quoted
import RunRecord.Text.Utf8

/-!
# Json/Fault — why a document cannot be read, and where

A **cause** says what is wrong, a **fault** adds how many bytes were still unread when it was
noticed. Together with the document that number gives the line and the column of the fault.

Which of several things is wrong with a document is part of what a user sees, so causes are data and
every wording is a function of one.  The place is kept as a number of unread bytes because a reader
knows what it has left and not where it is.
-/

namespace RunRecord.Json

/-! ## Causes -/

/-- What stood where something else was expected. -/
inductive Found where
  | null
  | boolean (value : Bool)
  | integer (value : Int)
  | double (negative : Bool) (magnitude : Rat)
  | text (value : String)
  | array
  | object

/-- What was expected in its place. -/
inductive Expected where
  | record (name : String)
  | array
  | text
  | boolean
  | count
  | nothing
  | path
  | instant

/-- The way a document breaks the grammar. -/
inductive Malformed where
  | noValue
  | noLiteral
  | badNumber
  | hugeNumber
  | noColon
  | noCommaOrBrace
  | noCommaOrBracket
  | trailingComma
  | trailingCharacters
  | keyNotText
  | badEscape
  | loneSurrogate
  | cutEscape
  | badCodePoint
  | controlCharacter
deriving DecidableEq

/-- What a document breaks off in. -/
inductive Cut where
  | value
  | text
  | object
  | array
deriving DecidableEq

/-- Why a document cannot be read. -/
inductive Cause where
  | missingMember (name : String)
  | repeatedMember (name : String)
  | wrongType (found : Found) (expected : Expected)
  | negativeCount (value : Int)
  | tooShort (length : Nat) (record : String) (size : Nat)
  | unknownChoice (name : String) (choices : List String)
  | badInstant (message : String)
  | malformed (what : Malformed)
  | cut (inside : Cut)

/-- The three categories of causes: data that does not fit, broken grammar, and a document cut
short. -/
inductive Category where
  | data
  | malformed
  | cut
deriving DecidableEq, Repr

/-- The name of a category. -/
def Category.name : Category → String
  | data => "data"
  | malformed => "syntax"
  | cut => "eof"

/-- The category of a cause. -/
def Cause.category : Cause → Category
  | .malformed _ => .malformed
  | .cut _ => .cut
  | _ => .data

/-! ## Wording

The wordings are those a user of the program knows.  They are put together from what was found and
what was expected. -/

/-- A text between grave accents. -/
def ticked (s : String) : String := "\x60" ++ s ++ "\x60"

/-- The wording of what was found. -/
def Found.message : Found → String
  | null => "null"
  | boolean value => "boolean " ++ ticked (if value then "true" else "false")
  | integer value => "integer " ++ ticked (toString value)
  | double negative magnitude =>
    "floating point " ++ ticked (String.ofList (doubleText negative magnitude))
  | text value => "string " ++ Quoted.quote value
  | array => "sequence"
  | object => "map"

/-- The wording of what was expected. -/
def Expected.message : Expected → String
  | record name => "struct " ++ name
  | array => "a sequence"
  | text => "a string"
  | boolean => "a boolean"
  | count => "usize"
  | nothing => "unit"
  | path => "path string"
  | instant => "an RFC 3339 formatted date and time string"

/-- The wording of a breach of the grammar. -/
def Malformed.message : Malformed → String
  | noValue => "expected value"
  | noLiteral => "expected ident"
  | badNumber => "invalid number"
  | hugeNumber => "number out of range"
  | noColon => "expected " ++ ticked ":"
  | noCommaOrBrace => "expected " ++ ticked "," ++ " or " ++ ticked "\x7d"
  | noCommaOrBracket => "expected " ++ ticked "," ++ " or " ++ ticked "]"
  | trailingComma => "trailing comma"
  | trailingCharacters => "trailing characters"
  | keyNotText => "key must be a string"
  | badEscape => "invalid escape"
  | loneSurrogate => "lone leading surrogate in hex escape"
  | cutEscape => "unexpected end of hex escape"
  | badCodePoint => "invalid unicode code point"
  | controlCharacter => "control character (\\u0000-\\u001F) found while parsing a string"

/-- The wording of what a document breaks off in. -/
def Cut.message : Cut → String
  | value => "a value"
  | text => "a string"
  | object => "an object"
  | array => "a list"

/-- A list of choices: two are joined by "or", more follow "one of". -/
def choicesMessage : List String → String
  | [] => "there are no variants"
  | [a] => "expected " ++ ticked a
  | [a, b] => "expected " ++ ticked a ++ " or " ++ ticked b
  | choices => "expected one of " ++ ", ".intercalate (choices.map ticked)

/-- The wording of a cause. -/
def Cause.message : Cause → String
  | missingMember name => "missing field " ++ ticked name
  | repeatedMember name => "duplicate field " ++ ticked name
  | wrongType found expected => s!"invalid type: {found.message}, expected {expected.message}"
  | negativeCount value =>
    "invalid value: integer " ++ ticked (toString value) ++ ", expected usize"
  | tooShort length record size =>
    s!"invalid length {length}, expected struct {record} with {size} elements"
  | unknownChoice name choices =>
    "unknown variant " ++ ticked name ++ ", " ++ choicesMessage choices
  | badInstant message => message
  | malformed what => what.message
  | cut inside => "EOF while parsing " ++ inside.message

/-! ## Positions -/

/-- A cause and the number of bytes left unread when it was noticed. -/
structure Fault where
  cause : Cause
  unread : Nat

/-- The line and the column after some bytes: lines count from 1, columns count the bytes since the
last line feed. -/
def position (read : Bytes) : Nat × Nat :=
  (read.count 0x0A + 1, (read.reverse.takeWhile (· != 0x0A)).length)

/-- A cause with its line and column. -/
structure Error where
  cause : Cause
  line : Nat
  column : Nat

/-- The fault of a document as an error with its place. -/
def Fault.toError (fault : Fault) (document : Bytes) : Error :=
  let place := position (document.take (document.length - fault.unread))
  { cause := fault.cause, line := place.1, column := place.2 }

/-- The wording of an error. -/
def Error.message (e : Error) : String := s!"{e.cause.message} at line {e.line} column {e.column}"

end RunRecord.Json
