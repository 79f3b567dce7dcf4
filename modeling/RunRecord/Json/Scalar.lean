import RunRecord.Instant.Reader
import RunRecord.Json.Number
import RunRecord.Json.Text

/-!
# Json/Scalar — reading single values of a known type

Each reader here expects one kind of value.  A value of another kind is read all the same, as far as
it is a scalar, so that the message can name it and its own faults come first.

So `[` in the place of a string is reported as a sequence, and a number with two points as a bad
number.  The difference matters to the user alone; neither is read.
-/

namespace RunRecord.Json

open Reader

variable {α : Type}

/-! ## The start of a value -/

/-- Goes on according to the first byte of a value, which is not taken. -/
def value (f : UInt8 → Reader α) : Reader α :=
  lookAhead fun
    | none => failAtNext (.cut .value)
    | some b => f b

/-- The rest of a literal such as `null`, from behind its first letter. -/
def literal : (rest : Bytes) → Reader Unit
  | [] => pure ()
  | b :: bs => do
    match ← take with
    | none => fail (.cut .value)
    | some c => if c = b then literal bs else fail (.malformed .noLiteral)

/-- What follows the first letter of `null`. -/
def restOfNull : Bytes := [0x75, 0x6C, 0x6C]

/-- What follows the first letter of `true`. -/
def restOfTrue : Bytes := [0x72, 0x75, 0x65]

/-- What follows the first letter of `false`. -/
def restOfFalse : Bytes := [0x61, 0x6C, 0x73, 0x65]

/-! ## Values of the wrong kind

A value of the wrong kind is named by what it is.  To find that out, a scalar has to be read to its
end, while an array or object is known by its first byte. -/

/-- Refuses the value that starts with `b` because something else was expected.  The value is read
as far as is needed to name it, and any fault in it is reported instead. -/
def reject (expected : Expected) (b : UInt8) : Reader α := do
  if b = 0x6E then do
    drop
    literal restOfNull
    fail (.wrongType .null expected)
  else if b = 0x74 then do
    drop
    literal restOfTrue
    fail (.wrongType (.boolean true) expected)
  else if b = 0x66 then do
    drop
    literal restOfFalse
    fail (.wrongType (.boolean false) expected)
  else if b = 0x2D then do
    drop
    let n ← numberAfterSign true
    fail (.wrongType n.found expected)
  else if isDigit b then do
    let n ← numberAfterSign false
    fail (.wrongType n.found expected)
  else if b = quoteByte then do
    drop
    let s ← text
    fail (.wrongType (.text s) expected)
  else if b = 0x5B then fail (.wrongType .array expected)
  else if b = 0x7B then fail (.wrongType .object expected)
  else failAtNext (.malformed .noValue)

/-! ## Values of the right kind -/

/-- A string, `expected` naming what it is for. -/
def textFor (expected : Expected) : Reader String :=
  value fun b =>
    if b = quoteByte then do
      drop
      text
    else reject expected b

/-- A string. -/
def textValue : Reader String := textFor .text

/-- The name of a file or directory. -/
def pathValue : Reader String := textFor .path

/-- An instant, written as a string.  The string is read first, and a text that is no instant is
reported behind it. -/
def instantValue : Reader Instant := do
  let s ← textFor .instant
  match Instant.read s.toList with
  | .ok t => pure t
  | .error e => fail (.badInstant e.message)

/-- A boolean. -/
def booleanValue : Reader Bool :=
  value fun b =>
    if b = 0x74 then do
      drop
      literal restOfTrue
      pure true
    else if b = 0x66 then do
      drop
      literal restOfFalse
      pure false
    else reject .boolean b

/-- A number as a count.  Negative numbers are refused for their value, and doubles for their type.
-/
def asCount : Number → Reader Nat
  | .natural n => pure n
  | .negative n => fail (.negativeCount (-n))
  | .double negative magnitude => fail (.wrongType (.double negative magnitude) .count)

/-- A natural number below 2⁶⁴. -/
def countValue : Reader Nat :=
  value fun b =>
    if b = 0x2D then do
      drop
      let n ← numberAfterSign true
      asCount n
    else if isDigit b then do
      let n ← numberAfterSign false
      asCount n
    else reject .count b

/-- The literal `null`, where nothing else may stand. -/
def nullValue : Reader Unit :=
  value fun b =>
    if b = 0x6E then do
      drop
      literal restOfNull
    else reject .nothing b

/-- A value, or `null` for none.  Only the first byte is looked at to tell the two apart. -/
def optional (x : Reader α) : Reader (Option α) :=
  lookAhead fun b =>
    if b = some 0x6E then do
      drop
      literal restOfNull
      pure none
    else do
      let a ← x
      pure (some a)

/-! ## One of several names -/

/-- One of several names, from its opening quote on. -/
def choiceName (ofName? : String → Option α) (choices : List String) : Reader α := do
  drop
  let s ← text
  match ofName? s with
  | some a => pure a
  | none => fail (.unknownChoice s choices)

/-- One of several names, as the only key of an object. -/
def choiceKey (ofName? : String → Option α) (choices : List String) : Reader α :=
  lookAhead fun
    | none => failAtNext (.cut .object)
    | some b =>
      if b = quoteByte then choiceName ofName? choices
      else if b = 0x7D then failAtNext (.malformed .noValue)
      else failAtNext (.malformed .keyNotText)

/-- The colon between a key and its value. -/
def colon : Reader Unit :=
  lookAhead fun
    | none => failAtNext (.cut .object)
    | some b =>
      if b = 0x3A then do
        drop
      else failAtNext (.malformed .noColon)

/-- One of several names, given as a string or as an object whose one key has it and whose one value
is `null`. -/
def choiceValue (ofName? : String → Option α) (choices : List String) : Reader α :=
  value fun b =>
    if b = quoteByte then choiceName ofName? choices
    else if b = 0x7B then do
      drop
      let a ← choiceKey ofName? choices
      colon
      nullValue
      lookAhead fun
        | none => fail (.cut .object)
        | some c =>
          if c = 0x7D then do
            drop
            pure a
          else fail (.malformed .noValue)
    else failAtNext (.malformed .noValue)

end RunRecord.Json
