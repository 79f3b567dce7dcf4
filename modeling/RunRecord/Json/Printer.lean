import RunRecord.Json.Basic
import RunRecord.Text.Digits

/-!
# Json/Printer — writing JSON values

A value is written in one of two **layouts**: compact, with no white space at all, or indented, with
every element and member on a line of its own, two spaces deeper than what holds it.  The layouts
differ in white space only.

Only what has to be is escaped: quotes, backslashes and control characters.  All other characters
are written as they are, so a document of a text in any script can be read as it stands.
-/

namespace RunRecord.Json

open Digits

/-! ## Layouts -/

/-- Where white space goes. -/
inductive Layout where
  | compact
  | indented
deriving DecidableEq, Repr

namespace Layout

/-- The white space before an element at a depth of nesting, and before a closing bracket. -/
def newline (layout : Layout) (depth : Nat) : List Char :=
  match layout with
  | compact => []
  | indented => '\n' :: List.replicate (2 * depth) ' '

/-- What stands between a key and its value. -/
def colon : Layout → List Char
  | compact => [':']
  | indented => [':', ' ']

end Layout

/-! ## Strings -/

/-- A hexadecimal digit in lower case. -/
def hexDigit (n : Nat) : Char := Nat.digitChar (n % 16)

/-- One character between the quotes of a string: quotes, backslashes and control characters are
escaped, nothing else is. -/
def escapeChar (c : Char) : List Char :=
  if c = '"' then ['\\', '"']
  else if c = '\\' then ['\\', '\\']
  else if c = '\x08' then ['\\', 'b']
  else if c = '\t' then ['\\', 't']
  else if c = '\n' then ['\\', 'n']
  else if c = '\x0C' then ['\\', 'f']
  else if c = '\r' then ['\\', 'r']
  else if c.toNat < 0x20 then
    ['\\', 'u', '0', '0', hexDigit (c.toNat / 16), hexDigit c.toNat]
  else [c]

/-- A string between its quotes. -/
def quoted (s : String) : List Char := '"' :: (s.toList.flatMap escapeChar ++ ['"'])

/-! ## Values -/

/-- An integer in decimal. -/
def integerText (n : Int) : List Char :=
  if n < 0 then '-' :: digits n.natAbs else digits n.natAbs

/-- A number, with an exponent unless that is zero. -/
def numberText (significand exponent : Int) : List Char :=
  if exponent = 0 then integerText significand
  else integerText significand ++ 'e' :: integerText exponent

mutual

/-- A value at a depth of nesting. -/
def write (layout : Layout) (depth : Nat) : Json → List Char
  | .null => ['n', 'u', 'l', 'l']
  | .boolean true => ['t', 'r', 'u', 'e']
  | .boolean false => ['f', 'a', 'l', 's', 'e']
  | .number significand exponent => numberText significand exponent
  | .string s => quoted s
  | .array [] => ['[', ']']
  | .array (v :: vs) =>
    '[' :: (layout.newline (depth + 1) ++ write layout (depth + 1) v ++
      writeElements layout (depth + 1) vs ++ layout.newline depth ++ [']'])
  | .object [] => ['\x7b', '\x7d']
  | .object (m :: ms) =>
    '\x7b' :: (layout.newline (depth + 1) ++ writeMember layout (depth + 1) m ++
      writeMembers layout (depth + 1) ms ++ layout.newline depth ++ ['\x7d'])

/-- The elements of an array after the first, each behind a comma. -/
def writeElements (layout : Layout) (depth : Nat) : List Json → List Char
  | [] => []
  | v :: vs =>
    ',' :: (layout.newline depth ++ write layout depth v ++ writeElements layout depth vs)

/-- A member of an object. -/
def writeMember (layout : Layout) (depth : Nat) : String × Json → List Char
  | (key, v) => quoted key ++ layout.colon ++ write layout depth v

/-- The members of an object after the first, each behind a comma. -/
def writeMembers (layout : Layout) (depth : Nat) : List (String × Json) → List Char
  | [] => []
  | m :: ms =>
    ',' :: (layout.newline depth ++ writeMember layout depth m ++ writeMembers layout depth ms)

end

/-- A value as a document. -/
def render (layout : Layout) (v : Json) : List Char := write layout 0 v

end RunRecord.Json
