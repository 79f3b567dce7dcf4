import RunRecord.Text.Unprintable
import RunRecord.Text.Extending

/-!
# Text/Quoted — a text between double quotes, as messages show it

Whatever a reader of a message could not see or would misread is spelled out: the quote and the
backslash, line breaks and tabs by their letters, and every other unprintable or extending character
by its code point in braces.

The purpose is that a user can tell exactly which text was found in a document, also where two texts
look the same.  The result is for reading and is never parsed again.
-/

namespace RunRecord.Quoted

/-- A code point in braces, in lower-case hexadecimal without leading zeros. -/
def codePoint (c : Char) : List Char :=
  ['\\', 'u', '\x7b'] ++ Nat.toDigits 16 c.toNat ++ ['\x7d']

/-- One character as it stands between the quotes. -/
def escapeChar (c : Char) : List Char :=
  if c = '\x00' then ['\\', '0']
  else if c = '\t' then ['\\', 't']
  else if c = '\r' then ['\\', 'r']
  else if c = '\n' then ['\\', 'n']
  else if c = '"' ∨ c = '\\' then ['\\', c]
  else if isExtending c || isUnprintable c then codePoint c
  else [c]

/-- A text in its quotes. -/
def quote (s : String) : String :=
  String.ofList ('"' :: (s.toList.flatMap escapeChar ++ ['"']))

end RunRecord.Quoted
