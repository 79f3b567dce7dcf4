/-!
# Text/Blank — the characters that count as white space

The Unicode property `White_Space`: 25 characters, of which six are ASCII.

Blank characters matter where an instant is read, as they may stand around its numbers and marks.
None of them has to be there.
-/

namespace RunRecord

/-- Whether a character has the Unicode property `White_Space`. -/
def isBlank (c : Char) : Bool :=
  let n := c.toNat
  (0x09 ≤ n && n ≤ 0x0D) || n == 0x20 || n == 0x85 || n == 0xA0 || n == 0x1680 ||
    (0x2000 ≤ n && n ≤ 0x200A) || n == 0x2028 || n == 0x2029 || n == 0x202F || n == 0x205F ||
    n == 0x3000

/-- A text without its leading blanks. -/
def dropBlanks (cs : List Char) : List Char := cs.dropWhile isBlank

end RunRecord
