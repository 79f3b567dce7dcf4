import RunRecord.Toml.Token

/-!
# Toml/Text — what quoted pieces stand for

Basic strings have escapes, literal ones stand for themselves.  Line breaks are kept as they are
written, except one directly behind three opening quotes, and except those that a backslash hides.
Which character makes a piece unsound does not matter here.

The pieces were told by their quotes only, so whether what stands between these is a sound string is
decided here.  Multi-line strings differ from those on one line in what may stand in them and in how
a backslash at the end of a line is read.
-/

namespace RunRecord.Toml

/-! ## Characters -/

/-- Whether a character may stand in a comment or a string: no control character but the tab. -/
def isPlain (c : Char) : Bool := c = '\t' || (0x20 ≤ c.toNat && c.toNat ≠ 0x7F)

/-- The value of a hexadecimal digit. -/
def hexValue? (c : Char) : Option Nat :=
  let n := c.toNat
  if 0x30 ≤ n ∧ n ≤ 0x39 then some (n - 0x30)
  else if 0x41 ≤ n ∧ n ≤ 0x46 then some (n - 0x37)
  else if 0x61 ≤ n ∧ n ≤ 0x66 then some (n - 0x57)
  else none

/-- The number that hexadecimal digits stand for. -/
def hexNumber? : List Char → (soFar : Nat) → Option Nat
  | [], n => some n
  | c :: cs, n => do hexNumber? cs (n * 16 + (← hexValue? c))

/-- The character with the code point that hexadecimal digits stand for. -/
def hexChar? (cs : List Char) : Option Char := do
  let n ← hexNumber? cs 0
  if n.isValidChar then some (Char.ofNat n) else none

/-! ## Line breaks -/

/-- What follows a line break, if a text starts with one. -/
def lineBreak? : List Char → Option (List Char)
  | '\n' :: cs => some cs
  | '\r' :: '\n' :: cs => some cs
  | _ => none

/-- A text without the line break at its start, if there is one. -/
def dropLineBreak (cs : List Char) : List Char := (lineBreak? cs).getD cs

/-- A text without its leading white space, line breaks included. -/
def dropBreaks : List Char → List Char
  | '\n' :: cs => dropBreaks cs
  | '\r' :: '\n' :: cs => dropBreaks cs
  | ' ' :: cs => dropBreaks cs
  | '\t' :: cs => dropBreaks cs
  | cs => cs

theorem dropBreaks_length_le (cs : List Char) : (dropBreaks cs).length ≤ cs.length := by
  fun_induction dropBreaks cs with
  | case5 => exact Nat.le_refl _
  | case1 _ ih | case2 _ ih | case3 _ ih | case4 _ ih => simp only [List.length_cons]; omega

/-! ## Escapes -/

/-- The character that a letter behind a backslash stands for. -/
def shortEscape? (c : Char) : Option Char :=
  if c = '"' ∨ c = '\\' then some c
  else if c = 'b' then some '\x08'
  else if c = 't' then some '\t'
  else if c = 'n' then some '\n'
  else if c = 'f' then some '\x0C'
  else if c = 'r' then some '\r'
  else if c = 'e' then some '\x1b'
  else none

/-- The number of hexadecimal digits that a letter behind a backslash asks for. -/
def escapeWidth? (c : Char) : Option Nat :=
  if c = 'x' then some 2
  else if c = 'u' then some 4
  else if c = 'U' then some 8
  else none

/-- The character that stands behind a backslash, and the text behind it. -/
def escape : List Char → Option (Char × List Char)
  | [] => none
  | c :: cs =>
    match shortEscape? c, escapeWidth? c with
    | some d, _ => some (d, cs)
    | none, some width =>
      if (cs.take width).length = width then do
        let d ← hexChar? (cs.take width)
        some (d, cs.drop width)
      else none
    | none, none => none

theorem escape_length_lt {cs r : List Char} {c : Char} (h : escape cs = some (c, r)) :
    r.length < cs.length := by
  match cs with
  | [] => cases h
  | d :: cs =>
    simp only [escape] at h
    split at h
    · cases h; simp
    · split at h
      · obtain ⟨_, _, h⟩ := Option.bind_eq_some_iff.1 h
        cases h
        simp only [List.length_drop, List.length_cons]
        omega
      · cases h
    · cases h

/-- What the text of a basic string stands for.  A backslash at the end of a line hides the line
break and all white space behind it. -/
def unescape (cs : List Char) : Option (List Char) :=
  match cs with
  | [] => some []
  | '\\' :: r =>
    if (lineBreak? (r.dropWhile isGap)).isSome then unescape (dropBreaks r)
    else
      match _h : escape r with
      | none => none
      | some (c, r) => (unescape r).map (c :: ·)
  | '\r' :: '\n' :: r => (unescape r).map ('\r' :: '\n' :: ·)
  | c :: r => if isPlain c ∨ c = '\n' then (unescape r).map (c :: ·) else none
termination_by cs.length
decreasing_by
  · have := dropBreaks_length_le r
    simp only [List.length_cons]
    omega
  · have := escape_length_lt _h
    simp only [List.length_cons]
    omega
  · simp only [List.length_cons]; omega
  · simp

/-- Whether the text of a literal string is sound. -/
def isLiteral : List Char → Bool
  | [] => true
  | '\r' :: '\n' :: cs => isLiteral cs
  | c :: cs => (isPlain c || c = '\n') && isLiteral cs

/-! ## Strings -/

/-- The string that a piece stands for, if it is quoted and sound. -/
def Piece.string? (piece : Piece) : Option String :=
  let text := dropLineBreak piece.text
  if !piece.isClosed then none
  else
    match piece.form with
    | .bare => none
    | .basic => (unescape piece.text).map String.ofList
    | .literal => if isLiteral piece.text then some (String.ofList piece.text) else none
    | .longBasic => (unescape text).map String.ofList
    | .longLiteral => if isLiteral text then some (String.ofList text) else none

end RunRecord.Toml
