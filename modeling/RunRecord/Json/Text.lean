import RunRecord.Json.Reader

/-!
# Json/Text — reading strings

A string is read as bytes first, escapes being replaced by the bytes of what they stand for; the
whole is then read as UTF-8.  Characters beyond U+FFFF are escaped as a pair of surrogates, and a
surrogate outside a pair is refused.

Reading bytes first has a consequence for messages: a bad escape is found before text that is no
UTF-8, even if it comes later.  Passing over a string, in `Json/Skip`, looks at neither pairs nor
UTF-8.
-/

namespace RunRecord.Json

open Reader

/-! ## Bytes of the grammar -/

/-- The byte `"`. -/
def quoteByte : UInt8 := 0x22

/-- The byte `\`. -/
def backslash : UInt8 := 0x5C

/-- Whether a byte is a control character, which no string may hold unescaped. -/
def isControl (b : UInt8) : Bool := b < 0x20

/-! ## Escapes -/

/-- The value of a hexadecimal digit. -/
def hexValue? (b : UInt8) : Option Nat :=
  let n := b.toNat
  if 0x30 ≤ n ∧ n ≤ 0x39 then some (n - 0x30)
  else if 0x41 ≤ n ∧ n ≤ 0x46 then some (n - 0x37)
  else if 0x61 ≤ n ∧ n ≤ 0x66 then some (n - 0x57)
  else none

/-- The value of four hexadecimal digits. -/
def hexValue4? (a b c d : UInt8) : Option Nat := do
  return (((← hexValue? a) * 16 + (← hexValue? b)) * 16 + (← hexValue? c)) * 16 + (← hexValue? d)

/-- Four hexadecimal digits: four bytes are taken whatever they are. -/
def hex4 : Reader Nat where
  run
    | a :: b :: c :: d :: r =>
      match hexValue4? a b c d with
      | some n => .ok (n, r)
      | none => .error { cause := .malformed .badEscape, unread := r.length }
    | _ => .error { cause := .cut .text, unread := 0 }
  suffix {s r n} h := by
    split at h
    · split at h
      · cases h
        exact ⟨[_, _, _, _], rfl⟩
      · cases h
    · cases h

/-- Whether a code unit opens a surrogate pair. -/
def isLeading (n : Nat) : Bool := 0xD800 ≤ n && n ≤ 0xDBFF

/-- Whether a code unit closes a surrogate pair. -/
def isTrailing (n : Nat) : Bool := 0xDC00 ≤ n && n ≤ 0xDFFF

/-- The code point of a surrogate pair. -/
def joinSurrogates (leading trailing : Nat) : Nat :=
  (leading - 0xD800) * 0x400 + (trailing - 0xDC00) + 0x10000

/-- A byte that has to follow the first half of a surrogate pair. -/
def pairByte (expected : UInt8) : Reader Unit := do
  match ← take with
  | none => fail (.cut .text)
  | some b => if b = expected then pure () else fail (.malformed .cutEscape)

/-- What follows `\u`.  A first half has to be followed by a second one, with its own `\u`. -/
def unicodeEscape : Reader Bytes := do
  let n ← hex4
  if isTrailing n then fail (.malformed .loneSurrogate)
  else if isLeading n then do
    pairByte backslash
    pairByte 0x75
    let m ← hex4
    if isTrailing m then pure (Utf8.encodeCode (joinSurrogates n m))
    else fail (.malformed .loneSurrogate)
  else pure (Utf8.encodeCode n)

/-- The byte that a letter behind a backslash stands for. -/
def shortEscape? (b : UInt8) : Option UInt8 :=
  if b = 0x22 ∨ b = 0x5C ∨ b = 0x2F then some b
  else if b = 0x62 then some 0x08
  else if b = 0x66 then some 0x0C
  else if b = 0x6E then some 0x0A
  else if b = 0x72 then some 0x0D
  else if b = 0x74 then some 0x09
  else none

/-- What follows a backslash. -/
def escape : Reader Bytes := do
  match ← take with
  | none => fail (.cut .text)
  | some b =>
    if b = 0x75 then unicodeEscape
    else
      match shortEscape? b with
      | some c => pure [c]
      | none => fail (.malformed .badEscape)

/-! ## Strings -/

/-- The bytes of a string up to its closing quote, with escapes replaced.  Each byte is either
copied, or it begins an escape, ends the string or is refused. -/
def textRun (s : Bytes) : Except Fault (Bytes × Bytes) :=
  match s with
  | [] => .error { cause := .cut .text, unread := 0 }
  | b :: r =>
    if b = quoteByte then .ok ([], r)
    else if b = backslash then
      match _h : escape.run r with
      | .error e => .error e
      | .ok (bytes, t) => (textRun t).map fun p => (bytes ++ p.1, p.2)
    else if isControl b then
      .error { cause := .malformed .controlCharacter, unread := r.length }
    else (textRun r).map fun p => (b :: p.1, p.2)
termination_by s.length
decreasing_by
  · have := escape.length_le _h
    simp only [List.length_cons]
    omega
  · simp

theorem textRun_suffix {s r bytes : Bytes} (h : textRun s = .ok (bytes, r)) : r <:+ s := by
  fun_induction textRun s generalizing bytes r with
  | case1 => cases h
  | case2 => cases h; exact List.suffix_cons _ _
  | case3 => cases h
  | case4 s _ t he _ ih =>
    obtain ⟨_, ht, hp⟩ := exists_of_map_eq_ok h
    cases hp
    exact (ih ht).trans ((escape.suffix he).trans (List.suffix_cons _ _))
  | case5 => cases h
  | case6 b s _ _ _ ih =>
    obtain ⟨_, ht, hp⟩ := exists_of_map_eq_ok h
    cases hp
    exact (ih ht).trans (List.suffix_cons _ _)

/-- The bytes of a string, from behind its opening quote. -/
def textBytes : Reader Bytes where
  run := textRun
  suffix := textRun_suffix

/-- A string, from behind its opening quote.  Ill-formed UTF-8 is reported at the end of its longest
well-formed beginning, counted back from the closing quote. -/
def text : Reader String := do
  let bytes ← textBytes
  match Utf8.decode bytes with
  | (cs, []) => pure (String.ofList cs)
  | (_, rest) => failBack rest.length (.malformed .badCodePoint)

end RunRecord.Json
