/-!
# Text/Utf8 — characters as bytes

`encode` writes each character in its shortest form, one to four bytes.  `decode` reads the longest
well-formed beginning of a byte sequence and hands back what it could not read, so the length of the
valid beginning of an ill-formed text is known to whoever reports it.

Neither longer forms nor surrogates are accepted, so every sequence that is decoded is the encoding
of what it is decoded to.  Everything that is read or written goes through these two functions.
-/

namespace RunRecord

/-- A sequence of bytes. -/
abbrev Bytes := List UInt8

namespace Utf8

/-! ## Writing -/

/-- A continuation byte carries six bits of the code point. -/
def continuation (n : Nat) : UInt8 := UInt8.ofNat (0x80 + n % 0x40)

/-- The shortest byte form of the code point `n`. -/
def encodeCode (n : Nat) : Bytes :=
  if n < 0x80 then [UInt8.ofNat n]
  else if n < 0x800 then [UInt8.ofNat (0xC0 + n / 0x40), continuation n]
  else if n < 0x10000 then
    [UInt8.ofNat (0xE0 + n / 0x1000), continuation (n / 0x40), continuation n]
  else
    [UInt8.ofNat (0xF0 + n / 0x40000), continuation (n / 0x1000), continuation (n / 0x40),
      continuation n]

/-- The bytes of one character. -/
def encodeChar (c : Char) : Bytes := encodeCode c.toNat

/-- The bytes of a text. -/
def encode (cs : List Char) : Bytes := cs.flatMap encodeChar

@[simp] theorem encode_nil : encode [] = [] := rfl

@[simp] theorem encode_cons (c : Char) (cs : List Char) :
    encode (c :: cs) = encodeChar c ++ encode cs := rfl

@[simp] theorem encode_append (as bs : List Char) : encode (as ++ bs) = encode as ++ encode bs :=
  List.flatMap_append

/-! ## Reading

A character is taken off the front of a sequence by the number of its bytes, which the first byte
tells.  The least code point of each length is checked, and so are the bytes behind the first. -/

/-- The six bits of a continuation byte, `none` for any other byte. -/
def payload (b : UInt8) : Option Nat :=
  if 0x80 ≤ b.toNat ∧ b.toNat < 0xC0 then some (b.toNat - 0x80) else none

/-- The character with code point `n`, if `n` is a scalar value and at least `least`: a longer form
than needed is refused.  Surrogates are no scalar values, so they are refused here as well. -/
def scalar (least n : Nat) : Option Char :=
  if n.isValidChar ∧ least ≤ n then some (Char.ofNat n) else none

/-- The two-byte character opened by `a`. -/
def scalar2 (a b : UInt8) : Option Char := do
  scalar 0x80 ((a.toNat - 0xC0) * 0x40 + (← payload b))

/-- The three-byte character opened by `a`. -/
def scalar3 (a b c : UInt8) : Option Char := do
  scalar 0x800 ((a.toNat - 0xE0) * 0x1000 + (← payload b) * 0x40 + (← payload c))

/-- The four-byte character opened by `a`. -/
def scalar4 (a b c d : UInt8) : Option Char := do
  scalar 0x10000
    ((a.toNat - 0xF0) * 0x40000 + (← payload b) * 0x1000 + (← payload c) * 0x40 + (← payload d))

/-- The character at the front of a byte sequence and the bytes after it. -/
def decodeChar : Bytes → Option (Char × Bytes)
  | [] => none
  | a :: r =>
    if a.toNat < 0x80 then some (Char.ofNat a.toNat, r)
    else if a.toNat < 0xC0 then none
    else if a.toNat < 0xE0 then
      match r with
      | b :: r => (scalar2 a b).map (·, r)
      | _ => none
    else if a.toNat < 0xF0 then
      match r with
      | b :: c :: r => (scalar3 a b c).map (·, r)
      | _ => none
    else
      match r with
      | b :: c :: d :: r => (scalar4 a b c d).map (·, r)
      | _ => none

/-- A character takes at least one byte. -/
theorem decodeChar_length_lt {s r : Bytes} {c : Char} (h : decodeChar s = some (c, r)) :
    r.length < s.length := by
  cases s with
  | nil => cases h
  | cons a t =>
    have suffix {o : Option Char} {u : Bytes} (hu : u.length < t.length)
        (h : o.map (·, u) = some (c, r)) : r.length < (a :: t).length := by
      obtain ⟨_, _, h⟩ := Option.map_eq_some_iff.1 h
      cases h
      exact Nat.lt_succ_of_lt hu
    unfold decodeChar at h
    split at h
    · cases h
    · next a' t' heq =>
      cases heq
      repeat' split at h
      · cases h
        exact Nat.lt_succ_self _
      · cases h
      · exact suffix (by simp) h
      · cases h
      · exact suffix (by simp only [List.length_cons]; omega) h
      · cases h
      · exact suffix (by simp only [List.length_cons]; omega) h
      · cases h

/-- The longest well-formed beginning as characters, and the bytes from the first ill-formed on.
The second part is empty exactly for the bytes of a text. -/
def decode (s : Bytes) : List Char × Bytes :=
  match _h : decodeChar s with
  | none => ([], s)
  | some (c, r) =>
    let rest := decode r
    (c :: rest.1, rest.2)
termination_by s.length
decreasing_by exact decodeChar_length_lt _h

/-- The text of a wholly well-formed byte sequence. -/
def decode? (s : Bytes) : Option (List Char) :=
  match decode s with
  | (cs, []) => some cs
  | _ => none

end Utf8

end RunRecord
