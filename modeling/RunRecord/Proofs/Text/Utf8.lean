import RunRecord.Text.Utf8

/-!
# Proofs/Text/Utf8 — what is written as bytes is read back

`encodeChar` is uniquely readable: its first byte says how many continuation bytes follow, so a
character is read off the front of its own bytes **whatever stands behind them**
(`decodeChar_encodeChar_append`), and a text off its own (`decode_encode`).

The other direction, what is made of bytes that are no text, is not treated here.  It is not needed,
as what the program reads is compared with what it writes; where bytes of others are read, all that
is asked is whether they are a text.
-/

namespace RunRecord

namespace Utf8

/-! ## Single bytes -/

theorem toNat_ofNat_of_lt {n : Nat} (h : n < 256) : (UInt8.ofNat n).toNat = n := by
  rw [UInt8.toNat_ofNat']
  exact Nat.mod_eq_of_lt h

/-- A continuation byte gives its six bits back. -/
@[simp] theorem payload_continuation (n : Nat) : payload (continuation n) = some (n % 0x40) := by
  have hb : (continuation n).toNat = 0x80 + n % 0x40 := toNat_ofNat_of_lt (by omega)
  rw [payload, hb, if_pos ⟨by omega, by omega⟩]
  exact congrArg some (by omega)

theorem isValidChar_toNat (c : Char) : c.toNat.isValidChar := c.valid

/-- The code point of a character is below 0x110000. -/
theorem toNat_lt (c : Char) : c.toNat < 0x110000 := by
  rcases isValidChar_toNat c with h | h
  · omega
  · exact h.2

/-- A code point in its shortest form is accepted. -/
theorem scalar_eq_some {least n : Nat} {c : Char} (h : least ≤ c.toNat) (hn : n = c.toNat) :
    scalar least n = some c := by
  rw [hn, scalar, if_pos ⟨isValidChar_toNat c, h⟩, Char.ofNat_toNat]

/-! ## Characters

The longer forms are put together by `rw`, never by unfolding: a code point below a large power of
two must not be compared by computation. -/

theorem scalar2_continuation (a : UInt8) (l : Nat) :
    scalar2 a (continuation l) = scalar 0x80 ((a.toNat - 0xC0) * 0x40 + l % 0x40) := by
  rw [scalar2, payload_continuation, Option.bind_eq_bind, Option.bind_some]

theorem scalar3_continuation (a : UInt8) (l m : Nat) :
    scalar3 a (continuation l) (continuation m)
      = scalar 0x800 ((a.toNat - 0xE0) * 0x1000 + l % 0x40 * 0x40 + m % 0x40) := by
  rw [scalar3, payload_continuation, payload_continuation, Option.bind_eq_bind, Option.bind_some,
    Option.bind_some]

theorem scalar4_continuation (a : UInt8) (l m n : Nat) :
    scalar4 a (continuation l) (continuation m) (continuation n)
      = scalar 0x10000 ((a.toNat - 0xF0) * 0x40000 + l % 0x40 * 0x1000 + m % 0x40 * 0x40
          + n % 0x40) := by
  rw [scalar4, payload_continuation, payload_continuation, payload_continuation,
    Option.bind_eq_bind, Option.bind_some, Option.bind_some, Option.bind_some]

/-- **A character is read off the front of its bytes**, whatever stands behind them. -/
theorem decodeChar_encodeChar_append (c : Char) (s : Bytes) :
    decodeChar (encodeChar c ++ s) = some (c, s) := by
  have hlt := toNat_lt c
  unfold encodeChar encodeCode
  split
  · next h1 =>
    have ha : (UInt8.ofNat c.toNat).toNat = c.toNat := toNat_ofNat_of_lt (by omega)
    simp only [List.cons_append, List.nil_append, decodeChar, ha]
    rw [if_pos h1, Char.ofNat_toNat]
  split
  · next h1 h2 =>
    have ha : (UInt8.ofNat (0xC0 + c.toNat / 0x40)).toNat = 0xC0 + c.toNat / 0x40 :=
      toNat_ofNat_of_lt (by omega)
    have hc : scalar2 (UInt8.ofNat (0xC0 + c.toNat / 0x40)) (continuation c.toNat) = some c := by
      rw [scalar2_continuation, ha]
      exact scalar_eq_some (by omega) (by omega)
    simp only [List.cons_append, List.nil_append, decodeChar, ha, hc, Option.map_some]
    rw [if_neg (by omega), if_neg (by omega), if_pos (by omega)]
  split
  · next h1 h2 h3 =>
    have ha : (UInt8.ofNat (0xE0 + c.toNat / 0x1000)).toNat = 0xE0 + c.toNat / 0x1000 :=
      toNat_ofNat_of_lt (by omega)
    have hc : scalar3 (UInt8.ofNat (0xE0 + c.toNat / 0x1000)) (continuation (c.toNat / 0x40))
        (continuation c.toNat) = some c := by
      rw [scalar3_continuation, ha]
      exact scalar_eq_some (by omega) (by omega)
    simp only [List.cons_append, List.nil_append, decodeChar, ha, hc, Option.map_some]
    rw [if_neg (by omega), if_neg (by omega), if_neg (by omega), if_pos (by omega)]
  · next h1 h2 h3 =>
    have ha : (UInt8.ofNat (0xF0 + c.toNat / 0x40000)).toNat = 0xF0 + c.toNat / 0x40000 :=
      toNat_ofNat_of_lt (by omega)
    have hc : scalar4 (UInt8.ofNat (0xF0 + c.toNat / 0x40000)) (continuation (c.toNat / 0x1000))
        (continuation (c.toNat / 0x40)) (continuation c.toNat) = some c := by
      rw [scalar4_continuation, ha]
      exact scalar_eq_some (by omega) (by omega)
    simp only [List.cons_append, List.nil_append, decodeChar, ha, hc, Option.map_some]
    rw [if_neg (by omega), if_neg (by omega), if_neg (by omega), if_neg (by omega)]

/-- An ASCII character is one byte. -/
theorem encodeChar_of_lt {c : Char} (h : c.toNat < 0x80) :
    encodeChar c = [UInt8.ofNat c.toNat] := by
  rw [encodeChar, encodeCode, if_pos h]

/-- Every byte of a character beyond ASCII is beyond ASCII too. -/
theorem le_of_mem_encodeChar {c : Char} (h : 0x80 ≤ c.toNat) {b : UInt8}
    (hb : b ∈ encodeChar c) : 0x80 ≤ b.toNat := by
  have hlt := toNat_lt c
  have hcont : ∀ n, 0x80 ≤ (continuation n).toNat := fun n => by
    rw [continuation, toNat_ofNat_of_lt (by omega)]
    omega
  rw [encodeChar, encodeCode, if_neg (by omega)] at hb
  split at hb
  · next h2 =>
    simp only [List.mem_cons, List.not_mem_nil, or_false] at hb
    rcases hb with rfl | rfl
    · rw [toNat_ofNat_of_lt (by omega)]; omega
    · exact hcont _
  split at hb
  · next h2 h3 =>
    simp only [List.mem_cons, List.not_mem_nil, or_false] at hb
    rcases hb with rfl | rfl | rfl
    · rw [toNat_ofNat_of_lt (by omega)]; omega
    · exact hcont _
    · exact hcont _
  · next h2 h3 =>
    simp only [List.mem_cons, List.not_mem_nil, or_false] at hb
    rcases hb with rfl | rfl | rfl | rfl
    · rw [toNat_ofNat_of_lt (by omega)]; omega
    · exact hcont _
    · exact hcont _
    · exact hcont _

/-! ## Texts -/

/-- **A text is read back from its bytes as a whole.**  Nothing is left over, and no two texts have
the same bytes. -/
theorem decode_encode (cs : List Char) : decode (encode cs) = (cs, []) := by
  induction cs with
  | nil => rw [encode_nil, decode]; rfl
  | cons c cs ih =>
    rw [encode_cons, decode]
    split
    · next h => rw [decodeChar_encodeChar_append] at h; cases h
    · next h =>
      rw [decodeChar_encodeChar_append] at h
      cases h
      rw [ih]

end Utf8

end RunRecord
