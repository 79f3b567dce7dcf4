import RunRecord.Json.Printer
import RunRecord.Json.Text
import RunRecord.Proofs.Text.Utf8

/-!
# Proofs/Json/Text — a quoted string is read back

The reader works on bytes, the printer on characters.  One character at a time, what the printer
escapes is what the reader puts back (`textRun_escapeChar`); hence a string is read off the front of
its quoted form, whatever stands behind the closing quote (`run_text_closed`).

The two sides meet at single characters and not at bytes, since a character of several bytes is
either escaped as a whole or left as a whole.  What makes the argument short is that every byte of a
character beyond ASCII has its high bit set, so no part of it can be mistaken for a quote, a
backslash or a control character.
-/

namespace RunRecord.Json

open Reader Utf8

/-! ## Bytes that stand for themselves

Plain bytes are copied, and all others begin or end something.  The reader collects what it reads in
front of what the rest of the string is read as. -/

/-- A byte that needs no escape. -/
def IsPlain (b : UInt8) : Prop := b ≠ quoteByte ∧ b ≠ backslash ∧ isControl b = false

/-- Two changes of a result are one. -/
theorem map_map {ε α β γ : Type} (x : Except ε α) (f : α → β) (g : β → γ) :
    (x.map f).map g = x.map (g ∘ f) := by cases x <;> rfl

/-- A quote ends a string. -/
theorem textRun_quote (s : Bytes) : textRun (quoteByte :: s) = .ok ([], s) := by
  rw [textRun, if_pos rfl]

/-- A plain byte is read as it stands. -/
theorem textRun_plain {b : UInt8} (h : IsPlain b) (s : Bytes) :
    textRun (b :: s) = (textRun s).map fun p => (b :: p.1, p.2) := by
  rw [textRun, if_neg h.1, if_neg h.2.1, if_neg (by simp [h.2.2])]

/-- Plain bytes are read as they stand. -/
theorem textRun_plain_append {bs : Bytes} (h : ∀ b ∈ bs, IsPlain b) (s : Bytes) :
    textRun (bs ++ s) = (textRun s).map fun p => (bs ++ p.1, p.2) := by
  induction bs with
  | nil => cases hs : textRun s <;> simp [hs, Except.map]
  | cons b bs ih =>
    rw [List.cons_append, textRun_plain (h b List.mem_cons_self),
      ih fun c hc => h c (List.mem_cons_of_mem _ hc), map_map]
    rfl

/-- An escape is read as the bytes it stands for. -/
theorem textRun_escape {bytes s r : Bytes} (h : escape.run s = .ok (bytes, r)) :
    textRun (backslash :: s) = (textRun r).map fun p => (bytes ++ p.1, p.2) := by
  rw [textRun, if_neg (by decide), if_pos rfl]
  split
  · next he => rw [h] at he; cases he
  · next he => rw [h] at he; cases he; rfl

/-! ## Escapes -/

/-- The byte of a hexadecimal digit has its value. -/
theorem hexValue?_hexDigit (n : Nat) :
    hexValue? (UInt8.ofNat (hexDigit n).toNat) = some (n % 16) := by
  have h : n % 16 < 16 := Nat.mod_lt _ (by decide)
  unfold hexDigit
  generalize n % 16 = k at h
  revert k
  decide

/-- A hexadecimal digit is one byte. -/
theorem encodeChar_hexDigit (n : Nat) :
    encodeChar (hexDigit n) = [UInt8.ofNat (hexDigit n).toNat] := by
  refine encodeChar_of_lt ?_
  have h : n % 16 < 16 := Nat.mod_lt _ (by decide)
  unfold hexDigit
  generalize n % 16 = k at h
  revert k
  decide

/-- Four digits of a control character are read as its code point. -/
theorem run_hex4_control {n : Nat} (h : n < 0x20) (s : Bytes) :
    hex4.run (0x30 :: 0x30 :: UInt8.ofNat (hexDigit (n / 16)).toNat ::
      UInt8.ofNat (hexDigit n).toNat :: s) = .ok (n, s) := by
  have hzero : hexValue? 0x30 = some 0 := by decide
  have hvalue : hexValue4? 0x30 0x30 (UInt8.ofNat (hexDigit (n / 16)).toNat)
      (UInt8.ofNat (hexDigit n).toNat) = some n := by
    simp only [hexValue4?, hzero, hexValue?_hexDigit, Option.pure_def, Option.bind_eq_bind,
      Option.bind_some]
    exact congrArg some (by omega)
  simp only [hex4, hvalue]

/-- The long escape of a control character is read as that character. -/
theorem run_escape_control {c : Char} (h : c.toNat < 0x20) (s : Bytes) :
    escape.run (0x75 :: 0x30 :: 0x30 :: UInt8.ofNat (hexDigit (c.toNat / 16)).toNat ::
      UInt8.ofNat (hexDigit c.toNat).toNat :: s) = .ok (encodeChar c, s) := by
  have htrailing : isTrailing c.toNat = false := by
    simp only [isTrailing, Bool.and_eq_false_iff, decide_eq_false_iff_not]
    omega
  have hleading : isLeading c.toNat = false := by
    simp only [isLeading, Bool.and_eq_false_iff, decide_eq_false_iff_not]
    omega
  have hunicode : unicodeEscape.run (0x30 :: 0x30 ::
      UInt8.ofNat (hexDigit (c.toNat / 16)).toNat :: UInt8.ofNat (hexDigit c.toNat).toNat :: s)
      = .ok (encodeChar c, s) := by
    rw [unicodeEscape, run_bind_ok (run_hex4_control h s)]
    simp only [htrailing, hleading]
    rfl
  exact hunicode

/-! ## Characters

A character is either plain, or escaped by a letter, or escaped by its code point.  Only control
characters are escaped in the last way. -/

/-- A byte beyond ASCII needs no escape. -/
theorem isPlain_of_le {b : UInt8} (h : 0x80 ≤ b.toNat) : IsPlain b := by
  refine ⟨?_, ?_, ?_⟩
  · rintro rfl
    exact absurd h (by decide)
  · rintro rfl
    exact absurd h (by decide)
  · rw [isControl, decide_eq_false_iff_not, UInt8.lt_iff_toNat_lt]
    exact Nat.not_lt.2 (Nat.le_trans (by decide) h)

/-- A character that is neither a quote nor a backslash nor a control character is plain. -/
theorem isPlain_of_mem_encodeChar {c : Char} (hquote : c ≠ '"') (hslash : c ≠ '\\')
    (hcontrol : ¬ c.toNat < 0x20) {b : UInt8} (hb : b ∈ encodeChar c) : IsPlain b := by
  rcases Nat.lt_or_ge c.toNat 0x80 with hlt | hge
  · rw [encodeChar_of_lt hlt, List.mem_singleton] at hb
    have hbyte : b.toNat = c.toNat := by rw [hb, toNat_ofNat_of_lt (by omega)]
    have hchar : ∀ d : Char, b.toNat = d.toNat → c = d := fun d hd =>
      Char.toNat_inj.1 (hbyte.symm.trans hd)
    refine ⟨?_, ?_, ?_⟩
    · rintro rfl
      exact hquote (hchar '"' rfl)
    · rintro rfl
      exact hslash (hchar '\\' rfl)
    · rw [isControl, decide_eq_false_iff_not, UInt8.lt_iff_toNat_lt, hbyte]
      exact hcontrol
  · exact isPlain_of_le (le_of_mem_encodeChar hge hb)

/-- **What one character is escaped as is read as that character.**  What follows is read as it
would be without it. -/
theorem textRun_escapeChar (c : Char) (s : Bytes) :
    textRun (encode (escapeChar c) ++ s)
      = (textRun s).map fun p => (encodeChar c ++ p.1, p.2) := by
  unfold escapeChar
  split
  · next h => subst h; exact textRun_escape rfl
  split
  · next h => subst h; exact textRun_escape rfl
  split
  · next h => subst h; exact textRun_escape rfl
  split
  · next h => subst h; exact textRun_escape rfl
  split
  · next h => subst h; exact textRun_escape rfl
  split
  · next h => subst h; exact textRun_escape rfl
  split
  · next h => subst h; exact textRun_escape rfl
  split
  · next h =>
    simp only [encode_cons, encode_nil, encodeChar_hexDigit, List.append_assoc, List.cons_append,
      List.nil_append]
    exact textRun_escape (run_escape_control h s)
  · next hquote hslash _ _ _ _ _ hcontrol =>
    rw [encode_cons, encode_nil, List.append_nil]
    exact textRun_plain_append (fun b => isPlain_of_mem_encodeChar hquote hslash hcontrol) s

/-! ## Strings -/

/-- The bytes of a string, from behind its opening quote.  By induction on its characters. -/
theorem textRun_escaped (cs : List Char) (r : Bytes) :
    textRun (encode (cs.flatMap escapeChar) ++ quoteByte :: r) = .ok (encode cs, r) := by
  induction cs with
  | nil => exact textRun_quote r
  | cons c cs ih =>
    rw [List.flatMap_cons, encode_append, List.append_assoc, textRun_escapeChar, ih, encode_cons]
    rfl

/-- A string as it stands behind its opening quote. -/
def closed (s : String) : Bytes := encode (s.toList.flatMap escapeChar) ++ [quoteByte]

/-- The bytes of a quoted string. -/
theorem encode_quoted (s : String) : encode (quoted s) = quoteByte :: closed s := by
  rw [quoted, encode_cons, encode_append]
  rfl

/-- **A string is read off the front of its quoted form**, from behind the opening quote.  That its
bytes are UTF-8 again is no assumption, as they are what its characters were encoded to. -/
theorem run_text_closed (s : String) (r : Bytes) : text.run (closed s ++ r) = .ok (s, r) := by
  have hbytes : textBytes.run (closed s ++ r) = .ok (encode s.toList, r) := by
    rw [closed, List.append_assoc]
    exact textRun_escaped s.toList r
  rw [text, run_bind_ok hbytes, decode_encode]
  exact congrArg (fun u => Except.ok (u, r)) String.ofList_toList

end RunRecord.Json
