import RunRecord.Proofs.Json.Reads

/-!
# Proofs/Json/Number — a count is read back

The digits of a natural number are bytes of the grammar; below 2⁶⁴ they are taken up without a
remainder, so a count is read as the number it was written from.

The digits are taken up one at a time as long as the number stays below 2⁶⁴.  What does not fit any
more makes the number a double, so the bound is what keeps it a count.
-/

namespace RunRecord.Json

open Reader Utf8

/-! ## Digits as bytes -/

/-- The byte of a digit is a digit, of the same value. -/
theorem isDigit_byte {c : Char} (h : Digits.isDigit c = true) :
    encodeChar c = [UInt8.ofNat c.toNat] ∧ isDigit (UInt8.ofNat c.toNat) = true ∧
      digitValue (UInt8.ofNat c.toNat) = Digits.digitValue c := by
  simp only [Digits.isDigit, Bool.and_eq_true, decide_eq_true_eq] at h
  have hbyte : (UInt8.ofNat c.toNat).toNat = c.toNat := toNat_ofNat_of_lt (by omega)
  refine ⟨encodeChar_of_lt (by omega), ?_, ?_⟩
  · simp only [isDigit, UInt8.le_iff_toNat_le, hbyte, Bool.and_eq_true, decide_eq_true_eq]
    exact h
  · rw [digitValue, hbyte, Digits.digitValue]

/-- Every byte of a run of digits is a digit. -/
theorem isDigit_of_mem_encode {ds : List Char} (hd : ∀ c ∈ ds, Digits.isDigit c = true)
    {b : UInt8} (hb : b ∈ encode ds) : isDigit b = true := by
  obtain ⟨c, hc, hbc⟩ := List.mem_flatMap.1 hb
  obtain ⟨hchar, hdigit, -⟩ := isDigit_byte (hd c hc)
  rw [hchar, List.mem_singleton] at hbc
  exact hbc ▸ hdigit

/-- **Digits that stay below 2⁶⁴ are all taken up.**  The number before them is carried along, as
the reader does it. -/
theorem appendDigits_encode {ds : List Char} (hd : ∀ c ∈ ds, Digits.isDigit c = true) {n : Nat}
    (hn : n * 10 ^ ds.length + Digits.value ds < wordSize) :
    appendDigits n (encode ds) = (n * 10 ^ ds.length + Digits.value ds, 0) := by
  induction ds generalizing n with
  | nil => simp [appendDigits]
  | cons c ds ih =>
    obtain ⟨hchar, -, hvalue⟩ := isDigit_byte (hd c List.mem_cons_self)
    have hsplit : n * 10 ^ (c :: ds).length + Digits.value (c :: ds)
        = (n * 10 + Digits.digitValue c) * 10 ^ ds.length + Digits.value ds := by
      have hcons : Digits.value (c :: ds)
          = Digits.value [c] * 10 ^ ds.length + Digits.value ds :=
        Digits.value_append [c] ds
      have hsingle : Digits.value [c] = Digits.digitValue c := by simp [Digits.value]
      rw [hcons, hsingle, List.length_cons, pow_succ]
      ring
    rw [hsplit] at hn ⊢
    have hstep : n * 10 + Digits.digitValue c < wordSize := by
      refine Nat.lt_of_le_of_lt ?_ hn
      exact Nat.le_trans (Nat.le_mul_of_pos_right _ (Nat.pow_pos (by decide)))
        (Nat.le_add_right _ _)
    rw [encode_cons, hchar, List.singleton_append, appendDigits]
    simp only [hvalue]
    rw [if_pos hstep]
    exact ih (fun d hd' => hd d (List.mem_cons_of_mem _ hd')) hn

/-! ## Counts

A count is written without a sign, a point or an exponent, and no zero is in front of other digits.
-/

/-- Integer digits with nothing behind them that carries them on are a whole number.  Behind them
the reader has looked for a point and an exponent. -/
theorem run_afterInteger {run : Bytes} {n : Nat} (h : appendDigits 0 run = (n, 0)) {r : Bytes}
    (hr : Delimited r) : (afterInteger false run).run r = .ok (.natural n, r) := by
  have hpoint : r.head? ≠ some 0x2E := fun hb => (hr _ hb).2.1 rfl
  have hsmall : r.head? ≠ some 0x65 := fun hb => (hr _ hb).2.2.1 rfl
  have hlarge : r.head? ≠ some 0x45 := fun hb => (hr _ hb).2.2.2 rfl
  simp only [afterInteger, h, run_look]
  rw [if_neg hpoint, if_neg (not_or.2 ⟨hsmall, hlarge⟩), if_pos trivial]
  rfl

/-- A single zero is a number. -/
theorem run_numberAfterSign_zero {r : Bytes} (hr : Delimited r) :
    (numberAfterSign false).run (0x30 :: r) = .ok (.natural 0, r) := by
  have hnext : r.head?.any isDigit = false := by
    cases hhead : r.head? with
    | none => rfl
    | some b => exact (hr b hhead).1
  have hempty : appendDigits 0 [] = (0, 0) := rfl
  rw [numberAfterSign, run_bind_ok (run_take _ _)]
  simp only [if_true, run_look, hnext]
  exact run_afterInteger hempty hr

/-- Other digits are taken as far as they go, which is up to whatever stands behind the number. -/
theorem run_numberAfterSign_digits {b : UInt8} {bs : Bytes} (hb : b ≠ 0x30)
    (hd : ∀ c ∈ b :: bs, isDigit c = true) {n : Nat} (h : appendDigits 0 (b :: bs) = (n, 0))
    {r : Bytes} (hr : Delimited r) :
    (numberAfterSign false).run (b :: (bs ++ r)) = .ok (.natural n, r) := by
  have hbs : ∀ c ∈ bs, isDigit c = true := fun c hc => hd c (List.mem_cons_of_mem _ hc)
  have hmore : (takeWhile isDigit).run (bs ++ r) = .ok (bs, r) := by
    change Except.ok ((bs ++ r).takeWhile isDigit, (bs ++ r).dropWhile isDigit) = _
    rw [List.takeWhile_append_of_pos hbs, List.dropWhile_append_of_pos hbs]
    cases r with
    | nil => simp
    | cons c r =>
      have hc : ¬ isDigit c = true := by simp [(hr c rfl).1]
      rw [List.takeWhile_cons_of_neg hc, List.dropWhile_cons_of_neg hc, List.append_nil]
  rw [numberAfterSign, run_bind_ok (run_take _ _)]
  simp only [hb, if_false, hd b List.mem_cons_self, if_true]
  rw [run_bind_ok hmore]
  exact run_afterInteger h hr

/-- The byte of a digit is `0` only for the digit `0`. -/
theorem eq_zero_of_byte_eq {c : Char} (h : Digits.isDigit c = true)
    (hzero : UInt8.ofNat c.toNat = 0x30) : c = '0' := by
  simp only [Digits.isDigit, Bool.and_eq_true, decide_eq_true_eq] at h
  have hbyte : (UInt8.ofNat c.toNat).toNat = c.toNat := toNat_ofNat_of_lt (by omega)
  rw [hzero] at hbyte
  exact Char.toNat_inj.1 hbyte.symm

/-- **A number below 2⁶⁴ is read off its digits.**  If they begin with a zero, that is the whole
number. -/
theorem run_numberAfterSign {n : Nat} (hn : n < wordSize) {r : Bytes} (hr : Delimited r) :
    (numberAfterSign false).run (encode (Digits.digits n) ++ r) = .ok (.natural n, r) := by
  have hd : ∀ c ∈ Digits.digits n, Digits.isDigit c = true := fun c hc =>
    Digits.isDigit_of_mem_digits hc
  have hrun : appendDigits 0 (encode (Digits.digits n)) = (n, 0) := by
    rw [appendDigits_encode hd (by simpa using hn)]
    simp
  have hbytes : ∀ b ∈ encode (Digits.digits n), isDigit b = true := fun b hb =>
    isDigit_of_mem_encode hd hb
  obtain ⟨c, cs, hcs⟩ := List.exists_cons_of_ne_nil (Digits.digits_ne_nil n)
  rw [hcs] at hd hrun hbytes ⊢
  obtain ⟨hchar, -, -⟩ := isDigit_byte (hd c List.mem_cons_self)
  rw [encode_cons, hchar, List.singleton_append] at hrun hbytes ⊢
  rw [List.cons_append]
  by_cases hzero : UInt8.ofNat c.toNat = 0x30
  · have hc := eq_zero_of_byte_eq (hd c List.mem_cons_self) hzero
    obtain ⟨rfl, rfl⟩ := Digits.eq_zero_of_digits_eq (hc ▸ hcs)
    rw [hzero, encode_nil, List.nil_append]
    exact run_numberAfterSign_zero hr
  · exact run_numberAfterSign_digits hzero hbytes hrun hr

/-- The digits of a number, as they are written. -/
theorem write_ofNat (layout : Layout) (depth n : Nat) :
    write layout depth (.ofNat n) = Digits.digits n := by
  rw [ofNat, write, numberText, if_pos rfl, integerText, if_neg (by omega)]
  rfl

/-- **A count below 2⁶⁴ is read from its digits.**  The bound is that of the type in which counts
are kept. -/
theorem reads_countValue {n : Nat} (hn : n < wordSize) : countValue.Reads (.ofNat n) n := by
  intro layout depth w r hw hr
  have hd : ∀ c ∈ Digits.digits n, Digits.isDigit c = true := fun c hc =>
    Digits.isDigit_of_mem_digits hc
  have hnumber := run_numberAfterSign hn hr
  obtain ⟨c, cs, hcs⟩ := List.exists_cons_of_ne_nil (Digits.digits_ne_nil n)
  rw [write_ofNat]
  rw [hcs] at hd hnumber ⊢
  obtain ⟨hchar, hdigit, -⟩ := isDigit_byte (hd c List.mem_cons_self)
  rw [encode_cons, hchar, List.singleton_append, List.cons_append] at hnumber ⊢
  have hspace : isSpace (UInt8.ofNat c.toNat) = false := by
    cases hs : isSpace (UInt8.ofNat c.toNat) with
    | false => rfl
    | true => exact absurd hdigit (by rw [(isDelimiter_of_isSpace hs).1]; decide)
  have hminus : UInt8.ofNat c.toNat ≠ 0x2D := by
    intro h
    rw [h] at hdigit
    exact absurd hdigit (by decide)
  rw [countValue, run_value hw hspace, if_neg hminus, if_pos hdigit, run_bind_ok hnumber]
  rfl

end RunRecord.Json
