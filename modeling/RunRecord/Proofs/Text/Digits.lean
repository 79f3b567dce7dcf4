import Mathlib.Data.List.Induction
import Mathlib.Tactic.Ring
import RunRecord.Text.Digits

/-!
# Proofs/Text/Digits — the value of a run of digits

`fixed` and `padded` hold digits only, and `value` reads them back: the one as far as its width
reaches, the other whole.  Where a number fits the width the two are the same text.

Both are used all over: dates and times of day are written in fixed widths, years and counts with as
many digits as they have, and decimals behind a point in as many as are asked for.  That a text is
read back as its number is in each case one of the lemmas here.
-/

namespace RunRecord.Digits

/-! ## Values

The value of a run is defined from the left, digit by digit, so a run in two parts is worth the
first part moved up and the second. -/

@[simp] theorem value_nil : value [] = 0 := rfl

/-- Each digit behind a run counts ten times less. -/
theorem value_append (as bs : List Char) :
    value (as ++ bs) = value as * 10 ^ bs.length + value bs := by
  induction bs using List.reverseRecOn with
  | nil => simp
  | append_singleton bs c ih =>
    rw [← List.append_assoc, value_append_singleton, ih, value_append_singleton,
      List.length_append, List.length_singleton, pow_succ]
    ring

/-- Zeros alone are worth nothing. -/
@[simp] theorem value_replicate_zero (count : Nat) : value (List.replicate count '0') = 0 := by
  induction count with
  | zero => rfl
  | succ count ih =>
    rw [List.replicate_succ', value_append_singleton, ih]
    rfl

/-- The last digits of a number are its remainder. -/
theorem value_fixed (width n : Nat) : value (fixed width n) = n % 10 ^ width := by
  induction width generalizing n with
  | zero => simp [fixed, Nat.mod_one]
  | succ width ih =>
    rw [fixed, value_append_singleton, ih, digitValue_digit, pow_succ', Nat.mod_mul]
    ring

/-- Enough digits are worth the whole number. -/
theorem value_fixed_of_lt {width n : Nat} (h : n < 10 ^ width) : value (fixed width n) = n := by
  rw [value_fixed, Nat.mod_eq_of_lt h]

/-- Leading zeros do not count. -/
@[simp] theorem value_padded (width n : Nat) : value (padded width n) = n := by
  rw [padded, value_append, value_replicate_zero, value_digits, zero_mul, zero_add]

/-- A run of digits is worth less than the least number with one digit more. -/
theorem value_lt {ds : List Char} (hd : ∀ c ∈ ds, isDigit c = true) :
    value ds < 10 ^ ds.length := by
  induction ds using List.reverseRecOn with
  | nil => decide
  | append_singleton ds c ih =>
    have hlt := ih fun d hd' => hd d (List.mem_append_left _ hd')
    have hc : digitValue c < 10 := by
      have := hd c (by simp)
      simp only [isDigit, Bool.and_eq_true, decide_eq_true_eq] at this
      unfold digitValue
      omega
    rw [value_append_singleton, List.length_append, List.length_singleton, pow_succ]
    omega

/-! ## Nothing but digits -/

theorem isDigit_of_mem_fixed {width n : Nat} {c : Char} (h : c ∈ fixed width n) :
    isDigit c = true := by
  induction width generalizing n with
  | zero => cases h
  | succ width ih =>
    rw [fixed, List.mem_append, List.mem_singleton] at h
    rcases h with h | rfl
    · exact ih h
    · exact isDigit_digit n

theorem isDigit_of_mem_padded {width n : Nat} {c : Char} (h : c ∈ padded width n) :
    isDigit c = true := by
  rw [padded, List.mem_append, List.mem_replicate] at h
  rcases h with ⟨-, rfl⟩ | h
  · rfl
  · exact isDigit_of_mem_digits h

/-- **A number starts with a zero only if it is zero.**  So a number that is written has no
superfluous zeros. -/
theorem eq_zero_of_digits_eq {n : Nat} {cs : List Char} (h : digits n = '0' :: cs) :
    n = 0 ∧ cs = [] := by
  fun_induction digits n generalizing cs with
  | case1 n hn =>
    obtain ⟨hdigit, rfl⟩ := List.cons.inj h
    have hvalue : digitValue (digit n) = 0 := by rw [hdigit]; rfl
    rw [digitValue_digit] at hvalue
    exact ⟨by omega, rfl⟩
  | case2 n hn ih =>
    obtain ⟨c, ds, hds⟩ := List.exists_cons_of_ne_nil (digits_ne_nil (n / 10))
    rw [hds, List.cons_append] at h
    obtain ⟨rfl, -⟩ := List.cons.inj h
    exact absurd (ih hds).1 (by omega)

/-! ## Widths -/

/-- Zero in a fixed width is zeros. -/
theorem fixed_zero (width : Nat) : fixed width 0 = List.replicate width '0' := by
  induction width with
  | zero => rfl
  | succ width ih =>
    rw [fixed, Nat.zero_div, ih, List.replicate_succ']
    rfl

/-- Zeros behind a number are so many tens. -/
theorem fixed_append_zeros (width count n : Nat) :
    fixed width n ++ List.replicate count '0' = fixed (width + count) (n * 10 ^ count) := by
  induction count with
  | zero => simp
  | succ count ih =>
    have hlast : digit (n * 10 ^ (count + 1)) = '0' := by
      rw [digit, pow_succ, ← mul_assoc, Nat.mul_mod_left]
    rw [List.replicate_succ', ← List.append_assoc, ih, ← Nat.add_assoc, fixed, hlast, pow_succ,
      ← mul_assoc, Nat.mul_div_cancel _ (by decide)]

/-- **A number that fits a width is padded to exactly that width.**  Where it does not fit, it is
written whole and longer. -/
theorem padded_eq_fixed {width n : Nat} (h : n < 10 ^ (width + 1)) :
    padded (width + 1) n = fixed (width + 1) n := by
  induction width generalizing n with
  | zero =>
    rw [padded, digits, if_pos (by omega)]
    rfl
  | succ width ih =>
    rw [padded, digits]
    split
    · next hn =>
      rw [fixed, Nat.div_eq_of_lt hn, fixed_zero, List.length_singleton]
      rfl
    · next hn =>
      have hdiv : n / 10 < 10 ^ (width + 1) := by
        rw [Nat.div_lt_iff_lt_mul (by decide), ← pow_succ]
        exact h
      rw [fixed, ← ih hdiv, padded, List.length_append, List.length_singleton,
        Nat.add_sub_add_right, List.append_assoc]

end RunRecord.Digits
