/-!
# Text/Digits — natural numbers in decimal

`digits` writes a number with no superfluous zero, `padded` with at least a given count of digits,
and `value` reads a run of digits back.

In documents numbers become text by these functions only.  `fixed` cuts off what does not fit its
width, so it is used where a number is known to fit, and for the digits behind a point.
-/

namespace RunRecord.Digits

/-- The digit for a number below ten. -/
def digit (n : Nat) : Char := Char.ofNat (0x30 + n % 10)

/-- Whether a character is one of the ten ASCII digits. -/
def isDigit (c : Char) : Bool := 0x30 ≤ c.toNat && c.toNat ≤ 0x39

/-- The number a digit stands for. -/
def digitValue (c : Char) : Nat := c.toNat - 0x30

/-- The decimal digits of a number, the most significant first. -/
def digits (n : Nat) : List Char :=
  if n < 10 then [digit n] else digits (n / 10) ++ [digit n]

/-- The last `width` decimal digits of a number, with leading zeros. -/
def fixed : (width : Nat) → (n : Nat) → List Char
  | 0, _ => []
  | width + 1, n => fixed width (n / 10) ++ [digit n]

/-- The decimal digits of a number, with leading zeros up to `width`. -/
def padded (width n : Nat) : List Char :=
  List.replicate (width - (digits n).length) '0' ++ digits n

/-- The number that a run of digits stands for. -/
def value (cs : List Char) : Nat := cs.foldl (fun n c => n * 10 + digitValue c) 0

@[simp] theorem length_fixed (width n : Nat) : (fixed width n).length = width := by
  induction width generalizing n with
  | zero => rfl
  | succ width ih => simp [fixed, ih]

theorem isDigit_digit (n : Nat) : isDigit (digit n) = true := by
  have h : n % 10 < 10 := Nat.mod_lt _ (by decide)
  unfold digit
  generalize n % 10 = k at h
  revert k
  decide

theorem digitValue_digit (n : Nat) : digitValue (digit n) = n % 10 := by
  have h : n % 10 < 10 := Nat.mod_lt _ (by decide)
  unfold digit
  generalize n % 10 = k at h
  revert k
  decide

/-- A written number is never the empty text. -/
theorem digits_ne_nil (n : Nat) : digits n ≠ [] := by
  unfold digits
  split <;> simp

/-- What is written holds digits only. -/
theorem isDigit_of_mem_digits {n : Nat} {c : Char} (h : c ∈ digits n) : isDigit c = true := by
  fun_induction digits n with
  | case1 n => simp only [List.mem_singleton] at h; exact h ▸ isDigit_digit n
  | case2 n _ ih =>
    rcases List.mem_append.1 h with h | h
    · exact ih h
    · exact List.mem_singleton.1 h ▸ isDigit_digit n

@[simp] theorem value_append_singleton (cs : List Char) (c : Char) :
    value (cs ++ [c]) = value cs * 10 + digitValue c := by
  simp [value]

/-- Reading undoes writing. -/
@[simp] theorem value_digits (n : Nat) : value (digits n) = n := by
  fun_induction digits n with
  | case1 n h => simp [value, digitValue_digit]; omega
  | case2 n h ih => rw [value_append_singleton, ih, digitValue_digit]; omega

end RunRecord.Digits
