import Mathlib.Algebra.Order.Field.Power
import Mathlib.Data.Rat.Floor
import Mathlib.Tactic.Linarith
import Mathlib.Tactic.Ring
import RunRecord.Binary64

/-!
# Proofs/Binary64 — how far rounding goes

`roundEven x` is **the** integer nearest to `x`, the even one of two (`roundEven_eq_iff`); so it is
at most a half away, keeps order and is an odd function.  From it `Binary64.round` has its error,
half the distance of the doubles around a number (`Binary64.abs_round_sub_le`), its symmetry and its
order (`Binary64.round_mono`), and it leaves whole numbers of 53 bits as they are
(`Binary64.round_intCast`).

Doubles are not modelled as bits.  A double is a rational number that rounding leaves as it is, and
what the program computes with doubles is exact arithmetic with a rounding behind each step.
Neither infinities nor signed zeros come up, since spans are bounded and their sign is kept apart.
-/

namespace RunRecord

/-! ## To the nearest integer

To round half to even is to choose among nearest integers.  It is characterized by what it chooses,
so that its order and its symmetry need no case distinction on how it is computed. -/

/-- An integer nearest to a number, and even if there are two. -/
def IsNearestEven (n : Int) (x : Rat) : Prop :=
  |(n : Rat) - x| < 1 / 2 ∨ |(n : Rat) - x| = 1 / 2 ∧ n % 2 = 0

/-- A nearest integer is at most a half away. -/
theorem IsNearestEven.abs_le_half {n : Int} {x : Rat} (h : IsNearestEven n x) :
    |(n : Rat) - x| ≤ 1 / 2 := h.elim le_of_lt fun h => h.1.le

theorem IsNearestEven.neg {n : Int} {x : Rat} (h : IsNearestEven n x) :
    IsNearestEven (-n) (-x) := by
  have habs : |((-n : Int) : Rat) - -x| = |(n : Rat) - x| := by
    rw [Int.cast_neg, neg_sub_neg, abs_sub_comm]
  rw [IsNearestEven, habs]
  exact h.imp_right fun h => ⟨h.1, by omega⟩

/-- There is one such integer: two of them are neighbours at most, and then each is a half away. -/
theorem IsNearestEven.unique {m n : Int} {x : Rat} (hm : IsNearestEven m x)
    (hn : IsNearestEven n x) : m = n := by
  have hdist : |(m : Rat) - n| ≤ |(m : Rat) - x| + |(n : Rat) - x| := by
    rw [abs_sub_comm (n : Rat) x]
    exact abs_sub_le (m : Rat) x n
  have hm_le := hm.abs_le_half
  have hn_le := hn.abs_le_half
  by_contra hne
  have hone : |m - n| ≤ 1 := by
    have hle : |(m : Rat) - n| ≤ 1 := by linarith
    exact_mod_cast hle
  have hfar : (1 : Rat) ≤ |(m : Rat) - n| := by
    exact_mod_cast Int.one_le_abs (sub_ne_zero.2 hne)
  rcases hm with hm | ⟨-, hm⟩
  · linarith
  rcases hn with hn | ⟨-, hn⟩
  · linarith
  · rw [abs_le] at hone
    omega

/-- What is rounded to is nearest. -/
theorem isNearestEven_roundEven (x : Rat) : IsNearestEven (roundEven x) x := by
  have hlow : (x.floor : Rat) ≤ x := Rat.floor_le x
  have hhigh : x < x.floor + 1 := by exact_mod_cast Rat.lt_floor_add_one x
  unfold roundEven IsNearestEven
  dsimp only
  split
  · next h =>
    have habs : |((x.floor + 1 : Int) : Rat) - x| = x.floor + 1 - x := by
      rw [Int.cast_add, Int.cast_one, abs_of_nonneg (by linarith)]
    rw [habs]
    rcases h with h | ⟨h, hodd⟩
    · exact .inl (by linarith)
    · exact .inr ⟨by linarith, by omega⟩
  · next h =>
    have habs : |(x.floor : Rat) - x| = x - x.floor := by
      rw [abs_sub_comm, abs_of_nonneg (by linarith)]
    rw [habs]
    rw [not_or, not_lt, not_and] at h
    rcases h.1.lt_or_eq with hlt | heq
    · exact .inl (by linarith)
    · exact .inr ⟨by linarith, by have := h.2 heq; omega⟩

/-- **Rounding goes to the nearest integer, of two to the even one.**  So how it is computed may be
forgotten: what is shown of it uses this characterization. -/
theorem roundEven_eq_iff {x : Rat} {n : Int} : roundEven x = n ↔ IsNearestEven n x :=
  ⟨fun h => h ▸ isNearestEven_roundEven x, fun h => (isNearestEven_roundEven x).unique h⟩

theorem abs_roundEven_sub_le (x : Rat) : |(roundEven x : Rat) - x| ≤ 1 / 2 :=
  (isNearestEven_roundEven x).abs_le_half

@[simp] theorem roundEven_intCast (n : Int) : roundEven n = n :=
  roundEven_eq_iff.2 (.inl (by rw [sub_self, abs_zero]; norm_num))

@[simp] theorem roundEven_neg (x : Rat) : roundEven (-x) = -roundEven x :=
  roundEven_eq_iff.2 (isNearestEven_roundEven x).neg

/-- **Rounding to integers keeps order**: results in the wrong order are a whole apart, so each
number would lie half way between them, and one number has one result. -/
theorem roundEven_mono {x y : Rat} (h : x ≤ y) : roundEven x ≤ roundEven y := by
  by_contra hlt
  have hle : (roundEven y : Rat) + 1 ≤ roundEven x := by exact_mod_cast not_le.1 hlt
  have hx := (abs_le.1 (abs_roundEven_sub_le x)).2
  have hy := (abs_le.1 (abs_roundEven_sub_le y)).1
  obtain rfl : x = y := by linarith
  exact hlt le_rfl

theorem roundEven_nonneg {x : Rat} (h : 0 ≤ x) : 0 ≤ roundEven x := by
  have hmono := roundEven_mono h
  rwa [← Int.cast_zero, roundEven_intCast] at hmono

namespace Binary64

/-! ## Exponents

The spacing at a number is the distance of the doubles around it, as an exponent of two.  It does
not fall as numbers grow, and it stops falling near zero. -/

theorem log2Floor_bounds {x : Rat} (h : 0 < x) :
    (2 : Rat) ^ log2Floor x ≤ x ∧ x < 2 ^ (log2Floor x + 1) := by
  have hden : (0 : Rat) < x.den := by exact_mod_cast x.den_pos
  have hnum : (x.num.natAbs : Rat) = x * x.den := by
    rw [Rat.mul_den_eq_num, ← Int.cast_natCast, Int.natAbs_of_nonneg (Rat.num_nonneg.2 h.le)]
  have hnum_ne : x.num.natAbs ≠ 0 := Int.natAbs_ne_zero.2 (Rat.num_ne_zero.2 h.ne')
  have hnum_low : (2 : Rat) ^ x.num.natAbs.log2 ≤ x * x.den := by
    rw [← hnum]
    exact_mod_cast Nat.log2_self_le hnum_ne
  have hnum_high : x * x.den < (2 : Rat) ^ (x.num.natAbs.log2 + 1) := by
    rw [← hnum]
    exact_mod_cast Nat.lt_log2_self
  have hden_low : (2 : Rat) ^ x.den.log2 ≤ x.den := by
    exact_mod_cast Nat.log2_self_le x.den_nz
  have hden_high : (x.den : Rat) < (2 : Rat) ^ (x.den.log2 + 1) := by
    exact_mod_cast Nat.lt_log2_self
  have hlow : (2 : Rat) ^ ((x.num.natAbs.log2 : Int) - x.den.log2 - 1) ≤ x := by
    have hpow : (2 : Rat) ^ ((x.num.natAbs.log2 : Int) - x.den.log2 - 1) * 2 ^ (x.den.log2 + 1)
        = 2 ^ x.num.natAbs.log2 := by
      rw [← zpow_natCast, ← zpow_natCast, ← zpow_add₀ two_ne_zero]
      exact congrArg _ (by push_cast; ring)
    refine le_of_mul_le_mul_right ?_ hden
    calc (2 : Rat) ^ ((x.num.natAbs.log2 : Int) - x.den.log2 - 1) * x.den
        ≤ 2 ^ ((x.num.natAbs.log2 : Int) - x.den.log2 - 1) * 2 ^ (x.den.log2 + 1) := by gcongr
      _ ≤ x * x.den := hpow.trans_le hnum_low
  have hhigh : x < (2 : Rat) ^ ((x.num.natAbs.log2 : Int) - x.den.log2 + 1) := by
    have hpow : (2 : Rat) ^ ((x.num.natAbs.log2 : Int) - x.den.log2 + 1) * 2 ^ x.den.log2
        = 2 ^ (x.num.natAbs.log2 + 1) := by
      rw [← zpow_natCast, ← zpow_natCast, ← zpow_add₀ two_ne_zero]
      exact congrArg _ (by push_cast; ring)
    refine lt_of_mul_lt_mul_right ?_ hden.le
    calc x * x.den < 2 ^ (x.num.natAbs.log2 + 1) := hnum_high
      _ = 2 ^ ((x.num.natAbs.log2 : Int) - x.den.log2 + 1) * 2 ^ x.den.log2 := hpow.symm
      _ ≤ 2 ^ ((x.num.natAbs.log2 : Int) - x.den.log2 + 1) * x.den := by gcongr
  unfold log2Floor
  dsimp only
  split
  · next h => exact ⟨hlow, by rwa [sub_add_cancel]⟩
  · next h => exact ⟨not_lt.1 h, hhigh⟩

theorem log2Floor_lt_iff {x : Rat} (h : 0 < x) {k : Int} : log2Floor x < k ↔ x < 2 ^ k := by
  obtain ⟨hlow, hhigh⟩ := log2Floor_bounds h
  refine ⟨fun hk => hhigh.trans_le (zpow_le_zpow_right₀ one_le_two (by omega)), fun hx => ?_⟩
  exact (zpow_lt_zpow_iff_right₀ one_lt_two).1 (hlow.trans_lt hx)

theorem spacing_of_ne_zero {x : Rat} (h : x ≠ 0) :
    spacing x = max (log2Floor |x| - 52) (-1074) := by
  have hmagnitude : (if x < 0 then -x else x) = |x| := by
    split
    · next hx => rw [abs_of_neg hx]
    · next hx => rw [abs_of_nonneg (not_lt.1 hx)]
  rw [spacing, if_neg h, hmagnitude]

/-- **Below a power of two the doubles are 53 binary places finer**, as far as their exponent
goes. -/
theorem spacing_le {x : Rat} {k : Int} (h : |x| < 2 ^ k) (hk : -1021 ≤ k) :
    spacing x ≤ k - 53 := by
  by_cases hx : x = 0
  · rw [spacing, if_pos hx]
    omega
  · have hlog := (log2Floor_lt_iff (abs_pos.2 hx)).2 h
    rw [spacing_of_ne_zero hx]
    omega

/-- A number has 53 binary places at most before its spacing. -/
theorem abs_lt_zpow_spacing (x : Rat) : |x| < 2 ^ (spacing x + 53) := by
  by_cases hx : x = 0
  · rw [hx, abs_zero]
    exact zpow_pos two_pos _
  · refine (log2Floor_lt_iff (abs_pos.2 hx)).1 ?_
    rw [spacing_of_ne_zero hx]
    omega

/-- And 53 at least, unless the spacing is the smallest. -/
theorem zpow_spacing_le_abs {x : Rat} (h : -1074 < spacing x) : 2 ^ (spacing x + 52) ≤ |x| := by
  by_contra hlt
  have := spacing_le (not_le.1 hlt) (by omega)
  omega

theorem neg_1074_le_spacing (x : Rat) : -1074 ≤ spacing x := by
  by_cases hx : x = 0
  · rw [spacing, if_pos hx]
  · rw [spacing_of_ne_zero hx]
    exact le_max_right _ _

/-- The doubles lie no closer around a greater number. -/
theorem spacing_le_spacing {x y : Rat} (h : |x| ≤ |y|) : spacing x ≤ spacing y := by
  by_contra hlt
  have hlow := zpow_spacing_le_abs ((neg_1074_le_spacing y).trans_lt (not_le.1 hlt))
  have hhigh : |y| < 2 ^ (spacing x + 52) :=
    (abs_lt_zpow_spacing y).trans_le (zpow_le_zpow_right₀ one_le_two (by omega))
  linarith

@[simp] theorem spacing_neg (x : Rat) : spacing (-x) = spacing x := by
  rcases lt_trichotomy x 0 with h | rfl | h
  · simp [spacing, h, h.ne, h.le.not_gt]
  · rw [neg_zero]
  · simp [spacing, h, h.ne', h.le.not_gt]

/-! ## To the nearest double -/

theorem unit_pos (x : Rat) : (0 : Rat) < 2 ^ spacing x := zpow_pos two_pos _

/-- Rounding is off by half the distance of the doubles at most. -/
theorem abs_round_sub_le_spacing (x : Rat) : |round x - x| ≤ 2 ^ spacing x / 2 := by
  have hunit := unit_pos x
  have hround : round x - x
      = (roundEven (x / 2 ^ spacing x) - x / 2 ^ spacing x) * 2 ^ spacing x := by
    rw [sub_mul, div_mul_cancel₀ _ hunit.ne']
    rfl
  rw [hround, abs_mul, abs_of_pos hunit]
  linarith [mul_le_mul_of_nonneg_right (abs_roundEven_sub_le (x / 2 ^ spacing x)) hunit.le]

/-- **Below a power of two, rounding is off by half a unit of its 53rd place at most.** -/
theorem abs_round_sub_le {x : Rat} {k : Int} (h : |x| < 2 ^ k) (hk : -1021 ≤ k) :
    |round x - x| ≤ 2 ^ (k - 54) := by
  have hpow : (2 : Rat) ^ (k - 53) = 2 ^ (k - 54) * 2 := by
    rw [← zpow_add_one₀ two_ne_zero]
    exact congrArg _ (by ring)
  have hunit : (2 : Rat) ^ spacing x ≤ 2 ^ (k - 53) :=
    zpow_le_zpow_right₀ one_le_two (spacing_le h hk)
  linarith [abs_round_sub_le_spacing x]

/-- **A whole number of 53 bits is a double.**  It is a multiple of the spacing at it, so there is
nothing to round. -/
theorem round_intCast {n : Int} (h : |n| < 2 ^ 53) : round n = n := by
  have hspacing : spacing n ≤ 0 := by
    refine spacing_le (k := 53) ?_ (by decide)
    exact_mod_cast h
  obtain ⟨e, he⟩ := Int.le.dest hspacing
  have hunit : (2 : Rat) ^ spacing n = (2 ^ e)⁻¹ := by
    rw [show spacing (n : Rat) = -e by omega, zpow_neg, zpow_natCast]
  have hscaled : (n : Rat) / 2 ^ spacing n = ((n * 2 ^ e : Int) : Rat) := by
    rw [hunit, div_inv_eq_mul]
    push_cast
    rfl
  rw [round, hscaled, roundEven_intCast, ← hscaled, div_mul_cancel₀ _ (unit_pos n).ne']

theorem round_natCast {n : Nat} (h : n < 2 ^ 53) : round n = n := by
  have hbits : |(n : Int)| < 2 ^ 53 := by
    rw [abs_of_nonneg (Int.natCast_nonneg _)]
    exact_mod_cast h
  exact_mod_cast round_intCast hbits

/-- A power of two that is no finer than the doubles around a number counts whole units. -/
theorem exists_zpow_eq {x : Rat} {k : Int} (hk : spacing x ≤ k) :
    ∃ n : Int, (n : Rat) = 2 ^ k / 2 ^ spacing x := by
  obtain ⟨e, he⟩ := Int.le.dest hk
  refine ⟨2 ^ e, ?_⟩
  rw [← he, zpow_add₀ two_ne_zero, mul_div_cancel_left₀ _ (unit_pos x).ne', zpow_natCast]
  push_cast
  rfl

/-- **Rounding does not pass a power of two from below**… -/
theorem round_le_zpow {x : Rat} {k : Int} (h : x ≤ 2 ^ k) (hk : spacing x ≤ k) :
    round x ≤ 2 ^ k := by
  obtain ⟨n, hn⟩ := exists_zpow_eq hk
  have hscaled : roundEven (x / 2 ^ spacing x) ≤ n := by
    rw [← roundEven_intCast n, hn]
    exact roundEven_mono (div_le_div_of_nonneg_right h (unit_pos x).le)
  rw [round, ← le_div_iff₀ (unit_pos x), ← hn]
  exact_mod_cast hscaled

/-- Nor does it pass a power of two from above. -/
theorem zpow_le_round {x : Rat} {k : Int} (h : 2 ^ k ≤ x) (hk : spacing x ≤ k) :
    2 ^ k ≤ round x := by
  obtain ⟨n, hn⟩ := exists_zpow_eq hk
  have hscaled : n ≤ roundEven (x / 2 ^ spacing x) := by
    rw [← roundEven_intCast n, hn]
    exact roundEven_mono (div_le_div_of_nonneg_right h (unit_pos x).le)
  rw [round, ← div_le_iff₀ (unit_pos x), ← hn]
  exact_mod_cast hscaled

theorem round_nonneg {x : Rat} (h : 0 ≤ x) : 0 ≤ round x :=
  mul_nonneg (by exact_mod_cast roundEven_nonneg (div_nonneg h (unit_pos x).le)) (unit_pos x).le

@[simp] theorem round_neg (x : Rat) : round (-x) = -round x := by
  simp [round, neg_div]

/-- Numbers with the same doubles around them are rounded in order; between others lies a power of
two, which neither of them passes. -/
theorem round_le_round_of_nonneg {x y : Rat} (hx : 0 ≤ x) (h : x ≤ y) : round x ≤ round y := by
  have habs : |x| ≤ |y| := by rwa [abs_of_nonneg hx, abs_of_nonneg (hx.trans h)]
  rcases (spacing_le_spacing habs).lt_or_eq with hlt | heq
  · have hlow := zpow_spacing_le_abs ((neg_1074_le_spacing x).trans_lt hlt)
    have hhigh : |x| < 2 ^ (spacing y + 52) :=
      (abs_lt_zpow_spacing x).trans_le (zpow_le_zpow_right₀ one_le_two (by omega))
    rw [abs_of_nonneg (hx.trans h)] at hlow
    rw [abs_of_nonneg hx] at hhigh
    exact (round_le_zpow hhigh.le (by omega)).trans (zpow_le_round hlow (by omega))
  · have hscaled := roundEven_mono (div_le_div_of_nonneg_right h (unit_pos x).le)
    rw [round, round, ← heq]
    exact mul_le_mul_of_nonneg_right (by exact_mod_cast hscaled) (unit_pos x).le

/-- **Rounding to doubles keeps order**, for numbers of either sign and also where they lie far
apart. -/
theorem round_mono : Monotone round := by
  intro x y h
  rcases le_total 0 x with hx | hx
  · exact round_le_round_of_nonneg hx h
  rcases le_total 0 y with hy | hy
  · have hneg : round x ≤ 0 := by
      rw [← neg_nonneg, ← round_neg]
      exact round_nonneg (neg_nonneg.2 hx)
    exact hneg.trans (round_nonneg hy)
  · have hneg := round_le_round_of_nonneg (neg_nonneg.2 hy) (neg_le_neg h)
    rw [round_neg, round_neg] at hneg
    exact neg_le_neg_iff.1 hneg

end Binary64

end RunRecord
