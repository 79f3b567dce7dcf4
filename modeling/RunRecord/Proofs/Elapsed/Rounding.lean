import RunRecord.Elapsed
import RunRecord.Proofs.Binary64
import RunRecord.Proofs.Text.Digits

/-!
# Proofs/Elapsed/Rounding — elapsed times are rounded to the nearest thousandth

A span goes through three roundings: the rest of a second is divided in double precision, added to
the whole seconds in double precision, and the sum is rounded to thousandths.  Below 2 ^ 24 seconds
the first two are off by less than a nanosecond together (`abs_seconds_sub_lt`), and a span is a
whole number of nanoseconds, so no half-thousandth can lie between a span and its double.

The bound is chosen for what it says of the third rounding: below it, the error of the other two is
too small to carry a span over a point half way between two thousandths.  Beyond it the number shown
is still that of the sum in double precision; only it may be another than the nearest.
-/

namespace RunRecord.Elapsed

open Digits

/-! ## Seconds

A double has 53 bits, and both summands and their sum are rounded to one.  The errors are bounded by
the size of what is rounded. -/

theorem seconds_nonneg (n : Nat) : 0 ≤ seconds n := by
  refine Binary64.round_nonneg (add_nonneg (Binary64.round_nonneg ?_) (Binary64.round_nonneg ?_))
  · exact Nat.cast_nonneg _
  · positivity

/-- **The seconds of a span below 2 ^ 24 seconds are off by less than a nanosecond.**  Two roundings
contribute, that of the rest and that of the sum. -/
theorem abs_seconds_sub_lt {n : Nat} (h : n < 2 ^ 24 * 10 ^ 9) :
    |seconds n - n / 10 ^ 9| < 1 / 10 ^ 9 := by
  have hwhole_lt : n / 1000000000 < 2 ^ 24 := by omega
  have hrest_lt : n % 1000000000 ≤ 999999999 := by omega
  have hsplit : (n : Rat) = (n / 1000000000 : Nat) * 1000000000 + (n % 1000000000 : Nat) := by
    exact_mod_cast (Nat.div_add_mod' n 1000000000).symm
  unfold seconds
  dsimp only
  generalize n / 1000000000 = whole at hwhole_lt hsplit
  generalize n % 1000000000 = rest at hrest_lt hsplit
  have hwhole : Binary64.round (whole : Nat) = whole := Binary64.round_natCast (by omega)
  have hwhole_le : (whole : Rat) ≤ 2 ^ 24 - 1 := by
    have hle : (whole : Rat) + 1 ≤ 2 ^ 24 := by exact_mod_cast hwhole_lt
    linarith
  have hrest_nonneg : (0 : Rat) ≤ rest / 1000000000 := by positivity
  have hrest_le : (rest : Rat) / 1000000000 ≤ 999999999 / 1000000000 := by
    gcongr
    exact_mod_cast hrest_lt
  have hrest : |Binary64.round ((rest : Rat) / 1000000000) - rest / 1000000000|
      ≤ 2 ^ (-54 : Int) := by
    refine Binary64.abs_round_sub_le (k := 0) ?_ (by decide)
    rw [abs_of_nonneg hrest_nonneg]
    norm_num
    linarith
  have hround_nonneg := Binary64.round_nonneg hrest_nonneg
  generalize Binary64.round ((rest : Rat) / 1000000000) = rounded at hrest hround_nonneg
  have hsum : |Binary64.round (whole + rounded) - (whole + rounded)| ≤ 2 ^ (-30 : Int) := by
    refine Binary64.abs_round_sub_le (k := 24) ?_ (by decide)
    rw [abs_of_nonneg (by positivity)]
    have := (abs_le.1 hrest).2
    norm_num at this ⊢
    linarith
  have hexact : (n : Rat) / 10 ^ 9 = whole + rest / 1000000000 := by
    rw [hsplit]
    ring
  rw [hwhole, hexact]
  generalize Binary64.round (whole + rounded) = sum at hsum
  calc |sum - (whole + rest / 1000000000)|
      ≤ |sum - (whole + rounded)| + |whole + rounded - (whole + rest / 1000000000)| :=
        abs_sub_le _ _ _
    _ ≤ 2 ^ (-30 : Int) + 2 ^ (-54 : Int) := by
        rw [add_sub_add_left_eq_sub]
        exact add_le_add hsum hrest
    _ < 1 / 10 ^ 9 := by norm_num

/-- The seconds of a span that may be negative: whole seconds toward zero and the rest, both with
the sign of the span. -/
def signedSeconds (nanos : Int) : Rat :=
  Binary64.round (Binary64.round (nanos.tdiv 1000000000 : Int) +
    Binary64.round ((nanos.tmod 1000000000 : Int) / 1000000000))

@[simp] theorem signedSeconds_natCast (n : Nat) : signedSeconds n = seconds n := by
  have hwhole : (n : Int).tdiv 1000000000 = (n / 1000000000 : Nat) := rfl
  have hrest : (n : Int).tmod 1000000000 = (n % 1000000000 : Nat) := rfl
  rw [signedSeconds, hwhole, hrest, Int.cast_natCast, Int.cast_natCast]
  rfl

@[simp] theorem signedSeconds_neg (n : Int) : signedSeconds (-n) = -signedSeconds n := by
  rw [signedSeconds, Int.neg_tdiv, Int.neg_tmod, Int.cast_neg, Int.cast_neg, neg_div,
    Binary64.round_neg, Binary64.round_neg, ← neg_add, Binary64.round_neg]
  rfl

/-! ## Thousandths

Rounding to thousandths is to even at halves.  The sign is treated apart, since it is rounding of
magnitudes that is carried out in the program. -/

theorem natCast_thousandths (n : Nat) : (thousandths n : Int) = roundEven (seconds n * 1000) :=
  Int.toNat_of_nonneg (roundEven_nonneg (mul_nonneg (seconds_nonneg n) (by norm_num)))

/-- **A span below 2 ^ 24 seconds is rounded to a nearest thousandth**: an error of less than a
nanosecond cannot show in whole nanoseconds. -/
theorem abs_thousandths_sub_le {n : Nat} (h : n < 2 ^ 24 * 10 ^ 9) :
    |(thousandths n : Int) * 10 ^ 6 - n| ≤ 500000 := by
  have hseconds := abs_seconds_sub_lt h
  have hround := abs_roundEven_sub_le (seconds n * 1000)
  rw [natCast_thousandths]
  generalize roundEven (seconds n * 1000) = m at hround
  have hlt : |(m : Rat) * 10 ^ 6 - n| < 500001 := by
    rw [abs_lt] at hseconds ⊢
    rw [abs_le] at hround
    constructor <;> linarith
  have hlt' : |m * 10 ^ 6 - (n : Int)| < 500001 := by exact_mod_cast hlt
  omega

/-- The thousandths of a span that may be negative. -/
def signedThousandths (nanos : Int) : Int :=
  if nanos < 0 then -thousandths nanos.natAbs else thousandths nanos.natAbs

/-- **Sign and magnitude may be taken apart before rounding**, as rounding to even treats both signs
alike. -/
theorem roundEven_signedSeconds (n : Int) :
    roundEven (signedSeconds n * 1000) = signedThousandths n := by
  unfold signedThousandths
  split
  · next h =>
    obtain ⟨k, rfl⟩ : ∃ k : Nat, n = -k := ⟨n.natAbs, by omega⟩
    rw [signedSeconds_neg, neg_mul, roundEven_neg, signedSeconds_natCast, Int.natAbs_neg,
      Int.natAbs_natCast, natCast_thousandths]
  · next h =>
    obtain ⟨k, rfl⟩ := Int.eq_ofNat_of_zero_le (not_lt.1 h)
    rw [signedSeconds_natCast, Int.natAbs_natCast, natCast_thousandths]

theorem abs_signedThousandths_sub_le {n : Int} (h : |n| < 2 ^ 24 * 10 ^ 9) :
    |signedThousandths n * 10 ^ 6 - n| ≤ 500000 := by
  have hnat := abs_thousandths_sub_le (n := n.natAbs) (by rw [abs_lt] at h; omega)
  rw [abs_le] at hnat ⊢
  unfold signedThousandths
  split <;> omega

/-! ## Texts

What a text is made of is data, so that the digits, the point and the sign can be spoken of one by
one, and the number that they make can be computed. -/

/-- **A text of three decimals**, taken apart: a minus sign or none, a whole number without
superfluous zeros, a point, and three digits. -/
structure Decimals (text : List Char) where
  negative : Bool
  whole : List Char
  fraction : List Char
  text_eq : text = (if negative then ['-'] else []) ++ whole ++ '.' :: fraction
  whole_ne_nil : whole ≠ []
  isDigit_of_mem_whole : ∀ c ∈ whole, isDigit c = true
  whole_eq_zero : whole.head? = some '0' → whole = ['0']
  length_fraction : fraction.length = 3
  isDigit_of_mem_fraction : ∀ c ∈ fraction, isDigit c = true

/-- The signed number that is left without the point. -/
def Decimals.withoutPoint {text : List Char} (d : Decimals text) : Int :=
  if d.negative then -value (d.whole ++ d.fraction) else value (d.whole ++ d.fraction)

/-- A text of three decimals begins with a minus sign or with a digit. -/
theorem Decimals.head?_eq_minus_iff {text : List Char} (d : Decimals text) :
    text.head? = some '-' ↔ d.negative = true := by
  obtain ⟨c, cs, hwhole⟩ := List.exists_cons_of_ne_nil d.whole_ne_nil
  have hc : c ≠ '-' := by
    rintro rfl
    exact absurd (d.isDigit_of_mem_whole '-' (hwhole ▸ List.mem_cons_self)) (by decide)
  have htext := d.text_eq
  rw [hwhole] at htext
  cases hnegative : d.negative <;> simp [htext, hnegative, hc]

/-- What a span is written as, taken apart. -/
def decimals (nanos : Int) : Decimals (text nanos) where
  negative := nanos < 0
  whole := digits (thousandths nanos.natAbs / 1000)
  fraction := fixed 3 (thousandths nanos.natAbs)
  text_eq := by
    unfold text decimal
    by_cases h : nanos < 0 <;> simp [h]
  whole_ne_nil := digits_ne_nil _
  isDigit_of_mem_whole _ h := isDigit_of_mem_digits h
  whole_eq_zero h := by
    obtain ⟨cs, hcs⟩ := List.head?_eq_some_iff.1 h
    rw [hcs, (eq_zero_of_digits_eq hcs).2]
  length_fraction := length_fixed 3 _
  isDigit_of_mem_fraction _ h := isDigit_of_mem_fixed h

/-- The digits of a number of thousandths are the number. -/
theorem value_decimal (n : Nat) : value (digits (n / 1000) ++ fixed 3 n) = n := by
  rw [value_append, value_digits, value_fixed, length_fixed]
  omega

theorem withoutPoint_decimals (n : Int) : (decimals n).withoutPoint = signedThousandths n := by
  simp only [Decimals.withoutPoint, decimals, value_decimal, signedThousandths, decide_eq_true_eq]

/-- **An elapsed time is the span rounded to thousandths.**  Its text has three decimals and a sign
exactly for a negative span; without the point it is the sum of seconds in double precision, rounded
to thousandths; and below 2 ^ 24 seconds that is a nearest thousandth of the exact span. -/
theorem elapsed_is_rounded (start stop : Instant) :
    ∃ d : Decimals (elapsed start stop).toList,
      (d.negative = true ↔ start.span stop < 0) ∧
      d.withoutPoint = roundEven (signedSeconds (start.span stop) * 1000) ∧
      (|start.span stop| < 2 ^ 24 * 10 ^ 9 →
        |d.withoutPoint * 10 ^ 6 - start.span stop| ≤ 500000) := by
  rw [elapsed, String.toList_ofList]
  refine ⟨decimals (start.span stop), by simp [decimals], ?_, fun h => ?_⟩
  · rw [withoutPoint_decimals, roundEven_signedSeconds]
  · rw [withoutPoint_decimals]
    exact abs_signedThousandths_sub_le h

/-- The first instant of 1970. -/
def firstTick : Instant := (Instant.ofEpoch? 0 0).get rfl

/-- Half a millisecond before 2 ^ 24 seconds of 1970 are over. -/
def lastTie : Instant := (Instant.ofEpoch? 16777215 999500000).get rfl

/-- The greatest span that lies halfway between two thousandths, taken backwards, is rounded. -/
theorem lastTie_is_rounded :
    lastTie.span firstTick = -16777215999500000 ∧ |lastTie.span firstTick| < 2 ^ 24 * 10 ^ 9 ∧
      ∃ d : Decimals (elapsed lastTie firstTick).toList, d.negative = true ∧
        |d.withoutPoint * 10 ^ 6 - lastTie.span firstTick| ≤ 500000 := by
  have hspan : lastTie.span firstTick = -16777215999500000 := by decide
  have hbound : |lastTie.span firstTick| < 2 ^ 24 * 10 ^ 9 := by
    rw [hspan]
    decide
  obtain ⟨d, hnegative, -, hnear⟩ := elapsed_is_rounded lastTie firstTick
  exact ⟨hspan, hbound, d, hnegative.2 (by rw [hspan]; decide), hnear hbound⟩

end RunRecord.Elapsed
