import RunRecord.Proofs.Elapsed.Rounding

/-!
# Proofs/Elapsed/Order — elapsed times are ordered as spans are

Away from leap seconds a span is the difference of two clocks: it grows with its end, and changes
its sign where its ends change places.  Every rounding on the way to its text keeps order and is
odd.  What is left is the step from one whole second to the next, where the rest starts again from
zero: it never rounds above one, and **whole seconds of any two instants are doubles**
(`seconds_le_seconds`), so nothing is overtaken there.

The texts are compared as the numbers that they denote, since as texts they are not in order:
`10.000` comes before `9.000`.  Both zeros denote zero, so that `-0.000`, which a short span
backwards is shown as, is no less than `0.000`.  Leap seconds are left out of the comparison,
because spans into them do not grow with their ends.
-/

namespace RunRecord

/-! ## Spans

Instants carry their leap seconds as a fraction of more than a second.  Outside of them an instant
is a number of nanoseconds, and a span is a difference of two such numbers. -/

namespace Instant

/-- An instant within a leap second. -/
def IsLeap (t : Instant) : Prop := nanosPerSecond ≤ t.nano

/-- Whether an instant is in a leap second is told by its nanoseconds. -/
instance (t : Instant) : Decidable t.IsLeap := inferInstanceAs (Decidable (_ ≤ _))

variable {a b start stop stop' : Instant}

/-- **Away from leap seconds a span is the difference of two clocks.**  The correction is for leap
seconds only, and the seconds and fractions add up to nanoseconds. -/
theorem span_eq (ha : ¬ a.IsLeap) (hb : ¬ b.IsLeap) :
    a.span b = (b.epochSecond - a.epochSecond) * 1000000000 + (b.nano - a.nano) := by
  unfold IsLeap nanosPerSecond at ha hb
  have hcorrection : leapCorrection a b = 0 := by
    rw [leapCorrection, if_neg (fun h => ha h.2), if_neg (fun h => hb h.2)]
  rw [span, hcorrection, nanoOfDay, nanoOfDay, epochSecond, epochSecond]
  omega

theorem span_swap (ha : ¬ a.IsLeap) (hb : ¬ b.IsLeap) : b.span a = -a.span b := by
  rw [span_eq ha hb, span_eq hb ha]
  omega

theorem span_le_span (hstart : ¬ start.IsLeap) (hstop : ¬ stop.IsLeap) (hstop' : ¬ stop'.IsLeap)
    (h : stop ≤ stop') : start.span stop ≤ start.span stop' := by
  rw [le_def, lt_def] at h
  unfold IsLeap nanosPerSecond at hstop hstop'
  rw [span_eq hstart hstop, span_eq hstart hstop']
  omega

theorem span_pos (ha : ¬ a.IsLeap) (hb : ¬ b.IsLeap) (h : a < b) : 0 < a.span b := by
  rw [lt_def] at h
  unfold IsLeap nanosPerSecond at ha hb
  rw [span_eq ha hb]
  omega

/-- The seconds of a span have 53 bits, as far apart as instants can be. -/
theorem natAbs_span_lt (a b : Instant) : (a.span b).natAbs < 2 ^ 53 * 10 ^ 9 := by
  have ha := a.day_range
  have hb := b.day_range
  have ha_second := a.second_lt
  have hb_second := b.second_lt
  have ha_nano := a.nano_lt
  have hb_nano := b.nano_lt
  unfold firstDay lastDay at ha hb
  unfold span nanoOfDay leapCorrection
  split
  · omega
  split <;> omega

end Instant

namespace Elapsed

open Digits

/-! ## Rounded spans

Rounding a sum keeps order if each summand does, but here the second summand falls back at each
whole second.  That it is never rounded beyond one second makes up for this. -/

/-- **Seconds keep order**: within a second the rests do, and a rest rounds to no more than one.
Otherwise the whole seconds decide, which are exact. -/
theorem seconds_le_seconds {m n : Nat} (h : m ≤ n) (hn : n < 2 ^ 53 * 10 ^ 9) :
    seconds m ≤ seconds n := by
  have hwhole : Binary64.round (m / 1000000000 : Nat) = (m / 1000000000 : Nat) :=
    Binary64.round_natCast (by omega)
  have hwhole' : Binary64.round (n / 1000000000 : Nat) = (n / 1000000000 : Nat) :=
    Binary64.round_natCast (by omega)
  unfold seconds
  dsimp only
  rw [hwhole, hwhole']
  refine Binary64.round_mono ?_
  rcases (Nat.div_le_div_right (c := 1000000000) h).eq_or_lt with heq | hlt
  · have hrest : m % 1000000000 ≤ n % 1000000000 := by omega
    rw [heq]
    gcongr
    exact Binary64.round_mono (by gcongr)
  · have hone : Binary64.round ((m % 1000000000 : Nat) / 1000000000) ≤ 1 := by
      have hrest : ((m % 1000000000 : Nat) : Rat) ≤ 1000000000 := by
        exact_mod_cast (Nat.mod_lt m (by decide)).le
      calc Binary64.round ((m % 1000000000 : Nat) / 1000000000)
          ≤ Binary64.round (1 : Nat) := Binary64.round_mono (by
            rw [Nat.cast_one]
            exact div_le_one_of_le₀ hrest (by norm_num))
        _ = 1 := by rw [Binary64.round_natCast (by decide), Nat.cast_one]
    have hnext : ((m / 1000000000 : Nat) : Rat) + 1 ≤ (n / 1000000000 : Nat) := by
      exact_mod_cast hlt
    have hnonneg : 0 ≤ Binary64.round ((n % 1000000000 : Nat) / 1000000000) :=
      Binary64.round_nonneg (by positivity)
    linarith

theorem thousandths_le_thousandths {m n : Nat} (h : m ≤ n) (hn : n < 2 ^ 53 * 10 ^ 9) :
    thousandths m ≤ thousandths n := by
  have hseconds := roundEven_mono
    (mul_le_mul_of_nonneg_right (seconds_le_seconds h hn) (by norm_num : (0 : Rat) ≤ 1000))
  rw [← natCast_thousandths, ← natCast_thousandths] at hseconds
  exact_mod_cast hseconds

/-- **Signed spans keep order**: of two that are negative the greater is nearer to zero.  Rounding
to even is odd, so the sign can be put in front. -/
theorem signedThousandths_le {m n : Int} (h : m ≤ n) (hm : m.natAbs < 2 ^ 53 * 10 ^ 9)
    (hn : n.natAbs < 2 ^ 53 * 10 ^ 9) : signedThousandths m ≤ signedThousandths n := by
  unfold signedThousandths
  split
  · split
    · have := thousandths_le_thousandths (show n.natAbs ≤ m.natAbs by omega) hm
      omega
    · omega
  · rw [if_neg (by omega)]
    exact_mod_cast thousandths_le_thousandths (show m.natAbs ≤ n.natAbs by omega) hn

/-! ## The number that a text denotes -/

/-- What digits, a point and digits denote. -/
def unsigned? (text : List Char) : Option Rat :=
  match text.dropWhile isDigit with
  | '.' :: fraction =>
    let whole := text.takeWhile isDigit
    if whole ≠ [] ∧ fraction ≠ [] ∧ fraction.all isDigit then
      some (value whole + value fraction / 10 ^ fraction.length)
    else none
  | _ => none

/-- What a decimal fraction denotes, with a minus sign in front or without. -/
def number? : (text : List Char) → Option Rat
  | '-' :: text => (unsigned? text).map Neg.neg
  | text => unsigned? text

theorem unsigned?_decimal (n : Nat) : unsigned? (decimal n) = some ((n : Rat) / 1000) := by
  have hdigits : ∀ c ∈ digits (n / 1000), isDigit c = true := fun _ => isDigit_of_mem_digits
  have hpoint : ¬ isDigit '.' = true := by decide
  have htake : (decimal n).takeWhile isDigit = digits (n / 1000) := by
    rw [decimal, List.takeWhile_append_of_pos hdigits, List.takeWhile_cons_of_neg hpoint,
      List.append_nil]
  have hdrop : (decimal n).dropWhile isDigit = '.' :: fixed 3 n := by
    rw [decimal, List.dropWhile_append_of_pos hdigits, List.dropWhile_cons_of_neg hpoint]
  have hfraction : (fixed 3 n).all isDigit = true :=
    List.all_eq_true.2 fun _ => isDigit_of_mem_fixed
  have hne : fixed 3 n ≠ [] := by
    rw [← List.length_pos_iff, length_fixed]
    decide
  have hsplit : (n : Rat) = (n / 1000 : Nat) * 1000 + (n % 10 ^ 3 : Nat) := by
    exact_mod_cast (Nat.div_add_mod' n 1000).symm
  simp only [unsigned?, hdrop, htake]
  rw [if_pos ⟨digits_ne_nil _, hne, hfraction⟩, value_digits, value_fixed, length_fixed, hsplit]
  exact congrArg some (by ring)

/-- **A span is written as the number it was rounded to**, divided by a thousand. -/
theorem number?_text (n : Int) : number? (text n) = some ((signedThousandths n : Rat) / 1000) := by
  unfold text signedThousandths
  split
  · rw [number?, unsigned?_decimal, Option.map_some, Int.cast_neg, Int.cast_natCast, neg_div]
  · obtain ⟨c, cs, hcs⟩ := List.exists_cons_of_ne_nil (digits_ne_nil (thousandths n.natAbs / 1000))
    have hminus : c ≠ '-' := by
      rintro rfl
      have hdigit := isDigit_of_mem_digits (hcs ▸ List.mem_cons_self : '-' ∈ digits _)
      exact absurd hdigit (by decide)
    have hunsigned : number? (decimal (thousandths n.natAbs))
        = unsigned? (decimal (thousandths n.natAbs)) := by
      rw [decimal, hcs, List.cons_append, number?]
      exact fun _ heq => hminus (List.cons.inj heq).1
    rw [hunsigned, unsigned?_decimal, Int.cast_natCast]

end Elapsed

/-! ## Elapsed times -/

/-- **Elapsed times are ordered as their ends are, and change their sign with the direction.**  The
number shown is the sum of signed seconds in double precision, rounded to thousandths.  Away from
leap seconds a later end gives no smaller number, from whatever start; and backwards the text is the
one forwards behind a minus sign, also where both show zero. -/
theorem elapsed_keeps_order :
    (∀ start stop : Instant, Elapsed.number? (elapsed start stop).toList =
      some ((roundEven (Elapsed.signedSeconds (start.span stop) * 1000) : Rat) / 1000)) ∧
    (∀ start stop stop' : Instant, ¬ start.IsLeap → ¬ stop.IsLeap → ¬ stop'.IsLeap →
      stop ≤ stop' →
      ∃ x y, Elapsed.number? (elapsed start stop).toList = some x ∧
        Elapsed.number? (elapsed start stop').toList = some y ∧ x ≤ y) ∧
    ∀ a b : Instant, ¬ a.IsLeap → ¬ b.IsLeap → a < b → elapsed b a = "-" ++ elapsed a b := by
  have hnumber : ∀ start stop : Instant, Elapsed.number? (elapsed start stop).toList =
      some ((Elapsed.signedThousandths (start.span stop) : Rat) / 1000) := by
    intro start stop
    rw [elapsed, String.toList_ofList, Elapsed.number?_text]
  refine ⟨fun start stop => ?_, fun start stop stop' hstart hstop hstop' hle => ?_,
    fun a b ha hb hlt => ?_⟩
  · rw [hnumber, Elapsed.roundEven_signedSeconds]
  · have hspan := Elapsed.signedThousandths_le (Instant.span_le_span hstart hstop hstop' hle)
      (Instant.natAbs_span_lt _ _) (Instant.natAbs_span_lt _ _)
    have hthousand : (0 : Rat) ≤ 1000 := by norm_num
    exact ⟨_, _, hnumber start stop, hnumber start stop',
      div_le_div_of_nonneg_right (Int.cast_le.2 hspan) hthousand⟩
  · have hpos := Instant.span_pos ha hb hlt
    have hback : Elapsed.text (-a.span b) = '-' :: Elapsed.text (a.span b) := by
      rw [Elapsed.text, Elapsed.text, if_pos (by omega), if_neg (by omega), Int.natAbs_neg]
    rw [elapsed, elapsed, Instant.span_swap ha hb, hback, String.ofList_cons]
    rfl

/-- The first nanosecond of 1970. -/
def nextTick : Instant := (Instant.ofEpoch? 0 1).get rfl

/-- The first instant there is. -/
def openingTick : Instant := (Instant.ofParts? firstDay 0 0).get rfl

/-- The last instant there is outside a leap second. -/
def closingTick : Instant := (Instant.ofParts? lastDay 86399 999999999).get rfl

/-- The shortest span there is shows zero in either direction, with a sign and without; and the
longest, taken backwards, is shown no greater than none at all. -/
theorem shortestSpan_keeps_order :
    (¬ Elapsed.firstTick.IsLeap ∧ ¬ nextTick.IsLeap ∧ Elapsed.firstTick < nextTick ∧
      elapsed Elapsed.firstTick nextTick = "0.000" ∧
      elapsed nextTick Elapsed.firstTick = "-0.000") ∧
    ¬ closingTick.IsLeap ∧ ¬ openingTick.IsLeap ∧ openingTick ≤ closingTick ∧
      ∃ x y, Elapsed.number? (elapsed closingTick openingTick).toList = some x ∧
        Elapsed.number? (elapsed closingTick closingTick).toList = some y ∧ x ≤ y := by
  have hfirst : ¬ Elapsed.firstTick.IsLeap := by decide
  have hnext : ¬ nextTick.IsLeap := by decide
  have hlast : ¬ closingTick.IsLeap := by decide
  have hdawn : ¬ openingTick.IsLeap := by decide
  have hzero : elapsed Elapsed.firstTick nextTick = "0.000" := by decide +kernel
  have hback := elapsed_keeps_order.2.2 Elapsed.firstTick nextTick hfirst hnext (by decide)
  rw [hzero] at hback
  exact ⟨⟨hfirst, hnext, by decide, hzero, hback⟩, hlast, hdawn, by decide,
    elapsed_keeps_order.2.1 _ _ _ hlast hdawn hlast (by decide)⟩

end RunRecord
