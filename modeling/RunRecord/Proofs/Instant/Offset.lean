import RunRecord.Proofs.Instant.RoundTrip

/-!
# Proofs/Instant/Offset — an instant is read from every offset

A text **writes** an instant (`Writes`) if it is the local date and time at some offset from
universal time, with the fraction of the second in however many digits and the offset behind it.
Every instant has a local time at every offset, a leap second too, as long as the calendar goes so
far (`exists_isLocal`), and what writes an instant is read as that instant (`Writes.read_eq`).

Texts that write no instant are left out here, such as times of day that do not exist and local
times outside the calendar.  A few of them are read as well, for instance with more than nine
decimals, and nothing is said about these.
-/

namespace RunRecord

open Digits

namespace Instant

/-! ## Local times -/

/-- **There is a local time at every offset**, as far as the calendar goes: whole minutes leave a
leap second at the end of a minute. -/
theorem exists_isLocal {t : Instant} {offset : Int}
    (h : firstDay ≤ (t.epochSecond + offset * 60) / 86400 ∧
      (t.epochSecond + offset * 60) / 86400 ≤ lastDay) : ∃ l, t.IsLocal offset l := by
  have hsecond := t.second_lt
  have hnano := t.nano_lt
  refine ⟨{ day := (t.epochSecond + offset * 60) / 86400
            second := ((t.epochSecond + offset * 60) % 86400).toNat
            nano := t.nano
            day_range := h
            second_lt := by omega
            nano_lt := ?_ }, ?_, rfl⟩
  · rw [epochSecond]
    omega
  · rw [epochSecond]
    dsimp only
    omega

/-! ## Spellings

An instant has many texts: one for each offset, each with its fraction in several lengths.  The
relation has one constructor, which puts the parts together. -/

/-- Hours and minutes, in two digits each. -/
def hoursMinutes (minutes : Nat) : List Char :=
  fixed 2 (minutes / 60) ++ ':' :: fixed 2 (minutes % 60)

/-- **How an offset of whole minutes is written**: hours and minutes behind a sign, or the letter of
universal time. -/
inductive IsZone : (offset : Int) → List Char → Prop
  | zulu : IsZone 0 ['Z']
  | ahead {minutes : Nat} : minutes < 1440 → IsZone minutes ('+' :: hoursMinutes minutes)
  | behind {minutes : Nat} : minutes < 1440 → IsZone (-minutes) ('-' :: hoursMinutes minutes)

/-- Every offset of less than a day can be written. -/
theorem exists_isZone {offset : Int} (h : offset.natAbs < 1440) : ∃ zone, IsZone offset zone := by
  obtain ⟨minutes, rfl | rfl⟩ := offset.eq_nat_or_neg
  · exact ⟨_, .ahead (by omega)⟩
  · exact ⟨_, .behind (by omega)⟩

/-- **A text writes an instant**: date and time of day at some offset, the fraction of the second,
and the offset. -/
inductive Writes (t : Instant) : List Char → Prop
  | intro {offset : Int} {l : Instant} {fraction zone : List Char} : t.IsLocal offset l →
    IsFraction (t.nano % nanosPerSecond) fraction → IsZone offset zone →
    Writes t ((Date.ofDay l.day).text ++ 'T' :: (l.clockText ++ (fraction ++ zone)))

/-- The text of an instant is one that writes it, in universal time. -/
theorem writes_text (t : Instant) : t.Writes t.text := by
  have hlocal : t.IsLocal 0 t := ⟨by omega, rfl⟩
  rw [text, timeText, List.append_assoc, List.cons_append, List.append_assoc]
  exact .intro hlocal (isFraction_fractionText _) .zulu

/-! ## Offsets

The hours of an offset are two digits and its minutes two more, of which the first is below six. -/

theorem IsZone.natAbs_lt {offset : Int} {zone : List Char} (h : IsZone offset zone) :
    offset.natAbs < 1440 := by
  cases h with
  | zulu => decide
  | ahead hminutes => omega
  | behind hminutes => omega

/-- An offset carries no fraction on. -/
theorem IsZone.fractionEnd {offset : Int} {zone : List Char} (h : IsZone offset zone) :
    FractionEnd zone := by
  cases h with
  | _ =>
    rintro _ ⟨⟩
    exact ⟨by decide, by decide⟩

theorem scanPair_fixed (n : Nat) (r : List Char) :
    scanPair (fixed 2 n ++ r) = .ok ((digit (n / 10), digit n), r) := by
  have hdigits : (isDigit (digit (n / 10)) && isDigit (digit n)) = true := by
    rw [isDigit_digit, isDigit_digit]
    rfl
  simp only [fixed, List.nil_append, List.cons_append, scanPair]
  rw [if_pos hdigits]

/-- A minute of an hour begins with a digit below six. -/
theorem toNat_digit_lt {n : Nat} (h : n < 60) : (digit (n / 10)).toNat < '6'.toNat := by
  have hvalue := digitValue_digit (n / 10)
  have hsix : '6'.toNat = 0x36 := rfl
  rw [digitValue] at hvalue
  omega

theorem scanHoursMinutes_hoursMinutes {minutes : Nat} (h : minutes < 1440) :
    scanHoursMinutes (hoursMinutes minutes) = .ok (minutes, []) := by
  have hcolon : ∀ n : Nat, (':' :: fixed 2 n).dropWhile (fun c => c = ':' || isBlank c)
      = fixed 2 n := by
    intro n
    have hdigit := isDigit_digit (n / 10)
    have hstop : ¬ ((digit (n / 10) = ':' || isBlank (digit (n / 10))) = true) := by
      rw [isBlank_of_isDigit hdigit]
      intro heq
      rw [Bool.or_false, decide_eq_true_eq] at heq
      rw [heq] at hdigit
      exact absurd hdigit (by decide)
    rw [List.dropWhile_cons_of_pos (by decide)]
    exact List.dropWhile_cons_of_neg hstop
  have hminutes := scanPair_fixed (minutes % 60) []
  rw [List.append_nil] at hminutes
  have hvalue : ∀ n, n < 100 → value [digit (n / 10), digit n] = n := fun n hn =>
    (value_fixed_of_lt hn : value (fixed 2 n) = n)
  have hsum : minutes / 60 * 60 + minutes % 60 = minutes := by omega
  simp only [hoursMinutes, scanHoursMinutes, scanPair_fixed, hcolon, hminutes, bind, Except.bind]
  rw [if_pos (toNat_digit_lt (Nat.mod_lt _ (by decide))), hvalue _ (by omega), hvalue _ (by omega),
    hsum]

/-- **An offset is scanned as it is written.**  An offset of zero has three spellings: the letter,
and zero hours and minutes behind either sign. -/
theorem IsZone.scanOffset_eq {offset : Int} {zone : List Char} (h : IsZone offset zone) :
    scanOffset zone = .ok (offset, []) := by
  have hname : ∀ {c : Char} (r : List Char), c.toUpper ≠ 'U' →
      ((c :: r).take 3).map Char.toUpper ≠ ['U', 'T', 'C'] := fun r hc heq => by
    rw [List.take_succ_cons, List.map_cons] at heq
    exact hc (List.cons.inj heq).1
  cases h with
  | zulu => exact scanOffset_zulu []
  | ahead hminutes =>
    simp only [scanOffset, dropBlanks_cons (show isBlank '+' = false by decide)]
    rw [if_neg (hname _ (by decide)), if_neg (by decide), if_pos trivial,
      scanHoursMinutes_hoursMinutes hminutes]
    rfl
  | behind hminutes =>
    simp only [scanOffset, dropBlanks_cons (show isBlank '-' = false by decide)]
    rw [if_neg (hname _ (by decide)), if_neg (by decide), if_neg (by decide), if_pos (.inl trivial),
      scanHoursMinutes_hoursMinutes hminutes]
    rfl

/-! ## The whole -/

/-- **What writes an instant is read as the instant.**  The date, the time of day and the offset are
scanned one after the other, and the local time is moved back. -/
theorem Writes.read_eq {t : Instant} {text : List Char} (h : t.Writes text) :
    read text = .ok t := by
  obtain ⟨hlocal, hfraction, hzone⟩ := h
  have hnano : t.nano % nanosPerSecond < 1000000000 := Nat.mod_lt _ (by decide)
  have hscan := hfraction.scanFraction_append hnano hzone.fractionEnd
  rw [← hlocal.nano] at hscan
  rw [read_local _ hscan hzone.scanOffset_eq rfl, hlocal.ofLocal_eq hzone.natAbs_lt]

end Instant

end RunRecord
