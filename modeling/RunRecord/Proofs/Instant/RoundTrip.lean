import RunRecord.Instant.Printer
import RunRecord.Instant.Reader
import RunRecord.Proofs.Calendar
import RunRecord.Proofs.Text.Digits

/-!
# Proofs/Instant/RoundTrip — a printed instant is read back

Every scan is stated **with an arbitrary rest**: what a printer writes, with anything behind it that
does not carry the last number on, is taken off the front and nothing more.  Put together, the text
of a local time is read as that time at whatever offset stands behind it (`read_local`); a local
time is moved back to the instant it belongs to (`IsLocal.ofLocal_eq`); and so the text of an
instant is read as that instant (`read_text`).

The calendar enters through two facts: the date of a day is a date, and its day is that day again.
All else is about digits and what may stand behind them.  The years that instants can lie in have up
to six digits, so their sign is needed to tell where they end.
-/

namespace RunRecord

open Digits

namespace Instant

/-! ## What stands in front -/

theorem isBlank_of_isDigit {c : Char} (h : isDigit c = true) : isBlank c = false := by
  simp only [isDigit, Bool.and_eq_true, decide_eq_true_eq] at h
  simp only [isBlank, Bool.or_eq_false_iff, Bool.and_eq_false_iff, decide_eq_false_iff_not,
    beq_eq_false_iff_ne, ne_eq]
  omega

theorem dropBlanks_cons {c : Char} (h : isBlank c = false) (cs : List Char) :
    dropBlanks (c :: cs) = c :: cs := by
  rw [dropBlanks, List.dropWhile_cons_of_neg (by simp [h])]

/-- A run of digits has no blanks in front. -/
theorem dropBlanks_digits_append {ds : List Char} (hd : ∀ c ∈ ds, isDigit c = true)
    (hne : ds ≠ []) (r : List Char) : dropBlanks (ds ++ r) = ds ++ r := by
  obtain ⟨c, cs, rfl⟩ := List.exists_cons_of_ne_nil hne
  exact dropBlanks_cons (isBlank_of_isDigit (hd c List.mem_cons_self)) _

/-! ## Numbers and marks

A number that is scanned has a greatest width, and ends before it where no digit comes next.  What a
printer writes is exactly as wide as it has to be, or is followed by a mark. -/

/-- Whether a run of digits ends where `r` starts. -/
def NoDigit (r : List Char) : Prop := ∀ c ∈ r.head?, isDigit c = false

theorem noDigit_cons {c : Char} (h : isDigit c = false) (r : List Char) : NoDigit (c :: r) := by
  rintro _ ⟨⟩
  exact h

theorem dropWhile_isDigit_of_noDigit {r : List Char} (h : NoDigit r) :
    r.dropWhile isDigit = r := by
  cases r with
  | nil => rfl
  | cons c r => rw [List.dropWhile_cons_of_neg (by simp [h c rfl])]

theorem takeWhile_isDigit_of_noDigit {r : List Char} (h : NoDigit r) (count : Nat) :
    (r.take count).takeWhile isDigit = [] := by
  cases r with
  | nil => simp
  | cons c r =>
    cases count with
    | zero => rfl
    | succ count => rw [List.take_succ_cons, List.takeWhile_cons_of_neg (by simp [h c rfl])]

/-- The digits among the first `width` characters of a run: all of the run, or as many as fit. -/
theorem takeWhile_isDigit_append {ds r : List Char} {width : Nat}
    (hd : ∀ c ∈ ds, isDigit c = true) (hr : width ≤ ds.length ∨ NoDigit r) :
    ((ds ++ r).take width).takeWhile isDigit = ds.take width := by
  rw [List.take_append, List.takeWhile_append_of_pos fun c hc => hd c (List.mem_of_mem_take hc)]
  rcases hr with hr | hr
  · rw [Nat.sub_eq_zero_of_le hr]
    simp
  · rw [takeWhile_isDigit_of_noDigit hr, List.append_nil]

/-- **A run of digits is read whole**, if the width has room for it and nothing carries it on.  Its
value must also be small enough for the number it is to become. -/
theorem scanDigits_append {ds r : List Char} {width : Nat} (hd : ∀ c ∈ ds, isDigit c = true)
    (hne : ds ≠ []) (hw : ds.length ≤ width) (hr : width ≤ ds.length ∨ NoDigit r)
    (hv : value ds < tooGreat) : scanDigits width (ds ++ r) = .ok (value ds, r) := by
  have hrun := takeWhile_isDigit_append hd hr
  rw [List.take_of_length_le hw] at hrun
  obtain ⟨c, cs, rfl⟩ := List.exists_cons_of_ne_nil hne
  rw [List.cons_append] at hrun ⊢
  simp only [scanDigits, hrun]
  rw [if_pos hv, ← List.cons_append, List.drop_left]

/-- Two digits are read as the number they were written from. -/
theorem scanNumber_fixed {least greatest n : Nat} (h1 : least ≤ n) (h2 : n ≤ greatest)
    (hn : n < 100) (r : List Char) :
    scanNumber least greatest (fixed 2 n ++ r) = .ok (n, r) := by
  have hd : ∀ c ∈ fixed 2 n, isDigit c = true := fun c hc => isDigit_of_mem_fixed hc
  have hv : value (fixed 2 n) = n := value_fixed_of_lt hn
  have hscan : scanDigits 2 (fixed 2 n ++ r) = .ok (value (fixed 2 n), r) :=
    scanDigits_append hd (by simp [fixed]) (by simp) (.inl (by simp))
      (by rw [hv]; exact Nat.lt_trans hn (by decide))
  rw [scanNumber, dropBlanks_digits_append hd (by simp [fixed]), hscan, hv]
  exact if_pos ⟨h1, h2⟩

theorem scanMark_cons {mark : Char} (h : isBlank mark = false) (r : List Char) :
    scanMark mark (mark :: r) = .ok ((), r) := by
  simp [scanMark, dropBlanks_cons h]

/-! ## Dates -/

/-- **A year is read back**: four digits as they stand, more or fewer behind their sign. -/
theorem scanYear_yearText {year : Int} (h1 : -2147483648 ≤ year) (h2 : year ≤ 2147483647)
    {r : List Char} (hr : NoDigit r) : scanYear (yearText year ++ r) = .ok (year, r) := by
  have hd : ∀ c ∈ padded 4 year.natAbs, isDigit c = true := fun c hc => isDigit_of_mem_padded hc
  have hne : padded 4 year.natAbs ≠ [] := by simp [padded, digits_ne_nil]
  have hv : value (padded 4 year.natAbs) < tooGreat := by
    rw [value_padded]
    unfold tooGreat
    omega
  have hlong : scanDigits (padded 4 year.natAbs ++ r).length (padded 4 year.natAbs ++ r)
      = .ok (year.natAbs, r) := by
    rw [scanDigits_append hd hne (by simp) (.inr hr) hv, value_padded]
  have hrange : -2147483648 ≤ year ∧ year ≤ 2147483647 := ⟨h1, h2⟩
  unfold yearText
  split
  · next hneg =>
    have hyear : -(year.natAbs : Int) = year := by omega
    simp only [scanYear, List.cons_append, dropBlanks_cons (show isBlank '-' = false by decide),
      hlong, Except.map, hyear, bind, Except.bind]
    exact if_pos hrange
  split
  · next hneg hle =>
    have hfixed : padded 4 year.natAbs = fixed 4 year.natAbs := padded_eq_fixed (by omega)
    have hshort : scanDigits 4 (padded 4 year.natAbs ++ r) = .ok (year.natAbs, r) := by
      rw [scanDigits_append hd hne (by simp [hfixed]) (.inl (by simp [hfixed])) hv, value_padded]
    have hyear : (year.natAbs : Int) = year := by omega
    rw [scanYear, dropBlanks_digits_append hd hne]
    obtain ⟨c, cs, hc⟩ := List.exists_cons_of_ne_nil hne
    rw [hc] at hd hshort ⊢
    have hdigit := hd c List.mem_cons_self
    have hminus : c ≠ '-' := by rintro rfl; revert hdigit; decide
    have hplus : c ≠ '+' := by rintro rfl; revert hdigit; decide
    rw [List.cons_append] at hshort ⊢
    split
    · next heq => exact absurd (List.cons.inj heq).1 hminus
    · next heq => exact absurd (List.cons.inj heq).1 hplus
    · simp only [hshort, Except.map, hyear, bind, Except.bind]
      exact if_pos hrange
  · next hneg hgt =>
    have hyear : (year.natAbs : Int) = year := by omega
    simp only [scanYear, List.cons_append, dropBlanks_cons (show isBlank '+' = false by decide),
      hlong, Except.map, hyear, bind, Except.bind]
    exact if_pos hrange

/-- The first day of the years an instant can lie in is no earlier than that of the year
-262143, and the last no later than that of the year 262142. -/
theorem year_bounds {day : Int} (h : firstDay ≤ day ∧ day ≤ lastDay) :
    -262143 ≤ (Date.ofDay day).year ∧ (Date.ofDay day).year ≤ 262142 := by
  obtain ⟨h1, h2⟩ := h
  refine Date.year_ofDay_bounds ?_ ?_
  · unfold Date.daysBeforeYear Date.epoch
    unfold firstDay at h1
    omega
  · unfold Date.daysBeforeYear Date.epoch
    unfold lastDay at h2
    omega

/-- **A date is scanned back**, whatever stands behind it.  Its year is followed by a mark, so it is
read to its end however many digits it has. -/
theorem scanDate_text {day : Int} (h : firstDay ≤ day ∧ day ≤ lastDay) (r : List Char) :
    scanDate ((Date.ofDay day).text ++ r) = .ok (Date.ofDay day, r) := by
  obtain ⟨hy1, hy2⟩ := year_bounds h
  obtain ⟨⟨hm1, hm12⟩, hd1, hd2⟩ := Date.valid_ofDay day
  have hd31 : (Date.ofDay day).day ≤ 31 := by
    refine Nat.le_trans hd2 ?_
    unfold Date.monthLength
    split <;> split <;> decide
  have hdash : isBlank '-' = false := by decide
  have hyear : ∀ r, scanYear (yearText (Date.ofDay day).year ++ '-' :: r)
      = .ok ((Date.ofDay day).year, '-' :: r) := fun r =>
    scanYear_yearText (by omega) (by omega) (noDigit_cons (by decide) r)
  simp only [Date.text, List.append_assoc, List.cons_append, scanDate, hyear,
    scanMark_cons hdash, scanNumber_fixed hm1 hm12 (by omega),
    scanNumber_fixed hd1 hd31 (by omega), bind, Except.bind]

/-! ## Fractions of a second

The digits of a fraction have their value by their place, so zeros at the end may be left out or
added.  More than nine digits are read and the rest of them dropped. -/

/-- **The digits behind the point are read to the ninth**, as if there were nine of them. -/
theorem scanFraction_digits {ds r : List Char} (hd : ∀ c ∈ ds, isDigit c = true) (hne : ds ≠ [])
    (hr : NoDigit r) :
    scanFraction ('.' :: (ds ++ r))
      = .ok (value (ds.take 9 ++ List.replicate (9 - ds.length) '0'), r) := by
  have htake : ∀ c ∈ ds.take 9, isDigit c = true := fun c hc => hd c (List.mem_of_mem_take hc)
  have hrun : ((ds ++ r).take 9).takeWhile isDigit = ds.take 9 :=
    takeWhile_isDigit_append hd (.inr hr)
  have hscan : scanDigits 9 (ds ++ r) = .ok (value (ds.take 9), ds.drop 9 ++ r) := by
    have hv : value (ds.take 9) < tooGreat :=
      Nat.lt_of_lt_of_le (value_lt htake)
        (Nat.le_trans (Nat.pow_le_pow_right (by decide) (List.length_take_le 9 ds)) (by decide))
    have hwhole : ds.take 9 ++ (ds.drop 9 ++ r) = ds ++ r := by
      rw [← List.append_assoc, List.take_append_drop]
    rw [← hwhole]
    refine scanDigits_append htake (by simp [hne]) (List.length_take_le 9 ds) ?_ hv
    rcases Nat.lt_or_ge ds.length 9 with hlt | hge
    · rw [List.drop_eq_nil_of_le (Nat.le_of_lt hlt)]
      exact .inr hr
    · exact .inl (by rw [List.length_take]; omega)
  have hrest : (ds.drop 9 ++ r).dropWhile isDigit = r := by
    rw [List.dropWhile_append_of_pos fun c hc => hd c (List.mem_of_mem_drop hc),
      dropWhile_isDigit_of_noDigit hr]
  have hpad : 9 - (ds.take 9).length = 9 - ds.length := by
    rw [List.length_take]
    omega
  simp only [scanFraction, hscan, hrun, hrest, hpad, bind, Except.bind]

/-- What may stand behind a fraction: neither a digit nor a point. -/
def FractionEnd (r : List Char) : Prop := ∀ c ∈ r.head?, isDigit c = false ∧ c ≠ '.'

theorem FractionEnd.noDigit {r : List Char} (h : FractionEnd r) : NoDigit r :=
  fun c hc => (h c hc).1

/-- Without a point there is no fraction. -/
theorem scanFraction_none {r : List Char} (h : FractionEnd r) : scanFraction r = .ok (0, r) := by
  cases r with
  | nil => rfl
  | cons c r =>
    have hpoint : c ≠ '.' := (h c rfl).2
    unfold scanFraction
    split
    · next heq => exact absurd (List.cons.inj heq).1 hpoint
    · rfl

/-- **How a fraction of a second is written**: not at all if it is zero, or as a point and its nine
decimals, with any zeros at their end added or left out. -/
inductive IsFraction (nano : Nat) : List Char → Prop
  | none : nano = 0 → IsFraction nano []
  | digits {ds : List Char} {fewer more : Nat} : ds ≠ [] →
    ds ++ List.replicate fewer '0' = fixed 9 nano ++ List.replicate more '0' →
    IsFraction nano ('.' :: ds)

/-- The fewest groups of digits are one way. -/
theorem isFraction_fractionText (nano : Nat) : IsFraction nano (fractionText nano) := by
  unfold fractionText
  split
  · next h0 => exact .none h0
  split
  · next h0 h1 =>
    refine @IsFraction.digits _ _ 6 0 (by simp [fixed]) ?_
    rw [fixed_append_zeros, List.replicate_zero, List.append_nil]
    exact congrArg (fixed 9) (by omega)
  split
  · next h0 h1 h2 =>
    refine @IsFraction.digits _ _ 3 0 (by simp [fixed]) ?_
    rw [fixed_append_zeros, List.replicate_zero, List.append_nil]
    exact congrArg (fixed 9) (by omega)
  · exact @IsFraction.digits _ _ 0 0 (by simp [fixed]) rfl

/-- **A fraction is scanned back**, however it is written.  A written fraction with its trailing
zeros begins with the nine decimals, and so does what is scanned. -/
theorem IsFraction.scanFraction_append {nano : Nat} {fraction r : List Char}
    (h : IsFraction nano fraction) (hn : nano < 1000000000) (hr : FractionEnd r) :
    scanFraction (fraction ++ r) = .ok (nano, r) := by
  cases h with
  | none h0 => rw [List.nil_append, scanFraction_none hr, h0]
  | @digits ds fewer more hne hds =>
    have hd : ∀ c ∈ ds, isDigit c = true := fun c hc => by
      have hmem : c ∈ fixed 9 nano ++ List.replicate more '0' :=
        hds ▸ List.mem_append_left _ hc
      rcases List.mem_append.1 hmem with hc | hc
      · exact isDigit_of_mem_fixed hc
      · rw [(List.mem_replicate.1 hc).2]
        rfl
    have hlength := congrArg List.length hds
    rw [List.length_append, List.length_append, length_fixed, List.length_replicate,
      List.length_replicate] at hlength
    have hnine : ds.take 9 ++ List.replicate (9 - ds.length) '0' = fixed 9 nano := by
      have htake := congrArg (List.take 9) hds
      rwa [List.take_append, List.take_replicate, Nat.min_eq_left (by omega),
        List.take_left' (length_fixed 9 nano)] at htake
    rw [List.cons_append, scanFraction_digits hd hne hr.noDigit, hnine, value_fixed_of_lt hn]

/-! ## Times of day -/

/-- **A time of day is scanned back**, a leap second included, however its fraction is written.  The
second that is shown is 60 exactly in a leap second, whose fraction is a second longer. -/
theorem scanTime_clockText (t : Instant) {fraction r : List Char}
    (hfraction : scanFraction (fraction ++ r) = .ok (t.nano % nanosPerSecond, r)) :
    scanTime (t.clockText ++ (fraction ++ r)) = .ok ((t.second, t.nano), r) := by
  have hsecond := t.second_lt
  have hcolon : isBlank ':' = false := by decide
  have hminutes : t.second / 3600 * 60 + t.second / 60 % 60 = t.second / 60 := by omega
  have hshown : t.shownSecond ≤ 60 := by
    unfold shownSecond
    split <;> omega
  simp only [clockText, List.append_assoc, List.cons_append, scanTime, hfraction,
    scanMark_cons hcolon, scanNumber_fixed (Nat.zero_le _) (show t.second / 3600 ≤ 23 by omega)
      (by omega), scanNumber_fixed (Nat.zero_le _) (show t.second / 60 % 60 ≤ 59 by omega)
      (by omega), scanNumber_fixed (Nat.zero_le _) hshown (by omega), hminutes, bind, Except.bind]
  unfold shownSecond nanosPerSecond
  rcases t.nano_lt with hnano | ⟨hlast, hnano⟩
  · rw [if_pos hnano, if_neg (by omega), Nat.mod_eq_of_lt hnano]
    exact congrArg (fun n => Except.ok ((n, t.nano), r)) (by omega)
  · split
    · next h =>
      rw [if_neg (by omega), Nat.mod_eq_of_lt h]
      exact congrArg (fun n => Except.ok ((n, t.nano), r)) (by omega)
    · next h =>
      rw [if_pos rfl, show t.second / 60 * 60 + 59 = t.second by omega,
        show t.nano % 1000000000 + 1000000000 = t.nano by omega]

/-! ## Offsets -/

/-- The letter of universal time. -/
theorem scanOffset_zulu (r : List Char) : scanOffset ('Z' :: r) = .ok (0, r) := by
  have hblank : isBlank 'Z' = false := by decide
  have hzulu : ((('Z' :: r).take 3).map Char.toUpper) ≠ ['U', 'T', 'C'] := by
    rw [List.take_succ_cons, List.map_cons]
    intro h
    exact absurd (List.cons.inj h).1 (by decide)
  simp only [scanOffset, dropBlanks_cons hblank]
  rw [if_neg hzulu]
  exact if_pos (.inl trivial)

/-! ## The whole -/

/-- **A local date and time is read with the fraction and the offset behind it.**  What is read is
the instant that the local time is at this offset. -/
theorem read_local (l : Instant) {offset : Int} {fraction zone rest : List Char}
    (hfraction : scanFraction (fraction ++ zone) = .ok (l.nano % nanosPerSecond, zone))
    (hoffset : scanOffset zone = .ok (offset, rest)) (hrest : dropBlanks rest = []) :
    read ((Date.ofDay l.day).text ++ 'T' :: (l.clockText ++ (fraction ++ zone)))
      = ofLocal (Date.ofDay l.day) l.second l.nano offset := by
  have hseparator : ∀ r, scanSeparator ('T' :: r) = .ok ((), r) := fun r => by
    rw [scanSeparator]
    exact if_pos (.inl rfl)
  simp only [read, scanDate_text l.day_range, hseparator, scanTime_clockText l hfraction, hoffset,
    bind, Except.bind]
  exact if_pos hrest

/-- **The local time of an instant**: what a clock shows that is ahead of universal time by some
minutes, in the same fraction of a second. -/
structure IsLocal (t : Instant) (offset : Int) (l : Instant) : Prop where
  clock : l.epochSecond = t.epochSecond + offset * 60
  nano : l.nano = t.nano

/-- **A local time is moved back to the instant.**  The day it lies on may be another than the local
one, to either side. -/
theorem IsLocal.ofLocal_eq {t l : Instant} {offset : Int} (h : t.IsLocal offset l)
    (hoffset : offset.natAbs < 1440) :
    ofLocal (Date.ofDay l.day) l.second l.nano offset = .ok t := by
  have hclock := h.clock
  have hsecond := t.second_lt
  have hday := l.day_range
  rw [epochSecond, epochSecond] at hclock
  have hin : ¬ (¬ (Date.ofDay l.day).Valid ∨ (Date.ofDay l.day).toDay < firstDay ∨
      lastDay < (Date.ofDay l.day).toDay ∨ 1440 ≤ offset.natAbs) := by
    rw [Date.toDay_ofDay]
    rintro (h | h | h | h)
    · exact h (Date.valid_ofDay l.day)
    · omega
    · omega
    · omega
  have hparts : ofParts? (l.day + (l.second - offset * 60) / 86400)
      ((l.second - offset * 60 : Int) % 86400).toNat l.nano = some t :=
    ofParts?_eq_some_iff.2 ⟨by omega, by omega, h.nano.symm⟩
  rw [ofLocal, if_neg hin, Date.toDay_ofDay]
  simp only [hparts]

/-- **Reading the text of an instant gives the instant back.**  So an instant is told by its text,
and no two have one text. -/
@[simp] theorem read_text (t : Instant) : read t.text = .ok t := by
  have hend : FractionEnd ['Z'] := by
    rintro _ ⟨⟩
    exact ⟨by decide, by decide⟩
  have hnano : t.nano % nanosPerSecond < 1000000000 := Nat.mod_lt _ (by decide)
  have hfraction := (isFraction_fractionText _).scanFraction_append hnano hend
  have hlocal : t.IsLocal 0 t := ⟨by omega, rfl⟩
  rw [text, timeText, List.append_assoc, List.cons_append, List.append_assoc,
    read_local t hfraction (scanOffset_zulu []) rfl, hlocal.ofLocal_eq (by decide)]

end Instant

end RunRecord
