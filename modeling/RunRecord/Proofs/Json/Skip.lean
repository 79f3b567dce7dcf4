import Mathlib.Data.List.DropRight
import RunRecord.Proofs.Json.Tree

/-!
# Proofs/Json/Skip — what is passed over are exactly the texts of trees

Passing over a value succeeds on every text of every tree (`run_skipValue`) and on nothing else
(`exists_of_run_skipValue`).  The second needs to know what the frames that are still open ask of
the bytes to come: a stack of frames **closes** a text if the rest of each array and object stands
in it, the innermost first.

A reader that does not know a key has to get past its value without keeping it, and it does so
without recursion: it keeps the arrays and objects that are open as a stack of frames.  The
statements below therefore carry the stack along.  What a step does to it is stated once for each
kind of step, and the induction over the grammar, as well as the one over the run, uses these steps
only.
-/

namespace RunRecord.Json

open Reader

variable {α : Type}

/-! ## The next token

Readers look for the next token and not for the next byte.  Here the two ways of stating that, by
white space that is dropped and by a token that is found, are tied together. -/

/-- A reader that looks ahead sees the next token, and no white space. -/
theorem Reader.run_lookAhead_token {s t : Bytes} {b : UInt8} (h : Token s b t)
    (f : Option UInt8 → Reader α) : (lookAhead f).run s = (f (some b)).run (b :: t) := by
  have hlook : (lookAhead f).run s = (look f).run (s.dropWhile isSpace) := rfl
  rw [hlook, h]
  rfl

/-- A reader that looks ahead sees the end if there is nothing but white space left. -/
theorem Reader.run_lookAhead_end {s : Bytes} (h : s.dropWhile isSpace = [])
    (f : Option UInt8 → Reader α) : (lookAhead f).run s = (f none).run [] := by
  have hlook : (lookAhead f).run s = (look f).run (s.dropWhile isSpace) := rfl
  rw [hlook, h]
  rfl

/-- A value is read from its first token on. -/
theorem run_value_token {s t : Bytes} {b : UInt8} (h : Token s b t) (f : UInt8 → Reader α) :
    (value f).run s = (f b).run (b :: t) := run_lookAhead_token h _

/-- A reader that looks ahead goes on from the next token or from the end. -/
theorem Reader.exists_of_run_lookAhead {s r : Bytes} {f : Option UInt8 → Reader α} {a : α}
    (h : (lookAhead f).run s = .ok (a, r)) :
    (f none).run [] = .ok (a, r) ∨ ∃ b t, Token s b t ∧ (f (some b)).run (b :: t) = .ok (a, r) := by
  have hlook : (lookAhead f).run s = (look f).run (s.dropWhile isSpace) := rfl
  rw [hlook] at h
  rcases hs : s.dropWhile isSpace with _ | ⟨b, t⟩
  · rw [hs] at h
    exact .inl h
  · rw [hs] at h
    exact .inr ⟨b, t, hs, h⟩

/-- What is read as a value has a first token. -/
theorem exists_of_run_value {s r : Bytes} {f : UInt8 → Reader α} {a : α}
    (h : (value f).run s = .ok (a, r)) :
    ∃ b t, Token s b t ∧ (f b).run (b :: t) = .ok (a, r) := by
  obtain h | h := exists_of_run_lookAhead h
  · cases h
  · exact h

/-- A token is no white space. -/
theorem Token.not_isSpace {s t : Bytes} {b : UInt8} (h : Token s b t) : isSpace b = false := by
  have := List.head?_dropWhile_not Reader.isSpace s
  rw [h] at this
  simpa using this

/-- A reader that takes a byte goes on from behind it or from the end. -/
theorem Reader.exists_of_run_take_bind {s r : Bytes} {f : Option UInt8 → Reader α} {a : α}
    (h : (take >>= f).run s = .ok (a, r)) :
    (f none).run [] = .ok (a, r) ∨ ∃ b t, s = b :: t ∧ (f (some b)).run t = .ok (a, r) := by
  cases s with
  | nil => exact .inl h
  | cons b t => exact .inr ⟨b, t, rfl, h⟩

/-- A colon is passed over with the white space before it. -/
theorem run_colon {s t : Bytes} (h : Token s 0x3A t) : colon.run s = .ok ((), t) :=
  run_lookAhead_token h _

/-- Nothing but a colon is passed over as one. -/
theorem token_of_run_colon {s r : Bytes} {u : Unit} (h : colon.run s = .ok (u, r)) :
    Token s 0x3A r := by
  obtain h | ⟨b, t, htoken, h⟩ := exists_of_run_lookAhead h
  · cases h
  · dsimp only at h
    split at h
    · next hb =>
      cases h
      exact hb ▸ htoken
    · cases h

/-! ## Literals -/

/-- The rest of a literal is passed over where it stands. -/
theorem run_literal (bs r : Bytes) : (literal bs).run (bs ++ r) = .ok ((), r) := by
  induction bs with
  | nil => rfl
  | cons b bs ih =>
    rw [literal, List.cons_append, run_bind_ok (run_take b _)]
    simp only [if_true]
    exact ih

/-- What is passed over as the rest of a literal is that rest. -/
theorem eq_of_run_literal {bs s r : Bytes} {u : Unit} (h : (literal bs).run s = .ok (u, r)) :
    s = bs ++ r := by
  induction bs generalizing s with
  | nil =>
    cases h
    rfl
  | cons b bs ih =>
    obtain h | ⟨c, t, hs, h⟩ := exists_of_run_take_bind h
    · cases h
    · dsimp only at h
      split at h
      · next hc => rw [hs, hc, ih h, List.cons_append]
      · cases h

/-! ## Strings -/

/-- **The body of a string is passed over.**  By induction on the body: each plain byte and each
escape is passed over alone. -/
theorem skipTextRun_body {body : Bytes} (h : IsBody body) (r : Bytes) :
    skipTextRun (body ++ quoteByte :: r) = .ok ((), r) := by
  have hescape : ∀ {s t : Bytes}, skipEscape.run s = .ok ((), t) →
      skipTextRun (backslash :: s) = skipTextRun t := fun {s t} hs => by
    rw [skipTextRun, if_neg (by decide), if_pos rfl]
    split
    · next he => rw [hs] at he; cases he
    · next he => rw [hs] at he; cases he; rfl
  induction h with
  | nil => rw [List.nil_append, skipTextRun, if_pos rfl]
  | plain hb _ ih =>
    rw [List.cons_append, skipTextRun, if_neg hb.1, if_neg hb.2.1, if_neg (by simp [hb.2.2]), ih]
  | @short b s hb _ ih =>
    have hne : b ≠ 0x75 := by
      rintro rfl
      exact absurd hb (by decide)
    rw [List.cons_append, List.cons_append, hescape (t := s ++ quoteByte :: r), ih]
    rw [skipEscape, run_bind_ok (run_take b _)]
    simp only [hne, if_false, hb, if_true]
    rfl
  | @unicode a b c d s hvalue _ ih =>
    obtain ⟨n, hn⟩ := Option.isSome_iff_exists.1 hvalue
    have hhex : hex4.run (a :: b :: c :: d :: (s ++ quoteByte :: r))
        = .ok (n, s ++ quoteByte :: r) := by
      simp only [hex4, hn]
    simp only [List.cons_append]
    rw [hescape (t := s ++ quoteByte :: r), ih]
    rw [skipEscape, run_bind_ok (run_take 0x75 _)]
    simp only [if_true]
    rw [run_bind_ok hhex]
    rfl

/-- Four hexadecimal digits are taken off the front. -/
theorem exists_of_run_hex4 {s r : Bytes} {n : Nat} (h : hex4.run s = .ok (n, r)) :
    ∃ a b c d, s = a :: b :: c :: d :: r ∧ hexValue4? a b c d = some n := by
  simp only [hex4] at h
  split at h
  · split at h
    · next hn =>
      cases h
      exact ⟨_, _, _, _, rfl, hn⟩
    · cases h
  · cases h

/-- What is passed over as an escape has the form of one: a letter, or `u` and four hexadecimal
digits. -/
theorem exists_of_run_skipEscape {s r : Bytes} {u : Unit} (h : skipEscape.run s = .ok (u, r)) :
    (∃ b, s = b :: r ∧ (shortEscape? b).isSome) ∨
      ∃ a b c d, s = 0x75 :: a :: b :: c :: d :: r ∧ (hexValue4? a b c d).isSome := by
  obtain h | ⟨b, t, hs, h⟩ := exists_of_run_take_bind h
  · cases h
  · dsimp only at h
    split at h
    · next hb =>
      obtain ⟨n, _, hhex, h⟩ := exists_of_run_bind_eq_ok h
      cases h
      obtain ⟨a, b', c, d, rfl, hn⟩ := exists_of_run_hex4 hhex
      exact .inr ⟨a, b', c, d, hb ▸ hs, by rw [hn]; rfl⟩
    · split at h
      · next hshort =>
        cases h
        exact .inl ⟨b, hs, hshort⟩
      · cases h

/-- **What is passed over as a string is the body of one.**  By induction on the run, which ends at
a quote or fails. -/
theorem exists_of_skipTextRun {s r : Bytes} {u : Unit} (h : skipTextRun s = .ok (u, r)) :
    ∃ body : Body, s = body.bytes ++ quoteByte :: r := by
  suffices hbody : ∃ body, IsBody body ∧ s = body ++ quoteByte :: r by
    obtain ⟨body, hbody, hs⟩ := hbody
    exact ⟨⟨body, hbody⟩, hs⟩
  fun_induction skipTextRun s with
  | case1 => cases h
  | case2 =>
    cases h
    exact ⟨[], .nil, rfl⟩
  | case3 => cases h
  | case4 s _ t he _ ih =>
    obtain ⟨body, hbody, rfl⟩ := ih h
    obtain ⟨b, rfl, hb⟩ | ⟨a, b, c, d, rfl, hvalue⟩ := exists_of_run_skipEscape he
    · exact ⟨_, .short hb hbody, rfl⟩
    · exact ⟨_, .unicode hvalue hbody, rfl⟩
  | case5 => cases h
  | case6 b s hquote hslash hcontrol ih =>
    obtain ⟨body, hbody, rfl⟩ := ih h
    exact ⟨b :: body, .plain ⟨hquote, hslash, by simpa using hcontrol⟩ hbody, rfl⟩

/-! ## Numbers

The reader passes over a number in three parts, and each of them is met in both directions: that a
part of the grammar is passed over, and that nothing else is. -/

/-- Digits are taken as far as they go.  What is left begins with no digit. -/
theorem run_takeWhile_digits {ds r : Bytes} (hd : ∀ b ∈ ds, isDigit b = true)
    (hr : StopsDigits r) : (takeWhile isDigit).run (ds ++ r) = .ok (ds, r) := by
  obtain ⟨htake, hdrop⟩ := takeWhile_digits hd hr
  exact congrArg Except.ok (Prod.ext htake hdrop)

/-- What is taken as digits are digits, and no digit is left. -/
theorem exists_of_run_takeWhile_digits {s r ds : Bytes}
    (h : (takeWhile isDigit).run s = .ok (ds, r)) :
    s = ds ++ r ∧ (∀ b ∈ ds, isDigit b = true) ∧ StopsDigits r := by
  cases h
  refine ⟨List.takeWhile_append_dropWhile.symm,
    fun b hb => List.all_eq_true.1 List.all_takeWhile b hb, fun b hb => ?_⟩
  have := List.head?_dropWhile_not isDigit s
  rw [hb] at this
  simpa using this

/-- The sign of an exponent is passed over. -/
theorem run_dropSign {sign ds r : Bytes} (hsign : sign = [] ∨ sign = [0x2B] ∨ sign = [0x2D])
    (hd : IsDigits ds) :
    (look fun b => if b = some 0x2B ∨ b = some 0x2D then drop else pure ()).run
      (sign ++ (ds ++ r)) = .ok ((), ds ++ r) := by
  obtain ⟨d, ds, rfl⟩ := List.exists_cons_of_ne_nil hd.ne_nil
  have hdigit := hd.all d List.mem_cons_self
  rcases hsign with rfl | rfl | rfl
  · have hne : ¬ (some d = some 0x2B ∨ some d = some 0x2D) := by
      rintro (h | h) <;> rw [Option.some.inj h] at hdigit <;> cases hdigit
    rw [run_look, List.nil_append, List.cons_append, List.head?_cons, if_neg hne]
    rfl
  · rfl
  · rfl

/-- An exponent is passed over if it is there, and nothing is if it is not. -/
theorem run_skipOptionalExponent {e r : Bytes} (he : IsExponent e) (hr : StopsDigits r)
    (hends : e = [] → ∀ b ∈ r.head?, b ≠ 0x65 ∧ b ≠ 0x45) :
    skipOptionalExponent.run (e ++ r) = .ok ((), r) := by
  cases he with
  | none =>
    have hne : ¬ (r.head? = some 0x65 ∨ r.head? = some 0x45) := by
      rintro (h | h)
      · exact (hends rfl _ h).1 rfl
      · exact (hends rfl _ h).2 rfl
    rw [List.nil_append, skipOptionalExponent, run_look, if_neg hne]
    rfl
  | @some letter sign ds hletter hsign hd =>
    have hnext : some letter = some 0x65 ∨ some letter = some 0x45 :=
      hletter.imp (congrArg some) (congrArg some)
    rw [skipOptionalExponent, run_look, List.cons_append, List.head?_cons, if_pos hnext,
      skipExponent, run_drop_bind, List.append_assoc,
      run_bind_ok (run_dropSign hsign hd)]
    obtain ⟨d, ds, rfl⟩ := List.exists_cons_of_ne_nil hd.ne_nil
    have hdigit : (some d).any isDigit = true := hd.all d List.mem_cons_self
    have hmore : ∀ b ∈ ds, isDigit b = true := fun b hb => hd.all b (List.mem_cons_of_mem _ hb)
    rw [List.cons_append, run_bind_ok (run_take d _), if_pos hdigit,
      run_bind_ok (run_takeWhile_digits hmore hr)]
    rfl

/-- The fraction and the exponent are passed over, where either may be missing. -/
theorem run_skipAfterInteger {f e r : Bytes} (hf : IsFraction f) (he : IsExponent e)
    (hr : StopsDigits r) (hends : e = [] → ∀ b ∈ r.head?, b ≠ 0x65 ∧ b ≠ 0x45)
    (hpoint : f = [] → ∀ b ∈ (e ++ r).head?, b ≠ 0x2E) :
    skipAfterInteger.run (f ++ (e ++ r)) = .ok ((), r) := by
  cases hf with
  | none =>
    have hne : (e ++ r).head? ≠ some 0x2E := fun h => hpoint rfl _ h rfl
    rw [List.nil_append, skipAfterInteger, run_look, if_neg hne]
    exact run_skipOptionalExponent he hr hends
  | some hd =>
    rw [List.cons_append, skipAfterInteger, run_look, List.head?_cons, if_pos rfl,
      run_drop_bind, run_bind_ok (run_takeWhile_digits hd.all (he.stopsDigits hr)),
      if_neg hd.ne_nil]
    exact run_skipOptionalExponent he hr hends

/-- **A number is passed over**, from behind its sign.  That it ends there is an assumption about
what follows, and not a choice of the reader. -/
theorem run_skipNumber {n : Numeral} {r : Bytes} (hr : n.EndsAt r) :
    skipNumber.run (n.whole ++ (n.fraction ++ (n.exponent ++ r))) = .ok ((), r) := by
  have hafter := run_skipAfterInteger n.isFraction n.isExponent hr.stopsDigits
    (fun he b hb => (hr b hb).2.1 he) hr.not_point
  have hstop := n.isFraction.stopsDigits (n.isExponent.stopsDigits hr.stopsDigits)
  obtain ⟨b, ds, hds⟩ := List.exists_cons_of_ne_nil n.isWhole.ne_nil
  have hb : isDigit b = true := n.isWhole.all b (hds ▸ List.mem_cons_self)
  rw [hds, List.cons_append, skipNumber, run_bind_ok (run_take b _)]
  dsimp only
  split
  · next hzero =>
    have hwhole : ds = [] := by
      have h := n.isWhole.zero (by rw [hds, hzero]; rfl)
      rw [hds] at h
      exact List.tail_eq_of_cons_eq h
    have hnext : (n.fraction ++ (n.exponent ++ r)).head?.any isDigit = false := by
      cases hhead : (n.fraction ++ (n.exponent ++ r)).head? with
      | none => rfl
      | some c => exact hstop c hhead
    rw [hwhole, List.nil_append, run_look, hnext]
    exact hafter
  · have hmore : ∀ c ∈ ds, isDigit c = true := fun c hc =>
      n.isWhole.all c (hds ▸ List.mem_cons_of_mem _ hc)
    rw [run_bind_ok (run_takeWhile_digits hmore hstop)]
    exact hafter

/-- What is passed over as a sign is one, or nothing. -/
theorem exists_of_run_dropSign {s r : Bytes} {u : Unit}
    (h : (look fun b => if b = some 0x2B ∨ b = some 0x2D then drop else pure ()).run s
      = .ok (u, r)) :
    ∃ sign, (sign = [] ∨ sign = [0x2B] ∨ sign = [0x2D]) ∧ s = sign ++ r := by
  rw [run_look] at h
  split at h
  · next hnext =>
    obtain hplus | hminus := hnext
    · obtain ⟨t, rfl⟩ := List.head?_eq_some_iff.1 hplus
      cases h
      exact ⟨[0x2B], .inr (.inl rfl), rfl⟩
    · obtain ⟨t, rfl⟩ := List.head?_eq_some_iff.1 hminus
      cases h
      exact ⟨[0x2D], .inr (.inr rfl), rfl⟩
  · cases h
    exact ⟨[], .inl rfl, rfl⟩

/-- What is passed over as an exponent is one, and all of its digits are. -/
theorem exists_of_run_skipExponent {letter : UInt8} {t r : Bytes} {u : Unit}
    (hletter : letter = 0x65 ∨ letter = 0x45)
    (h : skipExponent.run (letter :: t) = .ok (u, r)) :
    ∃ e, letter :: t = e ++ r ∧ e ≠ [] ∧ IsExponent e ∧ StopsDigits r := by
  rw [skipExponent, run_drop_bind] at h
  obtain ⟨_, v, hsign, hdigit⟩ := exists_of_run_bind_eq_ok h
  obtain ⟨sign, hs, rfl⟩ := exists_of_run_dropSign hsign
  obtain hnone | ⟨d, w, rfl, hmore⟩ := exists_of_run_take_bind hdigit
  · cases hnone
  split at hmore
  · next hd =>
    obtain ⟨ds, _, hds, hend⟩ := exists_of_run_bind_eq_ok hmore
    cases hend
    obtain ⟨rfl, hall, hstop⟩ := exists_of_run_takeWhile_digits hds
    refine ⟨letter :: (sign ++ d :: ds), ?_, List.cons_ne_nil _ _,
      .some hletter hs (.cons hd hall), hstop⟩
    rw [List.cons_append, List.append_assoc, List.cons_append]
  · cases hmore

/-- What is passed over as an exponent is one or nothing, and nothing carries on what was passed
over. -/
theorem exists_of_run_skipOptionalExponent {s r : Bytes} {u : Unit}
    (h : skipOptionalExponent.run s = .ok (u, r)) :
    ∃ e, s = e ++ r ∧ IsExponent e ∧ ∀ b ∈ r.head?, (e ≠ [] → isDigit b = false) ∧
      (e = [] → b ≠ 0x65 ∧ b ≠ 0x45) := by
  rw [skipOptionalExponent, run_look] at h
  split at h
  · next hnext =>
    obtain ⟨letter, t, rfl, hletter⟩ : ∃ letter t, s = letter :: t ∧
        (letter = 0x65 ∨ letter = 0x45) := by
      obtain hnext | hnext := hnext
      · obtain ⟨t, rfl⟩ := List.head?_eq_some_iff.1 hnext
        exact ⟨_, t, rfl, .inl rfl⟩
      · obtain ⟨t, rfl⟩ := List.head?_eq_some_iff.1 hnext
        exact ⟨_, t, rfl, .inr rfl⟩
    obtain ⟨e, hs, hne, he, hstop⟩ := exists_of_run_skipExponent hletter h
    exact ⟨e, hs, he, fun b hb => ⟨fun _ => hstop b hb, fun hnil => absurd hnil hne⟩⟩
  · next hnext =>
    cases h
    refine ⟨[], rfl, .none, fun b hb => ⟨fun h => absurd rfl h, fun _ => ⟨?_, ?_⟩⟩⟩
    · rintro rfl
      exact hnext (.inl hb)
    · rintro rfl
      exact hnext (.inr hb)

/-- What is passed over behind the integer digits is a fraction and an exponent, either of them
perhaps missing. -/
theorem exists_of_run_skipAfterInteger {s r : Bytes} {u : Unit}
    (h : skipAfterInteger.run s = .ok (u, r)) :
    ∃ f e, s = f ++ (e ++ r) ∧ IsFraction f ∧ IsExponent e ∧ ∀ b ∈ r.head?,
      (f ≠ [] ∨ e ≠ [] → isDigit b = false) ∧ (e = [] → b ≠ 0x65 ∧ b ≠ 0x45) ∧
      (e = [] → f = [] → b ≠ 0x2E) := by
  rw [skipAfterInteger, run_look] at h
  split at h
  · next hpoint =>
    obtain ⟨t, rfl⟩ := List.head?_eq_some_iff.1 hpoint
    rw [run_drop_bind] at h
    obtain ⟨ds, v, hds, hrest⟩ := exists_of_run_bind_eq_ok h
    obtain ⟨rfl, hall, hstop⟩ := exists_of_run_takeWhile_digits hds
    split at hrest
    · cases hrest
    · next hne =>
      obtain ⟨e, rfl, he, hends⟩ := exists_of_run_skipOptionalExponent hrest
      refine ⟨0x2E :: ds, e, rfl, .some ⟨hne, hall⟩, he, fun b hb => ?_⟩
      refine ⟨fun _ => ?_, (hends b hb).2, nofun⟩
      rcases he with _ | _
      · exact hstop b hb
      · exact (hends b hb).1 (List.cons_ne_nil _ _)
  · next hpoint =>
    obtain ⟨e, rfl, he, hends⟩ := exists_of_run_skipOptionalExponent h
    refine ⟨[], e, rfl, .none, he, fun b hb => ⟨fun hne => ?_, (hends b hb).2, ?_⟩⟩
    · exact (hends b hb).1 (hne.resolve_left (· rfl))
    · rintro rfl - rfl
      exact hpoint hb

/-- **What is passed over as a number is one**, from behind its sign, and it ends there. -/
theorem exists_of_run_skipNumber {s r : Bytes} {u : Unit} (h : skipNumber.run s = .ok (u, r))
    {sign : Bytes} (hsign : sign = [] ∨ sign = [0x2D]) :
    ∃ n : Numeral, sign ++ s = n.bytes ++ r ∧ n.EndsAt r := by
  suffices hparts : ∃ whole t, s = whole ++ t ∧ IsWhole whole ∧ StopsDigits t ∧
      skipAfterInteger.run t = .ok (u, r) by
    obtain ⟨whole, t, rfl, hwhole, hstop, hafter⟩ := hparts
    obtain ⟨f, e, rfl, hf, he, hends⟩ := exists_of_run_skipAfterInteger hafter
    refine ⟨⟨sign, whole, f, e, hsign, hwhole, hf, he⟩, ?_, fun b hb => ⟨?_, (hends b hb).2⟩⟩
    · simp only [Numeral.bytes, List.append_assoc]
    · by_cases hne : f ≠ [] ∨ e ≠ []
      · exact (hends b hb).1 hne
      · rw [not_or, not_not, not_not] at hne
        rw [hne.1, hne.2] at hstop
        exact hstop b hb
  obtain h | ⟨b, t, hs, h⟩ := exists_of_run_take_bind h
  · cases h
  dsimp only at h
  split at h
  · next hzero =>
    rw [run_look] at h
    split at h
    · cases h
    · next hnext =>
      refine ⟨[0x30], t, by rw [hs, hzero]; rfl, ⟨.cons rfl (by simp), fun _ => rfl⟩,
        fun c hc => ?_, h⟩
      rw [hc] at hnext
      exact Bool.eq_false_iff.2 hnext
  · next hzero =>
    split at h
    · next hb =>
      obtain ⟨ds, v, hds, h⟩ := exists_of_run_bind_eq_ok h
      obtain ⟨ht, hall, hstop⟩ := exists_of_run_takeWhile_digits hds
      exact ⟨b :: ds, v, by rw [hs, ht]; rfl,
        ⟨.cons hb hall, fun h => absurd (Option.some.inj h) hzero⟩, hstop, h⟩
    · cases h

/-! ## Scalars -/

/-- **A scalar is passed over**, from its first byte on.  It opens no frame, so it is passed over in
one step. -/
theorem Spells.run_skipScalar {v : Tree} {s r : Bytes} (h : Spells (.value v) s r)
    (hv : v.IsScalar) :
    ∃ b t, s = b :: t ∧ Frame.opened? b = none ∧ (skipScalar b).run (b :: t) = .ok ((), r) := by
  cases h with
  | null => exact ⟨_, _, rfl, rfl, rfl⟩
  | @boolean value _ _ hs =>
    subst hs
    cases value with
    | true => exact ⟨_, _, rfl, rfl, rfl⟩
    | false => exact ⟨_, _, rfl, rfl, rfl⟩
  | @number n _ _ hs hr =>
    have hskip := run_skipNumber hr
    rcases n.isSign with hsign | hsign
    · obtain ⟨b, ds, hds⟩ := List.exists_cons_of_ne_nil n.isWhole.ne_nil
      have hb : isDigit b = true := n.isWhole.all b (hds ▸ List.mem_cons_self)
      have hne : ∀ c : UInt8, isDigit c = false → b ≠ c := by
        rintro c hc rfl
        rw [hb] at hc
        cases hc
      simp only [Numeral.bytes, hsign, hds, List.nil_append, List.append_assoc,
        List.cons_append] at hs hskip
      refine ⟨_, _, hs, ?_, ?_⟩
      · rw [Frame.opened?, if_neg (hne _ rfl), if_neg (hne _ rfl)]
      · rw [skipScalar, if_neg (hne _ rfl), if_neg (hne _ rfl), if_neg (hne _ rfl),
          if_neg (hne _ rfl), if_pos hb]
        exact hskip
    · simp only [Numeral.bytes, hsign, List.append_assoc, List.cons_append,
        List.nil_append] at hs
      exact ⟨0x2D, _, hs, rfl, hskip⟩
  | @string body _ _ hs =>
    exact ⟨quoteByte, _, hs, rfl, skipTextRun_body body.isBody r⟩
  | emptyArray | array | emptyObject | object => cases hv

/-- **What is passed over as a scalar is one.**  Its first byte says which of the readers was at
work, and each of them passes over one kind. -/
theorem spells_of_run_skipScalar {b : UInt8} {t r : Bytes} {u : Unit}
    (h : (skipScalar b).run (b :: t) = .ok (u, r)) : ∃ v, Spells (.value v) (b :: t) r := by
  unfold skipScalar at h
  split at h
  · next hb =>
    rw [run_drop_bind] at h
    rw [hb, eq_of_run_literal h]
    exact ⟨_, .null⟩
  split at h
  · next hb =>
    rw [run_drop_bind] at h
    rw [hb, eq_of_run_literal h]
    exact ⟨.boolean true, .boolean rfl⟩
  split at h
  · next hb =>
    rw [run_drop_bind] at h
    rw [hb, eq_of_run_literal h]
    exact ⟨.boolean false, .boolean rfl⟩
  split at h
  · next hb =>
    rw [run_drop_bind] at h
    obtain ⟨n, hn, hr⟩ := exists_of_run_skipNumber h (.inr rfl)
    exact ⟨_, .number (hb ▸ hn) hr⟩
  split at h
  · obtain ⟨n, hn, hr⟩ := exists_of_run_skipNumber h (.inl rfl)
    exact ⟨_, .number hn hr⟩
  split at h
  · next hb =>
    rw [run_drop_bind] at h
    obtain ⟨body, hbody⟩ := exists_of_skipTextRun h
    rw [hb, hbody]
    exact ⟨_, .string rfl⟩
  · cases h

/-! ## Steps

One step of passing over, for each thing the next token can be.  They all are the definition
unfolded once, at a token that is known. -/

section Steps

variable {frames outer : List Frame} {s t u r : Bytes} {b c : UInt8}

/-- Where a value is to begin, its first token says how it goes on. -/
theorem skipRun_begin (frames : List Frame) (s : Bytes) :
    skipRun frames false s = match s.dropWhile isSpace with
      | [] => .error { cause := .cut .value, unread := 0 }
      | b :: t =>
        match Frame.opened? b with
        | none => ((skipScalar b).run (b :: t)).bind fun x => skipRun frames true x.2
        | some frame =>
          match t.dropWhile isSpace with
          | [] => .error { cause := .cut frame.cut, unread := 0 }
          | c :: u =>
            if c = frame.closing then skipRun frames true u
            else ((skipToValue frame).run (c :: u)).bind fun x =>
              skipRun (frame :: frames) false x.2 := by
  rw [skipRun]
  split
  · next h => rw [h]
  next h =>
  rw [h]
  dsimp only
  cases Frame.opened? _ with
  | none =>
    dsimp only
    split <;> next hscalar => rw [hscalar]; rfl
  | some frame =>
    dsimp only
    split
    · next hnext => rw [hnext]
    next hnext =>
    rw [hnext]
    dsimp only
    split
    · rfl
    · split <;> next hvalue => rw [hvalue]; rfl

/-- Behind a value, the innermost frame says how it goes on. -/
theorem skipRun_behind (frame : Frame) (outer : List Frame) (s : Bytes) :
    skipRun (frame :: outer) true s = match s.dropWhile isSpace with
      | [] => .error { cause := .cut frame.cut, unread := 0 }
      | b :: t =>
        if b = frame.closing then skipRun outer true t
        else if b = 0x2C then
          ((skipToValue frame).run t).bind fun x => skipRun (frame :: outer) false x.2
        else .error { cause := .malformed frame.noComma, unread := t.length } := by
  rw [skipRun]
  split
  · next h => rw [h]
  next h =>
  rw [h]
  dsimp only
  split
  · rfl
  split
  · split <;> next hvalue => rw [hvalue]; rfl
  · rfl
/-- A scalar is passed over as a whole. -/
theorem skipRun_scalar (hs : Token s b t) (hb : Frame.opened? b = none)
    (h : (skipScalar b).run (b :: t) = .ok ((), r)) :
    skipRun frames false s = skipRun frames true r := by
  rw [skipRun_begin, hs]
  simp only [hb, h]
  rfl

/-- An empty array or object is passed over as a whole. -/
theorem skipRun_empty (frame : Frame) (hs : Token s b t) (hb : Frame.opened? b = some frame)
    (ht : Token t frame.closing r) : skipRun frames false s = skipRun frames true r := by
  rw [skipRun_begin, hs]
  simp only [hb]
  rw [ht]
  exact if_pos rfl

/-- A bracket or brace that is not closed at once opens a frame. -/
theorem skipRun_open (frame : Frame) (hs : Token s b t) (hb : Frame.opened? b = some frame)
    (ht : Token t c u) (hc : c ≠ frame.closing)
    (h : (skipToValue frame).run (c :: u) = .ok ((), r)) :
    skipRun frames false s = skipRun (frame :: frames) false r := by
  rw [skipRun_begin, hs]
  simp only [hb]
  rw [ht]
  simp only [hc, if_false, h]
  rfl

/-- What closes the innermost frame ends its value. -/
theorem skipRun_close (frame : Frame) (hs : Token s frame.closing r) :
    skipRun (frame :: outer) true s = skipRun outer true r := by
  rw [skipRun_behind, hs]
  exact if_pos rfl

/-- A comma goes on to the next value of the innermost frame. -/
theorem skipRun_next (frame : Frame) (hs : Token s 0x2C t)
    (h : (skipToValue frame).run t = .ok ((), r)) :
    skipRun (frame :: outer) true s = skipRun (frame :: outer) false r := by
  have hne : (0x2C : UInt8) ≠ frame.closing := by cases frame <;> decide
  rw [skipRun_behind, hs]
  simp only [hne, if_false, if_true, h]
  rfl

end Steps

/-! ## Values -/

/-- A key is passed over with its colon. -/
theorem run_skipKey (key : Body) {s t r : Bytes}
    (hquote : Token s quoteByte (key.bytes ++ quoteByte :: t)) (hcolon : Token t 0x3A r) :
    skipKey.run s = .ok ((), r) := by
  have htext : skipText.run (key.bytes ++ quoteByte :: t) = .ok ((), t) :=
    skipTextRun_body key.isBody t
  rw [skipKey, run_lookAhead_token hquote]
  simp only [if_true]
  rw [run_drop_bind, run_bind_ok htext]
  exact run_colon hcolon

/-- What is passed over as a key is a string with a colon behind it. -/
theorem exists_of_run_skipKey {s r : Bytes} {u : Unit} (h : skipKey.run s = .ok (u, r)) :
    ∃ (key : Body) (t : Bytes), Token s quoteByte (key.bytes ++ quoteByte :: t) ∧
      Token t 0x3A r := by
  obtain h | ⟨b, t, htoken, h⟩ := exists_of_run_lookAhead h
  · cases h
  dsimp only at h
  split at h
  · next hb =>
    rw [run_drop_bind] at h
    obtain ⟨_, t', htext, h⟩ := exists_of_run_bind_eq_ok h
    obtain ⟨key, hkey⟩ := exists_of_skipTextRun htext
    rw [hb, hkey] at htoken
    exact ⟨key, t', htoken, token_of_run_colon h⟩
  · cases h

/-- How a piece is passed over within open frames.  A value leaves the frames as they are; what
follows an element or a member closes the innermost. -/
def Piece.IsSkipped (s r : Bytes) : Piece → Prop
  | .value _ => ∀ frames s', s'.dropWhile isSpace = s →
    skipRun frames false s' = skipRun frames true r
  | .elements _ => ∀ outer, skipRun (.array :: outer) true s = skipRun outer true r
  | .member _ => ∃ t, skipKey.run s = .ok ((), t) ∧
    ∀ frames, skipRun frames false t = skipRun frames true r
  | .members _ => ∀ outer, skipRun (.object :: outer) true s = skipRun outer true r

/-- A scalar is passed over, whatever frames are open. -/
theorem Spells.isSkipped_scalar {v : Tree} {s r : Bytes} (h : Spells (.value v) s r)
    (hv : v.IsScalar) : (Piece.value v).IsSkipped s r := by
  intro frames s' hs'
  obtain ⟨b, t, rfl, hopened, hskip⟩ := h.run_skipScalar hv
  exact skipRun_scalar hs' hopened hskip

/-- **Every piece is passed over.**  The induction is on the grammar, and each case is a step or two
of the reader. -/
theorem Spells.isSkipped {p : Piece} {s r : Bytes} (h : Spells p s r) : p.IsSkipped s r := by
  induction h with
  | null => exact Spells.null.isSkipped_scalar trivial
  | boolean hs => exact (Spells.boolean hs).isSkipped_scalar trivial
  | number hs hr => exact (Spells.number hs hr).isSkipped_scalar trivial
  | string hs => exact (Spells.string hs).isSkipped_scalar trivial
  | emptyArray hclose => exact fun frames s' hs' => skipRun_empty .array hs' rfl hclose
  | @array v vs s t r hfirst _ ihfirst ihrest =>
    intro frames s' hs'
    obtain ⟨c, u, hc, hne⟩ := hfirst.exists_token
    rw [skipRun_open .array hs' rfl hc hne rfl,
      ihfirst (.array :: frames) _ (by rw [hc]; exact token_cons hc.not_isSpace u)]
    exact ihrest frames
  | emptyObject hclose => exact fun frames s' hs' => skipRun_empty .object hs' rfl hclose
  | @object m ms s t r hfirst hrest ihfirst ihrest =>
    intro frames s' hs'
    obtain ⟨u, hkey, hvalue⟩ := ihfirst
    cases hfirst with
    | @member key _ _ _ _ _ hquote hcolon =>
      have hskip := run_skipKey key (token_cons (by decide) _) hcolon
      rw [skipRun_open .object hs' rfl hquote (by decide) hskip]
      have hu := (run_skipKey key hquote hcolon).symm.trans hkey
      cases hu
      rw [hvalue]
      exact ihrest frames
  | noElement hclose => exact fun outer => skipRun_close .array hclose
  | element hcomma _ _ ihfirst ihrest =>
    intro outer
    rw [skipRun_next .array hcomma rfl, ihfirst _ _ rfl]
    exact ihrest outer
  | member hquote hcolon _ ihvalue =>
    exact ⟨_, run_skipKey _ hquote hcolon, fun frames => ihvalue frames _ rfl⟩
  | noMember hclose => exact fun outer => skipRun_close .object hclose
  | another hcomma _ _ ihfirst ihrest =>
    intro outer
    obtain ⟨u, hkey, hvalue⟩ := ihfirst
    rw [skipRun_next .object hcomma hkey, hvalue]
    exact ihrest outer

/-- **A value of any kind is passed over**, to its end.  With no frame open, the run ends behind it.
-/
theorem run_skipValue {v : Tree} {s r : Bytes} (h : Spells (.value v) (s.dropWhile isSpace) r) :
    skipValue.run s = .ok ((), r) := by
  have hrun : skipValue.run s = skipRun [] false s := rfl
  rw [hrun, h.isSkipped [] s rfl, skipRun]

/-! ## Nothing else is passed over

The converse is an induction on the run.  It cannot speak of one value, as a run may stand anywhere
inside of nested ones, so it speaks of all that the open frames still ask for. -/

/-- **What the open frames ask for**: the rest of each, the innermost first.  With no frame open
they ask for nothing, so nothing is left to read of the value. -/
inductive Closes : List Frame → Bytes → Bytes → Prop
  | nil {r : Bytes} : Closes [] r r
  | array {outer : List Frame} {vs : List Tree} {s t r : Bytes} :
    Spells (.elements vs) s t → Closes outer t r → Closes (.array :: outer) s r
  | object {outer : List Frame} {ms : List (Body × Tree)} {s t r : Bytes} :
    Spells (.members ms) s t → Closes outer t r → Closes (.object :: outer) s r

/-- A frame that is closed at once asks for its closing token only. -/
theorem Closes.close {frame : Frame} {outer : List Frame} {s t r : Bytes}
    (hs : Token s frame.closing t) (h : Closes outer t r) : Closes (frame :: outer) s r := by
  cases frame with
  | array => exact .array (.noElement hs) h
  | object => exact .object (.noMember hs) h

/-- A bracket opens an array and a brace an object. -/
theorem Frame.eq_of_opened? {frame : Frame} {b : UInt8} (h : opened? b = some frame) :
    b = 0x5B ∧ frame = array ∨ b = 0x7B ∧ frame = object := by
  rw [opened?] at h
  split at h
  · next hb => exact .inl ⟨hb, (Option.some.inj h).symm⟩
  split at h
  · next hb => exact .inr ⟨hb, (Option.some.inj h).symm⟩
  · cases h

/-- What opens a frame and what closes it at once make a value. -/
theorem exists_spells_empty {frame : Frame} {b : UInt8} {s r : Bytes}
    (hb : Frame.opened? b = some frame) (hs : Token s frame.closing r) :
    ∃ whole, Spells (.value whole) (b :: s) r := by
  obtain ⟨rfl, rfl⟩ | ⟨rfl, rfl⟩ := Frame.eq_of_opened? hb
  · exact ⟨_, .emptyArray hs⟩
  · exact ⟨_, .emptyObject hs⟩

/-- What opens a frame, a first value in it and what closes the frames make a value. -/
theorem exists_spells_open {frame : Frame} {outer : List Frame} {b : UInt8} {s t u v r : Bytes}
    (hb : Frame.opened? b = some frame) (hs : s.dropWhile isSpace = t)
    (hskip : (skipToValue frame).run t = .ok ((), u)) {first : Tree}
    (hfirst : Spells (.value first) (u.dropWhile isSpace) v) (h : Closes (frame :: outer) v r) :
    ∃ whole end', Spells (.value whole) (b :: s) end' ∧ Closes outer end' r := by
  have hdrop : t.dropWhile isSpace = s.dropWhile isSpace := by
    rw [← hs, List.dropWhile_idempotent]
  obtain ⟨rfl, rfl⟩ | ⟨rfl, rfl⟩ := Frame.eq_of_opened? hb
  · cases hskip
    rw [hdrop] at hfirst
    cases h with
    | array hrest hclose => exact ⟨_, _, .array hfirst hrest, hclose⟩
  · obtain ⟨key, t', hquote, hcolon⟩ := exists_of_run_skipKey hskip
    rw [Token, hdrop] at hquote
    cases h with
    | object hrest hclose => exact ⟨_, _, .object (.member hquote hcolon hfirst) hrest, hclose⟩

/-- Another value within a frame and what closes the frames, behind a comma. -/
theorem Closes.next {frame : Frame} {outer : List Frame} {s t u v r : Bytes}
    (hs : Token s 0x2C t) (hskip : (skipToValue frame).run t = .ok ((), u)) {next : Tree}
    (hnext : Spells (.value next) (u.dropWhile isSpace) v) (h : Closes (frame :: outer) v r) :
    Closes (frame :: outer) s r := by
  cases h with
  | array hrest hclose =>
    cases hskip
    exact .array (.element hs hnext hrest) hclose
  | object hrest hclose =>
    obtain ⟨key, t', hquote, hcolon⟩ := exists_of_run_skipKey hskip
    exact .object (.another hs (.member hquote hcolon hnext) hrest) hclose

/-- **What is passed over closes the frames**, with a value before that if one is to begin.  The
induction follows the run, by the number of bytes that are left. -/
theorem closes_of_skipRun {frames : List Frame} {done : Bool} {s r : Bytes} {u : Unit}
    (h : skipRun frames done s = .ok (u, r)) :
    if done then Closes frames s r
    else ∃ v t, Spells (.value v) (s.dropWhile isSpace) t ∧ Closes frames t r := by
  fun_induction skipRun frames done s with
  | case1 =>
    cases h
    exact .nil
  | case3 _ _ _ _ hs ih => exact (ih h).close hs
  | case5 _ _ _ _ _ _ hskip hs _ ih =>
    obtain ⟨v, t, hv, hclose⟩ := ih h
    exact hclose.next hs hskip hv
  | case9 _ _ b _ hs _ _ _ hskip ih =>
    obtain ⟨v, hv⟩ := spells_of_run_skipScalar hskip
    exact ⟨v, _, hs ▸ hv, ih h⟩
  | case11 _ _ b _ hs frame hb _ ht ih =>
    obtain ⟨v, hv⟩ := exists_spells_empty hb ht
    exact ⟨v, _, hs ▸ hv, ih h⟩
  | case13 _ _ b _ hs frame hb c u ht _ _ _ hskip ih =>
    obtain ⟨v, t, hv, hclose⟩ := ih h
    rw [hs]
    exact exists_spells_open hb ht hskip hv hclose
  | _ => cases h

/-- **Nothing but a value is passed over.**  This is the case of no open frame, in which the value
is all there is to pass over. -/
theorem exists_of_run_skipValue {s r : Bytes} {u : Unit} (h : skipValue.run s = .ok (u, r)) :
    ∃ v, Spells (.value v) (s.dropWhile isSpace) r := by
  obtain ⟨v, t, hv, hclose⟩ := closes_of_skipRun h
  cases hclose
  exact ⟨v, hv⟩

end RunRecord.Json
