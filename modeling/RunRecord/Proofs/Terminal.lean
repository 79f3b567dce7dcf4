import Mathlib.Data.List.TakeWhile
import RunRecord.Terminal

/-!
# Proofs/Terminal — texts without their control sequences

A **sequence** is an escape, a `[`, digits and semicolons, and an `m`.  **Stripping** removes every
sequence from a text, from left to right.  A sequence has its only escape at its start, so sequences
do not overlap.

Two inputs.

**Seams** (`strip_append`).  Two texts are stripped side by side, unless the second carries on a
sequence that the first leaves open.

**Styles that are switched on again** (`strip_reopen`) come behind whole sequences and are sequences
themselves.  What a text leaves open stays as open as it was.
-/

namespace RunRecord.Terminal

/-! ## Stripping -/

/-- What may stand between the start of a sequence and its end. -/
def isParameter (c : Char) : Bool := c.isDigit || c == ';'

/-- **A sequence.**  Its parameters may be missing, and what they mean does not matter here. -/
inductive IsSequence : List Char → Prop
  | intro {ps : List Char} : (∀ c ∈ ps, isParameter c = true) →
    IsSequence (escape :: '[' :: (ps ++ ['m']))

/-- The text behind a sequence, if it starts with one. -/
def afterSequence? : List Char → Option (List Char)
  | '\x1b' :: '[' :: cs =>
    match cs.dropWhile isParameter with
    | 'm' :: rest => some rest
    | _ => none
  | _ => none

/-- The text behind a sequence is what is left when the sequence is removed. -/
theorem afterSequence?_eq_some_iff {cs rest : List Char} :
    afterSequence? cs = some rest ↔ ∃ s, IsSequence s ∧ cs = s ++ rest := by
  constructor
  · intro h
    unfold afterSequence? at h
    split at h
    · next cs =>
      split at h
      · next rest' hdrop =>
        cases h
        have hsplit := List.takeWhile_append_dropWhile (p := isParameter) (l := cs)
        rw [hdrop] at hsplit
        have hps : ∀ c ∈ cs.takeWhile isParameter, isParameter c = true :=
          fun _ => List.mem_takeWhile_imp
        refine ⟨_, .intro hps, ?_⟩
        rw [List.cons_append, List.cons_append, List.append_assoc, List.singleton_append, hsplit,
          escape]
      · cases h
    · cases h
  · rintro ⟨_, ⟨hps⟩, rfl⟩
    have hdrop : ∀ ps : List Char, (∀ c ∈ ps, isParameter c = true) →
        (ps ++ 'm' :: rest).dropWhile isParameter = 'm' :: rest := fun ps hps => by
      rw [List.dropWhile_append_of_pos hps]
      exact List.dropWhile_cons_of_neg (by decide)
    simp [afterSequence?, escape, hdrop _ hps]

theorem IsSequence.afterSequence? {s : List Char} (h : IsSequence s) (cs : List Char) :
    afterSequence? (s ++ cs) = some cs := afterSequence?_eq_some_iff.2 ⟨s, h, rfl⟩

theorem length_of_afterSequence? {cs rest : List Char} (h : afterSequence? cs = some rest) :
    rest.length < cs.length := by
  obtain ⟨_, ⟨-⟩, rfl⟩ := afterSequence?_eq_some_iff.1 h
  simp
  omega

/-- **A text without its sequences.**  What is left may look like a sequence again where one was
removed from its middle; it stays. -/
def strip : List Char → List Char
  | [] => []
  | c :: cs =>
    match _h : afterSequence? (c :: cs) with
    | some rest => strip rest
    | none => c :: strip cs
termination_by cs => cs.length
decreasing_by
  · exact length_of_afterSequence? _h
  · exact Nat.lt_succ_self _

theorem strip_of_some {cs rest : List Char} (h : afterSequence? cs = some rest) :
    strip cs = strip rest := by
  cases cs with
  | nil => cases h
  | cons c cs =>
    rw [strip]
    split
    · next rest' hrest => rw [Option.some.inj (hrest.symm.trans h)]
    · next hnone => rw [hnone] at h; cases h

theorem strip_of_none {c : Char} {cs : List Char} (h : afterSequence? (c :: cs) = none) :
    strip (c :: cs) = c :: strip cs := by
  rw [strip]
  split
  · next rest hrest => rw [hrest] at h; cases h
  · rfl

/-- A sequence is removed. -/
theorem IsSequence.strip_append {s : List Char} (h : IsSequence s) (cs : List Char) :
    strip (s ++ cs) = strip cs := strip_of_some (h.afterSequence? cs)

/-- Sequences do not overlap: a text starts with one at most. -/
theorem IsSequence.unique {s s' cs cs' : List Char} (h : IsSequence s) (h' : IsSequence s')
    (heq : s ++ cs = s' ++ cs') : s = s' := by
  have hafter := h.afterSequence? cs
  rw [heq, h'.afterSequence?] at hafter
  obtain rfl := Option.some.inj hafter
  exact List.append_cancel_right heq

/-! ## Seams

Where two texts are joined, a sequence could begin in the first and end in the second.  It cannot if
the second begins with a character that no sequence has behind its start. -/

/-- What can stand in a sequence behind its start. -/
def carriesOn (c : Char) : Bool := c == '[' || c == 'm' || isParameter c

/-- **A text that carries on no sequence.**  It is empty, or it begins with a blank, an escape or
any other character that a sequence has no place for. -/
def Breaks (cs : List Char) : Prop := ∀ c ∈ cs.head?, carriesOn c = false

/-- A text that starts with a character that carries on no sequence. -/
theorem breaks_cons {c : Char} (h : carriesOn c = false) (cs : List Char) : Breaks (c :: cs) := by
  rintro _ ⟨⟩
  exact h

/-- A sequence is an escape and what carries it on. -/
theorem IsSequence.exists_eq_cons {s : List Char} (h : IsSequence s) :
    ∃ cs, s = escape :: cs ∧ ∀ c ∈ cs, carriesOn c = true := by
  obtain ⟨hps⟩ := h
  refine ⟨_, rfl, fun c hc => ?_⟩
  simp only [List.mem_cons, List.mem_append, List.not_mem_nil, or_false] at hc
  obtain rfl | hc | rfl := hc
  · rfl
  · rw [carriesOn, hps c hc, Bool.or_true]
  · rfl

theorem carriesOn_escape : carriesOn escape = false := by decide

theorem ne_escape_of_carriesOn {c : Char} (h : carriesOn c = true) : c ≠ escape := by
  rintro rfl
  exact absurd h (by decide)

/-- Whatever holds no escape stays. -/
theorem strip_append_of_notMem {cs : List Char} (h : escape ∉ cs) (ds : List Char) :
    strip (cs ++ ds) = cs ++ strip ds := by
  induction cs with
  | nil => rfl
  | cons c cs ih =>
    obtain ⟨hc, hcs⟩ := not_or.1 (List.mem_cons.not.1 h)
    have hnone : afterSequence? (c :: (cs ++ ds)) = none := by
      refine Option.eq_none_iff_forall_ne_some.2 fun rest hrest => ?_
      obtain ⟨s, hs, heq⟩ := afterSequence?_eq_some_iff.1 hrest
      obtain ⟨tail, rfl, -⟩ := hs.exists_eq_cons
      exact hc (List.cons.inj heq).1.symm
    rw [List.cons_append, strip_of_none hnone, ih hcs, List.cons_append]

/-- A sequence is not carried on across a seam.  If it were, the second text would have to carry it
on. -/
theorem afterSequence?_append {c : Char} {cs ds : List Char} (h : Breaks ds) :
    afterSequence? (c :: (cs ++ ds)) = (afterSequence? (c :: cs)).map (· ++ ds) := by
  rcases hafter : afterSequence? (c :: cs) with _ | rest
  · refine Option.eq_none_iff_forall_ne_some.2 fun rest hrest => ?_
    obtain ⟨s, hs, heq⟩ := afterSequence?_eq_some_iff.1 hrest
    obtain ⟨tail, rfl, htail⟩ := hs.exists_eq_cons
    rw [List.cons_append, List.cons_eq_cons] at heq
    obtain ⟨rfl, heq⟩ := heq
    rcases List.append_eq_append_iff.1 heq with ⟨more, rfl, rfl⟩ | ⟨more, rfl, rfl⟩
    · cases more with
      | nil =>
        have hwhole := hs.afterSequence? []
        rw [List.append_nil, List.append_nil, hafter] at hwhole
        cases hwhole
      | cons d more =>
        have hbreaks := h d rfl
        rw [htail d (by simp)] at hbreaks
        cases hbreaks
    · rw [← List.cons_append, hs.afterSequence?] at hafter
      cases hafter
  · obtain ⟨s, hs, heq⟩ := afterSequence?_eq_some_iff.1 hafter
    refine afterSequence?_eq_some_iff.2 ⟨s, hs, ?_⟩
    rw [← List.cons_append, heq, List.append_assoc]

/-- **Texts are stripped side by side** unless the second carries on the first. -/
theorem strip_append (cs : List Char) {ds : List Char} (h : Breaks ds) :
    strip (cs ++ ds) = strip cs ++ strip ds := by
  fun_induction strip cs with
  | case1 => rfl
  | case2 c cs rest hrest ih =>
    rw [List.cons_append, strip_of_some ((afterSequence?_append h).trans (by rw [hrest]; rfl)), ih]
  | case3 c cs hnone ih =>
    rw [List.cons_append, strip_of_none ((afterSequence?_append h).trans (by rw [hnone]; rfl)), ih,
      List.cons_append]

/-! ## Styles that are switched on again

To switch a style on again inside of a painted text, what switches styles off is looked for.  It is
a sequence itself, so it cannot be half of another. -/

theorem isSequence_closing : IsSequence closing :=
  @IsSequence.intro ['0'] (List.forall_mem_singleton.2 rfl)

/-- A character that does not start a sequence that switches everything off stays. -/
theorem reopen_cons {opening : List Char} {c : Char} {cs : List Char}
    (h : ∀ rest, c :: cs ≠ closing ++ rest) :
    reopen opening (c :: cs) = c :: reopen opening cs := by
  rw [reopen]
  rintro rest rfl rfl
  exact h rest rfl

theorem reopen_append {opening cs ds : List Char} (h : ∀ c ∈ cs, carriesOn c = true) :
    reopen opening (cs ++ ds) = cs ++ reopen opening ds := by
  induction cs with
  | nil => rfl
  | cons c cs ih =>
    obtain ⟨hc, hcs⟩ := List.forall_mem_cons.1 h
    rw [List.cons_append, reopen_cons, ih hcs, List.cons_append]
    exact fun rest heq => ne_escape_of_carriesOn hc (List.cons.inj heq).1

/-- What follows a text in which nothing is switched off is what follows it after all. -/
theorem exists_of_reopen_eq {opening cs ds rest : List Char} (h : ∀ c ∈ ds, carriesOn c = true)
    (heq : reopen opening cs = ds ++ rest) :
    ∃ rest', cs = ds ++ rest' ∧ rest = reopen opening rest' := by
  induction ds generalizing cs with
  | nil => exact ⟨cs, rfl, heq.symm⟩
  | cons d ds ih =>
    obtain ⟨hd, hds⟩ := List.forall_mem_cons.1 h
    have hne := ne_escape_of_carriesOn hd
    fun_cases reopen opening cs with
    | case1 => rw [reopen] at heq; cases heq
    | case2 cs =>
      rw [reopen] at heq
      exact absurd (List.cons.inj heq).1.symm hne
    | case3 c cs hother =>
      rw [reopen.eq_3 _ _ _ hother] at heq
      obtain ⟨rfl, htail⟩ := List.cons.inj heq
      obtain ⟨rest', rfl, hrest⟩ := ih hds htail
      exact ⟨rest', rfl, hrest⟩

/-- A style is switched on again behind some sequences, and all sequences stay. -/
theorem IsSequence.reopen_append {opening s : List Char} (h : IsSequence s) (cs : List Char) :
    reopen opening (s ++ cs) = s ++ (if s = closing then opening else []) ++ reopen opening cs := by
  split
  · next heq =>
    subst heq
    exact reopen.eq_2 _ _
  · next hne =>
    obtain ⟨tail, rfl, htail⟩ := h.exists_eq_cons
    rw [List.cons_append, reopen_cons, Terminal.reopen_append htail, List.append_nil,
      List.cons_append]
    exact fun rest heq => hne (h.unique isSequence_closing heq)

/-- **Styles that are switched on again are removed with the rest.**  A style starts with an escape,
so it does not complete a sequence that the text leaves open. -/
theorem strip_reopen {opening : List Char} (ho : IsSequence opening) (cs : List Char) :
    strip (reopen opening cs) = strip cs := by
  fun_induction strip cs with
  | case1 => rw [reopen, strip]
  | case2 c cs rest hrest ih =>
    obtain ⟨s, hs, heq⟩ := afterSequence?_eq_some_iff.1 hrest
    rw [heq, hs.reopen_append, List.append_assoc, hs.strip_append]
    split
    · rw [ho.strip_append, ih]
    · exact ih
  | case3 c cs hnone ih =>
    have hother : ∀ rest, c :: cs ≠ closing ++ rest := fun rest heq => by
      rw [heq, isSequence_closing.afterSequence?] at hnone
      cases hnone
    have hopen : afterSequence? (c :: reopen opening cs) = none := by
      refine Option.eq_none_iff_forall_ne_some.2 fun rest hrest => ?_
      obtain ⟨s, hs, heq⟩ := afterSequence?_eq_some_iff.1 hrest
      obtain ⟨tail, rfl, htail⟩ := hs.exists_eq_cons
      obtain ⟨rfl, hreopen⟩ := List.cons.inj heq
      obtain ⟨rest', rfl, -⟩ := exists_of_reopen_eq htail hreopen
      rw [← List.cons_append, hs.afterSequence?] at hnone
      cases hnone
    rw [reopen_cons hother, strip_of_none hopen, ih]

/-! ## Painted texts

A painted text has a sequence before it, one behind it, and perhaps some inside, all of which are
removed. -/

theorem forall_mem_intersperse {α : Type} {P : α → Prop} {sep : α} (hsep : P sep) {as : List α}
    (h : ∀ a ∈ as, P a) : ∀ a ∈ as.intersperse sep, P a := by
  induction as with
  | nil => nofun
  | cons a as ih =>
    obtain ⟨ha, has⟩ := List.forall_mem_cons.1 h
    cases as with
    | nil => exact h
    | cons b as =>
      rw [List.intersperse_cons_cons]
      exact List.forall_mem_cons.2 ⟨ha, List.forall_mem_cons.2 ⟨hsep, ih has⟩⟩

/-- A style is switched on by a sequence. -/
theorem Style.isSequence_opening (style : Style) : IsSequence style.opening := by
  have hcode : ∀ a : Attribute, ∀ c ∈ a.code, isParameter c = true := fun a =>
    List.all_eq_true.1 (by cases a <;> rfl)
  have hsemicolon : ∀ c ∈ [';'], isParameter c = true := List.forall_mem_singleton.2 rfl
  have hcodes : ∀ code ∈ style.map Attribute.code, ∀ c ∈ code, isParameter c = true :=
    List.forall_mem_map.2 fun a _ => hcode a
  have hparts : ∀ part ∈ (style.map Attribute.code).intersperse [';'],
      ∀ c ∈ part, isParameter c = true :=
    forall_mem_intersperse hsemicolon hcodes
  refine .intro fun c hc => ?_
  obtain ⟨part, hpart, hmem⟩ := List.mem_flatten.1 hc
  exact hparts part hpart c hmem

/-- **A painted text is the text but for its sequences**, whatever sequences the text has itself. -/
theorem strip_paint (colours : Bool) (style : Style) (s : String) :
    strip (paint colours style s).toList = strip s.toList := by
  cases colours with
  | false => rfl
  | true =>
    have hclosing : Breaks closing := fun c hc => by
      cases hc
      exact carriesOn_escape
    rw [paint, if_pos rfl, String.toList_ofList, List.append_assoc,
      style.isSequence_opening.strip_append, strip_append _ hclosing,
      strip_reopen style.isSequence_opening]
    have hnothing := isSequence_closing.strip_append []
    rw [List.append_nil] at hnothing
    rw [hnothing, strip, List.append_nil]

theorem breaks_paint {style : Style} {colours : Bool} {s : String} (h : Breaks s.toList) :
    Breaks (paint colours style s).toList := by
  cases colours with
  | false => exact h
  | true =>
    rw [paint, if_pos rfl, String.toList_ofList]
    exact breaks_cons carriesOn_escape _

end RunRecord.Terminal
