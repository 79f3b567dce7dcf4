import RunRecord.Proofs.Json.Record
import RunRecord.Proofs.Json.Escape

/-!
# Proofs/Json/Takes — what a reader makes of a tree

A reader **takes** a tree as `a` if it reads every text of it as `a`, wherever that stands.  A
reader **means** a relation between trees and values if it takes the trees that are related to a
value and reads nothing else; since a text has one tree, the relation is then what it takes
(`Means.takes_iff`).  So how a document presents a value matters only as far as its tree does.

The point of the notion is that it is closed under what readers are made of.  From readers that mean
something one gets, by one lemma each, what the optional values, the lists and the records made of
them mean.  So a theorem on a whole report never mentions white space, escapes or the order of
bytes: these are used up at the leaves, for strings, literals and numbers.
-/

namespace RunRecord.Json

open Reader

variable {α β : Type}

/-! ## Taking

A reader is looked at from both sides, since a reader that takes the right trees may still take
others.  Only the two together let a relation on trees stand for the reader. -/

namespace Reader

/-- **A reader takes a tree as `a`**: it reads every text of the tree as `a`, whatever stands behind
the text. -/
def Takes (x : Reader α) (v : Tree) (a : α) : Prop :=
  ∀ s r, Spells (.value v) (s.dropWhile isSpace) r → x.run s = .ok (a, r)

/-- **What a reader means**: it takes the trees that are related to a value, and reads nothing
else. -/
structure Means (x : Reader α) (M : Tree → α → Prop) : Prop where
  takes : ∀ {v : Tree} {a : α}, M v a → x.Takes v a
  sound : ∀ {s r : Bytes} {a : α}, x.run s = .ok (a, r) →
    ∃ v, Spells (.value v) (s.dropWhile isSpace) r ∧ M v a

/-- A reader that reads nothing but trees, and each in all its texts. -/
def IsExact (x : Reader α) : Prop := x.Means x.Takes

variable {x : Reader α} {M : Tree → α → Prop} {v : Tree} {a b : α}

/-- A tree is taken in one way only, because it has a text. -/
theorem Takes.unique (h : x.Takes v a) (h' : x.Takes v b) : a = b := by
  obtain ⟨s, hs⟩ := v.exists_spells delimited_nil
  have hrun := h s [] hs.behind_token
  rw [h' s [] hs.behind_token] at hrun
  cases hrun
  rfl

/-- What is read from a text of a tree is what its reader means by the tree. -/
theorem Means.of_run (h : x.Means M) {s r t : Bytes} (hrun : x.run s = .ok (a, r))
    (hv : Spells (.value v) (s.dropWhile isSpace) t) : M v a := by
  obtain ⟨v', hv', hM⟩ := h.sound hrun
  obtain ⟨rfl, -⟩ := hv.unique hv'
  exact hM

/-- **A reader takes what it means.**  One direction is the definition; the other needs that the
text of a tree is the text of no other. -/
theorem Means.takes_iff (h : x.Means M) : x.Takes v a ↔ M v a := by
  refine ⟨fun htakes => ?_, h.takes⟩
  obtain ⟨s, hs⟩ := v.exists_spells delimited_nil
  exact h.of_run (htakes s [] hs.behind_token) hs.behind_token

/-- A reader that means something is exact: it reads trees and nothing but trees. -/
theorem Means.isExact (h : x.Means M) : x.IsExact where
  takes := id
  sound hrun := by
    obtain ⟨v, hv, hM⟩ := h.sound hrun
    exact ⟨v, hv, h.takes hM⟩

/-- What is read can be changed afterwards.  This is how a record's fields are read into one type.
-/
theorem IsExact.map (h : x.IsExact) (f : α → β) :
    Reader.Means (do return f (← x)) fun v b => ∃ a, x.Takes v a ∧ f a = b where
  takes := by
    rintro v _ ⟨a, ha, rfl⟩ s r hs
    exact run_bind_ok (ha s r hs)
  sound hrun := by
    obtain ⟨a, t, ha, hrun⟩ := exists_of_run_bind_eq_ok hrun
    cases hrun
    obtain ⟨v, hv, htakes⟩ := h.sound ha
    exact ⟨v, hv, a, htakes, rfl⟩

end Reader

/-! ## What is never read

A reader that fails on a kind of value has nothing to say about it, and this is as good as a proof
that the value is of another kind. -/

namespace Reader

variable {P : α → Prop}

/-- **What a reader reads has a property**, if it reads anything.  A reader that always fails has
every property. -/
def Ensures (x : Reader α) (P : α → Prop) : Prop :=
  ∀ s r a, x.run s = .ok (a, r) → P a

/-- What is returned has the properties it has. -/
theorem ensures_pure {a : α} (h : P a) : (pure a : Reader α).Ensures P := by
  rintro _ _ _ ⟨⟩
  exact h

/-- A reader that fails reads nothing, so what it reads has any property. -/
theorem ensures_fail (cause : Cause) : (fail cause : Reader α).Ensures P := nofun

/-- What a reader ensures it ensures behind any other. -/
theorem Ensures.behind {f : β → Reader α} (h : ∀ b, (f b).Ensures P) (x : Reader β) :
    (x >>= f).Ensures P := fun _ _ _ hrun => by
  obtain ⟨b, _, -, hrun⟩ := exists_of_run_bind_eq_ok hrun
  exact h b _ _ _ hrun

/-- Looking at the next byte changes nothing about what is ensured. -/
theorem ensures_look {f : Option UInt8 → Reader α} (h : ∀ b, (f b).Ensures P) :
    (look f).Ensures P := fun s _ _ hrun => h s.head? s _ _ hrun

end Reader

/-- No value of the wrong kind is read. -/
theorem ensures_reject (expected : Expected) (b : UInt8) :
    (reject expected b : Reader α).Ensures fun _ => False := by
  have hfound : ∀ {γ : Type} (x : Reader γ) (f : γ → Cause),
      (do let c ← x; fail (f c) : Reader α).Ensures fun _ => False := fun x f =>
    .behind (fun c => ensures_fail (f c)) x
  unfold reject
  split
  · exact .behind (fun _ => hfound _ _) _
  split
  · exact .behind (fun _ => hfound _ _) _
  split
  · exact .behind (fun _ => hfound _ _) _
  split
  · exact .behind (fun _ => hfound _ _) _
  split
  · exact hfound _ _
  split
  · exact .behind (fun _ => hfound _ _) _
  split
  · exact ensures_fail _
  split
  · exact ensures_fail _
  · exact nofun

/-! ## Strings and instants -/

/-- **A string is read from a string** that says it.  What was expected only matters to the message
where there is none. -/
theorem means_textFor (expected : Expected) :
    (textFor expected).Means fun v s => ∃ body, v = .string body ∧ body.Says s where
  takes := by
    rintro _ text ⟨body, rfl, hsaid⟩ s r hs
    generalize ht : s.dropWhile isSpace = t at hs
    cases hs with
    | string hs =>
      rw [hs] at ht
      rw [textFor, run_value_token ht, if_pos rfl, run_drop_bind]
      exact hsaid.run_text r
  sound h := by
    obtain ⟨b, t, htoken, h⟩ := exists_of_run_value h
    split at h
    · next hb =>
      rw [run_drop_bind] at h
      obtain ⟨body, hbody, hsaid⟩ := exists_of_run_text h
      rw [hb, hbody] at htoken
      exact ⟨_, htoken ▸ .string rfl, body, rfl, hsaid⟩
    · exact (ensures_reject _ _ _ _ _ h).elim

/-- **An instant is read from a string** that says one.  All spellings of the instant are taken
alike, as it is parsed from what the string says. -/
theorem means_instantValue :
    instantValue.Means fun v t =>
      ∃ body s, v = .string body ∧ body.Says s ∧ Instant.read s.toList = .ok t where
  takes := by
    rintro _ t ⟨body, text, rfl, hsaid, hread⟩ s r hs
    have htext := (means_textFor .instant).takes ⟨body, rfl, hsaid⟩ s r hs
    rw [instantValue, run_bind_ok htext, hread]
    rfl
  sound h := by
    obtain ⟨text, t, htext, h⟩ := exists_of_run_bind_eq_ok h
    obtain ⟨v, hv, body, rfl, hsaid⟩ := (means_textFor .instant).sound htext
    split at h
    · next hread =>
      cases h
      exact ⟨_, hv, body, text, rfl, hsaid, hread⟩
    · cases h

/-! ## Literals -/

/-- What is read as a literal stands there, and means what it is to mean. -/
theorem of_run_literal_bind {bs s r : Bytes} {a b : α}
    (h : (do literal bs; return a : Reader α).run s = .ok (b, r)) : s = bs ++ r ∧ b = a := by
  obtain ⟨_, _, hliteral, h⟩ := exists_of_run_bind_eq_ok h
  cases h
  exact ⟨eq_of_run_literal hliteral, rfl⟩

/-- **A boolean is read from a boolean.**  Its two literals are told apart by their first byte. -/
theorem means_booleanValue : booleanValue.Means fun v b => v = .boolean b where
  takes := by
    rintro _ b rfl s r hs
    generalize ht : s.dropWhile isSpace = t at hs
    cases hs with
    | boolean hs =>
      rw [hs] at ht
      cases b with
      | true =>
        rw [booleanValue, run_value_token ht, if_pos rfl, run_drop_bind]
        exact run_bind_ok (run_literal restOfTrue r)
      | false =>
        rw [booleanValue, run_value_token ht, if_neg (by decide), if_pos rfl,
          run_drop_bind]
        exact run_bind_ok (run_literal restOfFalse r)
  sound h := by
    obtain ⟨b, t, htoken, h⟩ := exists_of_run_value h
    split at h
    · next hb =>
      rw [run_drop_bind] at h
      obtain ⟨rfl, rfl⟩ := of_run_literal_bind h
      rw [hb] at htoken
      exact ⟨.boolean true, .boolean htoken, rfl⟩
    split at h
    · next hb =>
      rw [run_drop_bind] at h
      obtain ⟨rfl, rfl⟩ := of_run_literal_bind h
      rw [hb] at htoken
      exact ⟨.boolean false, .boolean htoken, rfl⟩
    · exact (ensures_reject _ _ _ _ _ h).elim

/-- **Nothing is read from `null`.**  It is what an absent value is written as where it is written
at all. -/
theorem means_nullValue : nullValue.Means fun v _ => v = .null where
  takes := by
    rintro _ _ rfl s r hs
    generalize ht : s.dropWhile isSpace = t at hs
    cases hs with
    | null =>
      rw [nullValue, run_value_token ht, if_pos rfl, run_drop_bind]
      exact run_literal restOfNull r
  sound h := by
    obtain ⟨b, t, htoken, h⟩ := exists_of_run_value h
    split at h
    · next hb =>
      rw [run_drop_bind] at h
      have ht : t = restOfNull ++ _ := eq_of_run_literal h
      rw [hb, ht] at htoken
      exact ⟨_, htoken ▸ .null, rfl⟩
    · exact (ensures_reject _ _ _ _ _ h).elim

/-- A value starts like `null` only if it is. -/
theorem Spells.eq_null {v : Tree} {t r : Bytes} (h : Spells (.value v) (0x6E :: t) r) :
    v = .null := by
  obtain ⟨_, _, heq, hstart⟩ := h.start
  cases heq
  cases v with
  | null => rfl
  | _ => cases hstart

/-- **An optional value is read from `null` or from the value.**  The two do not meet: the reader
looks for the first byte of `null` before it tries anything else. -/
theorem Reader.IsExact.optional {x : Reader α} (h : x.IsExact) :
    (optional x).Means fun v o =>
      v = .null ∧ o = none ∨ v ≠ .null ∧ ∃ a, x.Takes v a ∧ o = some a where
  takes := by
    rintro v o (⟨rfl, rfl⟩ | ⟨hne, a, ha, rfl⟩) s r hs
    · generalize ht : s.dropWhile isSpace = t at hs
      cases hs with
      | null =>
        rw [Json.optional, run_lookAhead_token ht, if_pos rfl, run_drop_bind,
          run_bind_ok (run_literal restOfNull r)]
        rfl
    · obtain ⟨b, t, ht, -⟩ := hs.start
      have hb : some b ≠ some 0x6E := fun hb => by
        rw [ht, Option.some.inj hb] at hs
        exact hne hs.eq_null
      rw [ht] at hs
      rw [Json.optional, run_lookAhead_token ht, if_neg hb, run_bind_ok (ha _ r hs.behind_token)]
      rfl
  sound {s r o} hrun := by
    obtain hrun | ⟨b, t, htoken, hrun⟩ := exists_of_run_lookAhead hrun
    · obtain ⟨a, t, hx, -⟩ := exists_of_run_bind_eq_ok hrun
      obtain ⟨v, hv, -⟩ := h.sound hx
      obtain ⟨_, _, heq, -⟩ := hv.start
      cases heq
    split at hrun
    · next hb =>
      rw [run_drop_bind] at hrun
      obtain ⟨rfl, rfl⟩ := of_run_literal_bind hrun
      rw [htoken, Option.some.inj hb]
      exact ⟨_, .null, .inl ⟨rfl, rfl⟩⟩
    · next hb =>
      obtain ⟨a, t', hx, hrun⟩ := exists_of_run_bind_eq_ok hrun
      cases hrun
      obtain ⟨v, hv, htakes⟩ := h.sound hx
      have hdrop : (b :: t).dropWhile isSpace = s.dropWhile isSpace := by
        rw [← htoken, List.dropWhile_idempotent]
      rw [hdrop] at hv
      refine ⟨v, hv, .inr ⟨?_, a, htakes, rfl⟩⟩
      rintro rfl
      generalize hs : s.dropWhile isSpace = u at hv
      cases hv with
      | null =>
        rw [htoken] at hs
        exact hb (congrArg some (List.head_eq_of_cons_eq hs))

/-! ## Counts

A count is a number without sign, fraction and exponent that fits 64 bits.  The reader finds this
out late, so what it makes of other numbers is followed up to the point at which it refuses them. -/

section Natural

variable {minus : Bool} {digits : Nat} {exponent : Int} {s r : Bytes} {n : Nat}

/-- What is scaled is no natural number. -/
theorem ensures_scaled : (scaled minus digits exponent).Ensures (· ≠ .natural n) := by
  unfold scaled
  dsimp only
  split
  · split
    · exact ensures_pure nofun
    · exact ensures_fail _
  · exact ensures_pure nofun

/-- What has an exponent is no natural number. -/
theorem ensures_exponentPart : (exponentPart minus digits exponent).Ensures (· ≠ .natural n) := by
  refine .behind (fun _ => .behind (fun down => .behind (fun _ => .behind (fun b => ?_) _) _) _) _
  split
  · exact ensures_fail _
  split
  · refine .behind (fun more => ?_) _
    split
    · exact ensures_scaled
    split
    · exact nofun
    · exact ensures_pure nofun
  · exact ensures_fail _

/-- What has a fraction is no natural number. -/
theorem ensures_fractionPart : (fractionPart minus digits exponent).Ensures (· ≠ .natural n) := by
  refine .behind (fun _ => .behind (fun fraction => ?_) _) _
  split
  · exact ensures_look fun b => nofun
  · refine ensures_look fun b => ?_
    split
    · exact ensures_exponentPart
    · exact ensures_scaled

/-- A natural number is all of its digits, and nothing carries it on.  So a number that is read as
one has neither fraction nor exponent. -/
theorem of_run_afterInteger {run : Bytes}
    (h : (afterInteger minus run).run s = .ok (.natural n, r)) :
    minus = false ∧ appendDigits 0 run = (n, 0) ∧ s = r ∧
      ∀ b ∈ r.head?, b ≠ 0x2E ∧ b ≠ 0x65 ∧ b ≠ 0x45 := by
  unfold afterInteger at h
  rcases hrun : appendDigits 0 run with ⟨m, left⟩
  rw [hrun] at h
  dsimp only at h
  rw [run_look] at h
  split at h
  · exact absurd rfl (ensures_fractionPart _ _ _ h)
  next hpoint =>
  split at h
  · exact absurd rfl (ensures_exponentPart _ _ _ h)
  next hletter =>
  split at h
  · next hleft =>
    cases minus with
    | true =>
      rw [integer, if_pos rfl] at h
      split at h <;> cases h
    | false =>
      cases h
      refine ⟨rfl, by rw [hleft], rfl, fun b hb => ⟨?_, ?_, ?_⟩⟩
      · rintro rfl
        exact hpoint hb
      · rintro rfl
        exact hletter (.inl hb)
      · rintro rfl
        exact hletter (.inr hb)
  · exact absurd rfl (ensures_scaled _ _ _ h)

/-- **A natural number is read from its digits alone.**  A number too large for 64 bits is not read
as one, so the digits also fit. -/
theorem exists_of_run_numberAfterSign (h : (numberAfterSign minus).run s = .ok (.natural n, r)) :
    minus = false ∧ ∃ ds, IsWhole ds ∧ s = ds ++ r ∧ appendDigits 0 ds = (n, 0) ∧ Delimited r := by
  obtain h | ⟨b, t, hs, h⟩ := exists_of_run_take_bind h
  · cases h
  dsimp only at h
  split at h
  · next hzero =>
    rw [run_look] at h
    split at h
    · cases h
    next hnext =>
    obtain ⟨hminus, hrun, rfl, hends⟩ := of_run_afterInteger h
    have hn : n = 0 := (Prod.mk.inj hrun).1.symm
    refine ⟨hminus, [0x30], ⟨.cons rfl (by simp), fun _ => rfl⟩, by rw [hs, hzero]; rfl, ?_,
      fun c hc => ⟨?_, hends c hc⟩⟩
    · rw [hn]
      rfl
    · rw [hc] at hnext
      exact Bool.eq_false_iff.2 hnext
  next hzero =>
  split at h
  · next hb =>
    obtain ⟨ds, u, hds, h⟩ := exists_of_run_bind_eq_ok h
    obtain ⟨ht, hall, hstop⟩ := exists_of_run_takeWhile_digits hds
    obtain ⟨hminus, hrun, rfl, hends⟩ := of_run_afterInteger h
    exact ⟨hminus, b :: ds, ⟨.cons hb hall, fun h => absurd (Option.some.inj h) hzero⟩,
      by rw [hs, ht]; rfl, hrun, fun c hc => ⟨hstop c hc, hends c hc⟩⟩
  · cases h

/-- Its digits are read as it. -/
theorem run_numberAfterSign_whole {ds : Bytes} (hds : IsWhole ds)
    (hvalue : appendDigits 0 ds = (n, 0)) (hr : Delimited r) :
    (numberAfterSign false).run (ds ++ r) = .ok (.natural n, r) := by
  obtain ⟨b, ds, rfl⟩ := List.exists_cons_of_ne_nil hds.ne_nil
  by_cases hzero : b = 0x30
  · rw [hds.zero (congrArg some hzero)] at hvalue ⊢
    rw [← (Prod.mk.inj hvalue).1]
    exact run_numberAfterSign_zero hr
  · exact run_numberAfterSign_digits hzero hds.all hvalue hr

/-- Only natural numbers are counts. -/
theorem of_run_asCount {number : Number} (h : (asCount number).run s = .ok (n, r)) :
    number = .natural n ∧ s = r := by
  cases number with
  | natural m =>
    cases h
    exact ⟨rfl, rfl⟩
  | negative => cases h
  | double => cases h

end Natural

/-- **A count is read from its digits**, as many as fit 64 bits.  A sign, a point or an exponent
makes it a number that is no count, whatever its value. -/
theorem means_countValue :
    countValue.Means fun v n => ∃ number : Numeral, v = .number number ∧ number.sign = [] ∧
      number.fraction = [] ∧ number.exponent = [] ∧ appendDigits 0 number.whole = (n, 0) where
  takes := by
    rintro _ n ⟨number, rfl, hsign, hfraction, hexponent, hwhole⟩ s r hs
    generalize ht : s.dropWhile isSpace = t at hs
    cases hs with
    | number hs hr =>
      have hrun := run_numberAfterSign_whole number.isWhole hwhole
        (hr.delimited hfraction hexponent)
      obtain ⟨b, ds, hds⟩ := List.exists_cons_of_ne_nil number.isWhole.ne_nil
      have hb : isDigit b = true := number.isWhole.all b (hds ▸ List.mem_cons_self)
      have hminus : b ≠ 0x2D := by
        rintro rfl
        cases hb
      simp only [Numeral.bytes, hsign, hfraction, hexponent, hds, List.nil_append,
        List.append_nil, List.cons_append] at hs hrun
      rw [hs] at ht
      rw [countValue, run_value_token ht, if_neg hminus, if_pos hb, run_bind_ok hrun]
      rfl
  sound {s r n} h := by
    obtain ⟨b, t, htoken, h⟩ := exists_of_run_value h
    split at h
    · rw [run_drop_bind] at h
      obtain ⟨number, u, hnumber, h⟩ := exists_of_run_bind_eq_ok h
      obtain ⟨rfl, rfl⟩ := of_run_asCount h
      cases (exists_of_run_numberAfterSign hnumber).1
    split at h
    · obtain ⟨number, u, hnumber, h⟩ := exists_of_run_bind_eq_ok h
      obtain ⟨rfl, rfl⟩ := of_run_asCount h
      obtain ⟨-, ds, hds, hs, hvalue, hr⟩ := exists_of_run_numberAfterSign hnumber
      let whole : Numeral := ⟨[], ds, [], [], .inl rfl, hds, .none, .none⟩
      refine ⟨.number whole, ?_, whole, rfl, rfl, rfl, rfl, hvalue⟩
      rw [htoken]
      refine .number ?_ (whole.endsAt_of_delimited hr)
      rw [hs]
      simp [whole, Numeral.bytes]
    · exact (ensures_reject _ _ _ _ _ h).elim

/-! ## Lists -/

/-- White space stands before a token. -/
theorem Token.exists_spaces {s t : Bytes} {b : UInt8} (h : Token s b t) :
    ∃ w, Spaces w ∧ s = w ++ b :: t := by
  refine ⟨s.takeWhile isSpace, fun b hb => List.all_eq_true.1 List.all_takeWhile b hb, ?_⟩
  have hsplit := List.takeWhile_append_dropWhile (p := isSpace) (l := s)
  rw [h] at hsplit
  exact hsplit.symm

section Elements

variable {item : Reader α}

/-- The elements of an array are read, from the first on. -/
theorem elementsRun_spells {v : Tree} {vs : List Tree} {a : α} {as : List α} {s t r : Bytes}
    (ha : item.Takes v a) (has : List.Forall₂ item.Takes vs as) (hfirst : Spells (.value v) s t)
    (hrest : Spells (.elements vs) t r) : elementsRun item s = .ok (a :: as, r) := by
  have hitem := ha s t hfirst.behind_token
  induction has generalizing v a s t with
  | nil =>
    cases hrest with
    | noElement hclose =>
      obtain ⟨w, hw, rfl⟩ := hclose.exists_spaces
      exact elementsRun_last hitem hw
  | cons hb _ ih =>
    cases hrest with
    | element hcomma hnext hrest =>
      obtain ⟨w, hw, rfl⟩ := hcomma.exists_spaces
      obtain ⟨c, u, hc, hclose⟩ := hnext.exists_token
      have hspace := hc.not_isSpace
      rw [hc] at hnext
      obtain ⟨w', hw', rfl⟩ := hc.exists_spaces
      rw [elementsRun_more hitem hw hw' hspace hclose,
        ih hb hnext hrest (hb _ _ hnext.behind_token)]
      rfl

/-- What is read as elements are elements. -/
theorem exists_of_elementsRun (h : item.IsExact) {as : List α} {s r : Bytes}
    (hrun : elementsRun item s = .ok (as, r)) :
    ∃ v vs t, Spells (.value v) (s.dropWhile isSpace) t ∧ Spells (.elements vs) t r ∧
      List.Forall₂ item.Takes (v :: vs) as := by
  fun_induction elementsRun item s generalizing as r with
  | case3 _ _ _ hitem _ hclose =>
    cases hrun
    obtain ⟨v, hv, ha⟩ := h.sound hitem
    exact ⟨v, [], _, hv, .noElement hclose, .cons ha .nil⟩
  | case6 _ _ _ hitem _ _ _ hnext _ hcomma _ ih =>
    obtain ⟨p, hrest, hp⟩ := exists_of_map_eq_ok hrun
    cases hp
    obtain ⟨v, hv, ha⟩ := h.sound hitem
    obtain ⟨v', vs, t, hv', hvs, has⟩ := ih hrest
    rw [← hnext, List.dropWhile_idempotent] at hv'
    exact ⟨v, v' :: vs, _, hv, .element hcomma hv' hvs, .cons ha has⟩
  | _ => cases hrun

/-- **A list is read from an array**, element by element.  That the item reader is exact is needed
in both directions: for the texts it takes and for those it refuses. -/
theorem Reader.IsExact.listValue (h : item.IsExact) :
    (listValue item).Means fun v as => ∃ vs, v = .array vs ∧ List.Forall₂ item.Takes vs as where
  takes := by
    rintro _ as ⟨vs, rfl, has⟩ s r hs
    generalize ht : s.dropWhile isSpace = t at hs
    rw [Json.listValue, run_value_token (b := 0x5B) (t := t.tail) (by cases hs <;> exact ht),
      if_pos rfl, run_drop_bind]
    cases hs with
    | emptyArray hclose =>
      cases has
      rw [List.tail_cons, run_lookAhead_token hclose]
      rfl
    | array hfirst hrest =>
      cases has with
      | cons ha has =>
        obtain ⟨b, u, hb, hclose⟩ := hfirst.exists_token
        rw [List.tail_cons, run_lookAhead_token hb]
        simp only [hclose, if_false]
        rw [hb] at hfirst
        exact elementsRun_spells ha has hfirst hrest
  sound {s r as} hrun := by
    obtain ⟨b, t, htoken, hrun⟩ := exists_of_run_value hrun
    split at hrun
    · next hb =>
      rw [run_drop_bind] at hrun
      obtain hrun | ⟨c, u, hc, hrun⟩ := exists_of_run_lookAhead hrun
      · cases hrun
      rw [htoken, hb]
      dsimp only at hrun
      split at hrun
      · next hclose =>
        cases hrun
        exact ⟨_, .emptyArray (hclose ▸ hc), [], rfl, .nil⟩
      · obtain ⟨v, vs, t', hv, hvs, has⟩ := exists_of_elementsRun h hrun
        rw [← hc, List.dropWhile_idempotent] at hv
        exact ⟨_, .array hv hvs, _, rfl, has⟩
    · exact (ensures_reject _ _ _ _ _ hrun).elim

end Elements

/-! ## One of several names

The name of a variant may stand as a string, or as the one key of an object with `null` behind it.
The reader accepts both, and only the first is ever written. -/

section Choice

variable {ofName? : String → Option α} {choices : List String} {body : Body} {name : String}
variable {a : α} {s r : Bytes}

/-- One of several names is read from a string that says it, from its quote on. -/
theorem run_choiceName (hsaid : body.Says name) (hname : ofName? name = some a) (r : Bytes) :
    (choiceName ofName? choices).run (quoteByte :: (body.bytes ++ quoteByte :: r))
      = .ok (a, r) := by
  rw [choiceName, run_drop_bind, run_bind_ok (hsaid.run_text r), hname]
  rfl

/-- What is read as one of several names is a string that says it. -/
theorem exists_of_run_choiceName {b : UInt8}
    (h : (choiceName ofName? choices).run (b :: s) = .ok (a, r)) :
    ∃ (body : Body) (name : String), s = body.bytes ++ quoteByte :: r ∧ body.Says name ∧
      ofName? name = some a := by
  rw [choiceName, run_drop_bind] at h
  obtain ⟨name, t, htext, h⟩ := exists_of_run_bind_eq_ok h
  obtain ⟨body, hbody, hsaid⟩ := exists_of_run_text htext
  split at h
  · next hname =>
    cases h
    exact ⟨body, name, hbody, hsaid, hname⟩
  · cases h

/-- One of several names is read from a key that says it, with white space before. -/
theorem run_choiceKey (hsaid : body.Says name) (hname : ofName? name = some a)
    (hs : Token s quoteByte (body.bytes ++ quoteByte :: r)) :
    (choiceKey ofName? choices).run s = .ok (a, r) := by
  rw [choiceKey, run_lookAhead_token hs]
  exact run_choiceName hsaid hname r

/-- What is read as a key of several names is a string that says one of them. -/
theorem exists_of_run_choiceKey (h : (choiceKey ofName? choices).run s = .ok (a, r)) :
    ∃ (body : Body) (name : String), Token s quoteByte (body.bytes ++ quoteByte :: r) ∧
      body.Says name ∧ ofName? name = some a := by
  obtain h | ⟨b, t, htoken, h⟩ := exists_of_run_lookAhead h
  · cases h
  dsimp only at h
  split at h
  · next hquote =>
    obtain ⟨body, name, rfl, hsaid, hname⟩ := exists_of_run_choiceName h
    exact ⟨body, name, hquote ▸ htoken, hsaid, hname⟩
  split at h
  · cases h
  · cases h

/-- One of several names is read from an object whose one key says it. -/
theorem run_choiceValue_object (hsaid : body.Says name) (hname : ofName? name = some a)
    (hs : Spells (.value (.object [(body, .null)])) (s.dropWhile isSpace) r) :
    (choiceValue ofName? choices).run s = .ok (a, r) := by
  generalize ht : s.dropWhile isSpace = t at hs
  cases hs with
  | object hmember hrest =>
    cases hmember with
    | member hquote hcolon hnull =>
      cases hrest with
      | noMember hclose =>
        rw [choiceValue, run_value_token ht, if_neg (by decide), if_pos rfl, run_drop_bind,
          run_bind_ok (run_choiceKey hsaid hname hquote), run_bind_ok (run_colon hcolon),
          run_bind_ok (means_nullValue.takes (a := ()) rfl _ _ hnull), run_lookAhead_token hclose]
        rfl

end Choice

/-- **One of several names is read from that name**, or from an object whose one key it is. -/
theorem means_choiceValue (ofName? : String → Option α) (choices : List String) :
    (choiceValue ofName? choices).Means fun v a =>
      ∃ body name, (v = .string body ∨ v = .object [(body, .null)]) ∧ body.Says name ∧
        ofName? name = some a where
  takes := by
    rintro _ a ⟨body, name, rfl | rfl, hsaid, hname⟩ s r hs
    · generalize ht : s.dropWhile isSpace = t at hs
      cases hs with
      | string hs =>
        rw [hs] at ht
        rw [choiceValue, run_value_token ht, if_pos rfl]
        exact run_choiceName hsaid hname r
    · exact run_choiceValue_object hsaid hname hs
  sound {s r a} h := by
    obtain ⟨b, t, htoken, h⟩ := exists_of_run_value h
    rw [htoken]
    split at h
    · next hb =>
      obtain ⟨body, name, rfl, hsaid, hname⟩ := exists_of_run_choiceName h
      exact ⟨_, .string (hb ▸ rfl), body, name, .inl rfl, hsaid, hname⟩
    split at h
    · next hb =>
      rw [run_drop_bind] at h
      obtain ⟨a', t₁, hkey, h⟩ := exists_of_run_bind_eq_ok h
      obtain ⟨_, t₂, hcolon, h⟩ := exists_of_run_bind_eq_ok h
      obtain ⟨_, t₃, hnull, h⟩ := exists_of_run_bind_eq_ok h
      obtain ⟨v, hv, rfl⟩ := means_nullValue.sound hnull
      obtain h | ⟨c, u, hc, h⟩ := exists_of_run_lookAhead h
      · cases h
      dsimp only at h
      split at h
      · next hclose =>
        cases h
        obtain ⟨body, name, hquote, hsaid, hname⟩ := exists_of_run_choiceKey hkey
        rw [hb]
        exact ⟨_, .object (.member hquote (token_of_run_colon hcolon) hv) (.noMember (hclose ▸ hc)),
          body, name, .inr rfl, hsaid, hname⟩
      · cases h
    · cases h

end RunRecord.Json
