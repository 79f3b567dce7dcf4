import RunRecord.Proofs.Json.Rearrange
import RunRecord.Proofs.Json.Written

/-!
# Proofs/Json/Cut — what becomes of the beginning of a document

Let a reader read something off the front of a text, and cut the text anywhere.  Then the reader is
**firm** at the cut if it reads the same from the first part, or else says that this breaks off; no
other complaint comes up first.  Readers of strings, literals and names are firm everywhere, and
firmness is closed under the ways in which readers are put together.

Numbers are the exception, since the first digits of a number are a number.  A reader that may end
with one is only **steady**: it may also be content with all of the first part.  What reads a list
or an object is firm again, as it then misses what closes it.  A record is firm on objects whose
members are all declared (`Shape.Familiar`); of members that are not, numbers would be complained
about.

Where a list or an object is cut, it does not matter how far the item in front of the cut was read:
what is missing is the bracket or the brace behind it, and it is missing from every reading of the
first part.  That is why steady items make firm containers, and why a whole document, which is an
object, can be cut nowhere without being refused.
-/

namespace RunRecord.Json

open Reader

variable {α β : Type}

/-! ## Breaking off

A result is compared for a text and for its beginning.  The rest that a reader leaves is part of the
result, so firmness says of it that the cut text leaves the rest of the whole less what was cut off.
-/

/-- The result of a reader that misses the rest of its text.  Only the category of the failure
counts, not its wording or its position. -/
def IsCut (result : Except Fault (α × Bytes)) : Prop :=
  ∃ e, result = .error e ∧ e.cause.category = .cut

/-- Every failure of the cut category counts as breaking off. -/
theorem isCut_error {e : Fault} (h : e.cause.category = .cut) :
    IsCut (.error e : Except Fault (α × Bytes)) := ⟨e, rfl, h⟩

/-- What is made of the value afterwards does not mend a text that has broken off. -/
theorem IsCut.map {result : Except Fault (α × Bytes)} (h : IsCut result)
    (f : α × Bytes → β × Bytes) : IsCut (result.map f) := by
  obtain ⟨e, rfl, hcut⟩ := h
  exact ⟨e, rfl, hcut⟩

/-- A reader that breaks off does so whatever was to follow it. -/
theorem IsCut.bind {x : Reader α} {p : Bytes} (h : IsCut (x.run p)) (f : α → Reader β) :
    IsCut ((x >>= f).run p) := by
  obtain ⟨e, he, hcut⟩ := h
  exact ⟨e, run_bind_error he, hcut⟩

namespace Reader

/-- **A reader is firm at a cut**: the first part breaks off, or is read like the whole. -/
def FirmAt (x : Reader α) (p q : Bytes) : Prop :=
  ∀ a r, x.run (p ++ q) = .ok (a, r) →
    IsCut (x.run p) ∨ ∃ t, x.run p = .ok (a, t) ∧ r = t ++ q

/-- **A reader is steady at a cut**: the first part breaks off, or is read like the whole, or is
itself read to its end as something else. -/
def SteadyAt (x : Reader α) (p q : Bytes) : Prop :=
  ∀ a r, x.run (p ++ q) = .ok (a, r) →
    IsCut (x.run p) ∨ (∃ b, x.run p = .ok (b, [])) ∨ ∃ t, x.run p = .ok (a, t) ∧ r = t ++ q

/-- A reader that is firm at every cut of every text that it reads. -/
def Firm (x : Reader α) : Prop := ∀ p q, x.FirmAt p q

variable {x : Reader α} {f : α → Reader β} {p q : Bytes}

/-- A reader that is firm is steady, since steadiness only allows more. -/
theorem FirmAt.steadyAt (h : x.FirmAt p q) : x.SteadyAt p q := fun a r hrun =>
  (h a r hrun).imp_right .inr

/-! ## Putting readers together

Firmness is closed under doing one thing after another, as long as the second is firm behind what
both texts agree on.  Steadiness is not: behind a number that was cut short, the texts agree on
nothing. -/

/-- To return a value takes nothing of the text. -/
theorem firm_pure (a : α) : (pure a : Reader α).Firm := by
  rintro p q _ _ ⟨⟩
  exact .inr ⟨p, rfl, rfl⟩

/-- Nothing is asked of a reader that reads nothing, since firmness is about texts that are read. -/
theorem Ensures.firm (h : x.Ensures fun _ => False) : x.Firm := fun _ _ _ _ hrun =>
  (h _ _ _ hrun).elim

/-- A reader that always fails is firm for want of a text that it reads. -/
theorem firm_fail (cause : Cause) : (fail cause : Reader α).Firm := (ensures_fail cause).firm

theorem firm_failAtNext (cause : Cause) : (failAtNext cause : Reader α).Firm :=
  Ensures.firm nofun

/-- **One reader after another**: what follows need be firm only behind what both texts agree on. -/
theorem FirmAt.bind (hx : x.FirmAt p q)
    (hf : ∀ a t, x.run p = .ok (a, t) → x.run (p ++ q) = .ok (a, t ++ q) → (f a).FirmAt t q) :
    (x >>= f).FirmAt p q := by
  intro b r hrun
  obtain ⟨a, u, hwhole, hrest⟩ := exists_of_run_bind_eq_ok hrun
  obtain hcut | ⟨t, hpart, rfl⟩ := hx a u hwhole
  · exact .inl (hcut.bind f)
  · rw [run_bind_ok hpart]
    exact hf a t hpart hwhole b r hrest

/-- If both readers are firm everywhere, so is the one after the other. -/
theorem Firm.bind (hx : x.Firm) (hf : ∀ a, (f a).Firm) : (x >>= f).Firm := fun p q =>
  (hx p q).bind fun a t _ _ => hf a t q

/-- What is read can be changed afterwards without a loss of steadiness. -/
theorem SteadyAt.map (h : x.SteadyAt p q) (f : α → β) :
    Reader.SteadyAt (do return f (← x)) p q := by
  intro b r hrun
  obtain ⟨a, u, hwhole, hrest⟩ := exists_of_run_bind_eq_ok hrun
  cases hrest
  obtain hcut | ⟨b, hpart⟩ | ⟨t, hpart, hr⟩ := h a r hwhole
  · exact .inl (hcut.bind _)
  · exact .inr (.inl ⟨f b, run_bind_ok hpart⟩)
  · exact .inr (.inr ⟨t, run_bind_ok hpart, hr⟩)

/-! ## The next byte

At the cut itself the next byte is missing.  A reader that asks for one breaks off there, and at
every other place both texts have the same byte. -/

/-- A byte that is dropped is the same in both texts. -/
theorem firmAt_drop_bind {x : Reader β} {b : UInt8} {t : Bytes} (h : x.FirmAt t q) :
    (do drop; x).FirmAt (b :: t) q := fun a r hrun => h a r hrun

/-- A reader that takes a byte has to be asked twice: what it does without a byte, and what it does
with each. -/
theorem firmAt_take_bind {f : Option UInt8 → Reader β} (hnone : IsCut ((f none).run []))
    (hsome : ∀ b t, p = b :: t → (f (some b)).FirmAt t q) : (take >>= f).FirmAt p q := by
  intro a r hrun
  cases p with
  | nil => exact .inl hnone
  | cons b t => exact hsome b t rfl a r hrun

/-- **A reader that looks ahead** breaks off where there is nothing but white space, and is
otherwise what it goes on with. -/
theorem firmAt_lookAhead {f : Option UInt8 → Reader α}
    (hnone : p.dropWhile isSpace = [] → IsCut ((f none).run []))
    (hsome : ∀ b t, Token p b t → (f (some b)).FirmAt (b :: t) q) : (lookAhead f).FirmAt p q := by
  intro a r hrun
  obtain hp | ⟨b, t, hp⟩ := token_or_end p
  · rw [run_lookAhead_end hp]
    exact .inl (hnone hp)
  · rw [run_lookAhead_token hp]
    rw [run_lookAhead_token (hp.append q)] at hrun
    exact hsome b t hp a r hrun

end Reader

/-- A value is looked for behind white space, and where there is none the text breaks off. -/
theorem firmAt_value {f : UInt8 → Reader α} {p q : Bytes}
    (h : ∀ b t, Token p b t → (f b).FirmAt (b :: t) q) : (value f).FirmAt p q :=
  firmAt_lookAhead (fun _ => isCut_error rfl) h

/-- A value that is refused is not read, so nothing is asked of the refusal. -/
theorem firm_reject (expected : Expected) (b : UInt8) : (reject expected b : Reader α).Firm :=
  (ensures_reject expected b).firm

/-- Where the colon is missing at the end of the text, the text breaks off. -/
theorem firm_colon : colon.Firm := fun _ _ =>
  firmAt_lookAhead (fun _ => isCut_error rfl) fun b t _ => by
    dsimp only
    split
    · exact firmAt_drop_bind (firm_pure () t _)
    · exact firm_failAtNext _ _ _

/-! ## Literals -/

theorem firm_literal (bs : Bytes) : (literal bs).Firm := by
  induction bs with
  | nil => exact firm_pure ()
  | cons b bs ih =>
    refine fun p q => firmAt_take_bind (isCut_error rfl) fun c t _ => ?_
    dsimp only
    split
    · exact ih t q
    · exact firm_fail _ _ _

theorem firm_booleanValue : booleanValue.Firm := fun p q =>
  firmAt_value fun b t _ => by
    split
    · exact firmAt_drop_bind ((firm_literal _).bind (fun _ => firm_pure true) t q)
    split
    · exact firmAt_drop_bind ((firm_literal _).bind (fun _ => firm_pure false) t q)
    · exact firm_reject _ _ _ _

/-! ## Strings

A string ends at its closing quote and nowhere else, so its beginning has no end.  An escape is
taken as a whole, and what is left of a cut one is not mistaken for a wrong one. -/

/-- Four bytes are taken whatever they are, so fewer break off. -/
theorem firm_hex4 : hex4.Firm := by
  intro p q n r hrun
  match p with
  | [] | [_] | [_, _] | [_, _, _] => exact .inl (isCut_error rfl)
  | a :: b :: c :: d :: t =>
    obtain ⟨_, _, _, _, heq, hvalue⟩ := exists_of_run_hex4 hrun
    cases heq
    exact .inr ⟨t, run_hex4 hvalue t, rfl⟩

/-- The second half of a surrogate pair is announced by two bytes, and one of them alone breaks off.
-/
theorem firm_pairByte (b : UInt8) : (pairByte b).Firm := fun p q =>
  firmAt_take_bind (isCut_error rfl) fun c t _ => by
    dsimp only
    split
    · exact firm_pure () t q
    · exact firm_fail _ _ _

/-- An escape by digits is firm, with its other half where it needs one. -/
theorem firm_unicodeEscape : unicodeEscape.Firm :=
  firm_hex4.bind fun n => by
    split
    · exact firm_fail _
    split
    · refine (firm_pairByte _).bind fun _ => (firm_pairByte _).bind fun _ =>
        firm_hex4.bind fun m => ?_
      split
      · exact firm_pure _
      · exact firm_fail _
    · exact firm_pure _

theorem firm_escape : escape.Firm := fun p q =>
  firmAt_take_bind (isCut_error rfl) fun b t _ => by
    dsimp only
    split
    · exact firm_unicodeEscape t q
    split
    · exact firm_pure _ t q
    · exact firm_fail _ _ _

/-- What is read of the rest decides about the whole: a string in front of which something was read
is firm if the rest of it is. -/
theorem firm_map {result : Except Fault (α × Bytes)} {a : α} {r q : Bytes} (f : α → β)
    (h : IsCut result ∨ ∃ t, result = .ok (a, t) ∧ r = t ++ q) :
    IsCut (result.map fun p => (f p.1, p.2)) ∨
      ∃ t, (result.map fun p => (f p.1, p.2)) = .ok (f a, t) ∧ r = t ++ q := by
  obtain hcut | ⟨t, rfl, hr⟩ := h
  · exact .inl (hcut.map _)
  · exact .inr ⟨t, rfl, hr⟩

/-- A string with a bad escape is a bad string. -/
theorem textRun_escape_error {s : Bytes} {e : Fault} (h : escape.run s = .error e) :
    textRun (backslash :: s) = .error e := by
  rw [textRun, if_neg (by decide), if_pos rfl]
  split
  · next he => rw [h] at he; cases he; rfl
  · next he => rw [h] at he; cases he

/-- **The bytes of a string break off before its closing quote.**  A cut inside of an escape is no
exception, as an escape has to end as well. -/
theorem firm_textBytes : textBytes.Firm := by
  intro p q bytes r hrun
  change textRun (p ++ q) = _ at hrun
  change IsCut (textRun p) ∨ ∃ t, textRun p = .ok (bytes, t) ∧ r = t ++ q
  generalize hs : p ++ q = s at hrun
  fun_induction textRun s generalizing p bytes r with
  | case1 => cases hrun
  | case2 =>
    cases p with
    | nil => exact .inl (by rw [textRun]; exact isCut_error rfl)
    | cons b t =>
      obtain ⟨rfl, rfl⟩ := List.cons_eq_cons.1 hs
      cases hrun
      exact .inr ⟨t, textRun_quote t, rfl⟩
  | case3 => cases hrun
  | case4 _ _ _ hescape _ ih =>
    obtain ⟨⟨_, _⟩, hrest, hmap⟩ := exists_of_map_eq_ok hrun
    cases hmap
    cases p with
    | nil => exact .inl (by rw [textRun]; exact isCut_error rfl)
    | cons b t =>
      obtain ⟨rfl, rfl⟩ := List.cons_eq_cons.1 hs
      obtain ⟨e, he, hcut⟩ | ⟨u, hpart, rfl⟩ := firm_escape t q _ _ hescape
      · exact .inl ⟨e, textRun_escape_error he, hcut⟩
      · rw [textRun_escape hpart]
        exact firm_map _ (ih _ _ _ rfl hrest)
  | case5 => cases hrun
  | case6 _ _ hquote hslash hcontrol ih =>
    obtain ⟨⟨_, _⟩, hrest, hmap⟩ := exists_of_map_eq_ok hrun
    cases hmap
    cases p with
    | nil => exact .inl (by rw [textRun]; exact isCut_error rfl)
    | cons b t =>
      obtain ⟨rfl, rfl⟩ := List.cons_eq_cons.1 hs
      rw [textRun_plain ⟨hquote, hslash, by simpa using hcontrol⟩]
      exact firm_map _ (ih _ _ _ rfl hrest)

/-- A string is its bytes, decoded, so it is firm as they are. -/
theorem firm_text : text.Firm :=
  firm_textBytes.bind fun bytes => by
    split
    · exact firm_pure _
    · exact Ensures.firm nofun

theorem firm_textFor (expected : Expected) : (textFor expected).Firm := fun p q =>
  firmAt_value fun b t _ => by
    split
    · exact firmAt_drop_bind (firm_text t q)
    · exact firm_reject _ _ _ _

/-- An instant is read as a string first, and only then looked at. -/
theorem firm_instantValue : instantValue.Firm :=
  (firm_textFor _).bind fun s => by
    split
    · exact firm_pure _
    · exact firm_fail _

/-! ## Counts

A count is the first reader that is not firm: `12` cut behind the first digit is `1`, and `1` is a
count.  Nothing else can be made of the beginning of digits. -/

/-- The beginning of digits that fit 64 bits fits them. -/
theorem exists_appendDigits {ds us : Bytes} {n m : Nat}
    (h : appendDigits n (ds ++ us) = (m, 0)) : ∃ k, appendDigits n ds = (k, 0) := by
  induction ds generalizing n with
  | nil => exact ⟨n, rfl⟩
  | cons b ds ih =>
    rw [List.cons_append, appendDigits] at h
    rw [appendDigits]
    split at h
    · next hlt =>
      rw [if_pos hlt]
      exact ih h
    · cases h

/-- The beginning of a whole number is one. -/
theorem IsWhole.of_append {ds us : Bytes} (h : IsWhole (ds ++ us)) (hne : ds ≠ []) :
    IsWhole ds where
  ne_nil := hne
  all b hb := h.all b (List.mem_append_left _ hb)
  zero hzero := by
    obtain ⟨b, ds, rfl⟩ := List.exists_cons_of_ne_nil hne
    have hwhole := h.zero hzero
    rw [List.cons_append, List.cons_eq_cons, List.append_eq_nil_iff] at hwhole
    rw [hwhole.1, hwhole.2.1]

/-- Behind the beginning of a text that ends a number nothing carries the number on either. -/
theorem Delimited.of_append {u q : Bytes} (h : Delimited (u ++ q)) : Delimited u := fun b hb =>
  h b (by rw [List.head?_append, hb]; rfl)

/-- What is left of a number that is written with its integer digits alone. -/
theorem spells_whole {ds s r : Bytes} (hds : IsWhole ds) (hs : s = ds ++ r)
    (hr : Delimited r) :
    Spells (.value (.number ⟨[], ds, [], [], .inl rfl, hds, .none, .none⟩)) s r :=
  .number (by simp [hs, Numeral.bytes]) (Numeral.endsAt_of_delimited _ hr)

/-- **A count is steady**: its first digits are a count. -/
theorem steady_countValue (p q : Bytes) : countValue.SteadyAt p q := by
  intro n r hrun
  obtain ⟨_, hv, number, rfl, hsign, hfraction, hexponent, hvalue⟩ :=
    means_countValue.sound hrun
  obtain hp | ⟨b, t, hp⟩ := token_or_end p
  · rw [countValue, value, run_lookAhead_end hp]
    exact .inl (isCut_error rfl)
  have hwhole : ∀ {ds : Bytes} {m : Nat} {u : Bytes}, IsWhole ds →
      appendDigits 0 ds = (m, 0) → b :: t = ds ++ u → Delimited u →
      countValue.run p = .ok (m, u) := fun hds hm hs hu =>
    means_countValue.takes ⟨_, rfl, rfl, rfl, rfl, hm⟩ p _ (hp ▸ spells_whole hds hs hu)
  rw [hp.append q] at hv
  cases hv with
  | number hs hr =>
    have hbytes : number.bytes = number.whole := by
      simp [Numeral.bytes, hsign, hfraction, hexponent]
    rw [hbytes, ← List.cons_append] at hs
    obtain ⟨u, hds, -⟩ | ⟨u, hds, hu⟩ := List.append_eq_append_iff.1 hs
    · obtain ⟨m, hm⟩ := exists_appendDigits (hds ▸ hvalue)
      exact .inr (.inl ⟨m, hwhole ((hds ▸ number.isWhole).of_append (List.cons_ne_nil b t)) hm
        (List.append_nil _).symm delimited_nil⟩)
    · refine .inr (.inr ⟨u, hwhole number.isWhole hvalue hds (Delimited.of_append (q := q) ?_), hu⟩)
      rw [← hu]
      exact hr.delimited hfraction hexponent

/-! ## Trees

Of lists and records it is not enough to say that a reader is firm at every cut, because that would
have to hold for texts of every shape.  It is said for the texts that spell one given tree. -/

/-- **A reader is firm on a tree**: at every cut of every text that begins with it. -/
def Reader.FirmOn (x : Reader α) (v : Tree) : Prop :=
  ∀ p q r, Spells (.value v) ((p ++ q).dropWhile isSpace) r → x.FirmAt p q

/-- A reader is steady on a tree, at every cut of every text that begins with it. -/
def Reader.SteadyOn (x : Reader α) (v : Tree) : Prop :=
  ∀ p q r, Spells (.value v) ((p ++ q).dropWhile isSpace) r → x.SteadyAt p q

/-- What is firm everywhere is firm on every tree. -/
theorem Reader.Firm.firmOn {x : Reader α} (h : x.Firm) (v : Tree) : x.FirmOn v :=
  fun p q _ _ => h p q

/-- On a tree, too, a firm reader is steady. -/
theorem Reader.FirmOn.steadyOn {x : Reader α} {v : Tree} (h : x.FirmOn v) : x.SteadyOn v :=
  fun p q r hv => (h p q r hv).steadyAt

/-- What is read off a tree can be changed afterwards. -/
theorem Reader.SteadyOn.map {x : Reader α} {v : Tree} (h : x.SteadyOn v) (f : α → β) :
    Reader.SteadyOn (do return f (← x)) v := fun p q r hv => (h p q r hv).map f

/-- What a value is read from is all of its text. -/
theorem Reader.IsExact.rest_eq {x : Reader α} (h : x.IsExact) {v : Tree} {s r t : Bytes} {a : α}
    (hrun : x.run s = .ok (a, t)) (hv : Spells (.value v) (s.dropWhile isSpace) r) : t = r := by
  obtain ⟨w, hw, -⟩ := h.sound hrun
  exact (hw.unique hv).2

/-- **A name is firm on strings**, where it stands between quotes. -/
theorem firmOn_choiceValue (ofName? : String → Option α) (choices : List String) (body : Body) :
    (choiceValue ofName? choices).FirmOn (.string body) := by
  intro p q r hv
  refine firmAt_value fun b t hp => ?_
  rw [hp.append q] at hv
  obtain ⟨_, _, heq, hstart⟩ := hv.start
  cases hv with
  | string hs =>
    obtain ⟨rfl, -⟩ := List.cons_eq_cons.1 hs
    rw [if_pos rfl]
    refine firmAt_drop_bind ((firm_text t q).bind fun s u _ _ => ?_)
    split
    · exact firm_pure _ u q
    · exact firm_fail _ u q

/-- An optional value is firm on what the value is firm on, and on nothing where it is cut to
nothing. -/
theorem Reader.FirmOn.optional {x : Reader α} {v : Tree} (h : x.FirmOn v)
    (hempty : IsCut (x.run [])) : (optional x).FirmOn v := by
  intro p q r hv
  refine firmAt_lookAhead (fun _ => hempty.bind _) fun b t hp => ?_
  split
  · exact firmAt_drop_bind ((firm_literal _).bind (fun _ => firm_pure none) t q)
  · refine FirmAt.bind (h (b :: t) q r ?_) fun a u _ _ => firm_pure (some a) u q
    rw [hp.append q] at hv
    exact hv.behind_token

/-! ## Lists

In the lemmas below `p` is the first part and `q` what was cut off.  An element is read on both
sides of the cut or breaks off; if it is read, then either a comma follows in the first part, and
the argument goes on behind it, or the first part ends and the list breaks off. -/

section Elements

variable {item : Reader α} {s t : Bytes} {a : α}

/-- A list breaks off where its first element does. -/
theorem isCut_elementsRun (h : IsCut (item.run s)) : IsCut (elementsRun item s) := by
  obtain ⟨e, he, hcut⟩ := h
  exact ⟨e, elementsRun_error he, hcut⟩

/-- A list breaks off where neither a closing bracket nor another element follows. -/
theorem isCut_elementsRun_of_ok (h : item.run s = .ok (a, t))
    (hend : ∀ b u, Token t b u → b = 0x2C ∧ u.dropWhile isSpace = []) :
    IsCut (elementsRun item s) := by
  rw [elementsRun_ok h]
  obtain ht | ⟨b, u, ht⟩ := token_or_end t
  · rw [ht]
    exact isCut_error rfl
  · obtain ⟨rfl, hu⟩ := hend b u ht
    rw [ht]
    dsimp only
    rw [if_neg (by decide), if_pos rfl, hu]
    exact isCut_error rfl

/-- A closing bracket behind an element ends the list. -/
theorem elementsRun_bracket (h : item.run s = .ok (a, t)) {u : Bytes} (hclose : Token t 0x5D u) :
    elementsRun item s = .ok ([a], u) := by
  obtain ⟨w, hw, rfl⟩ := hclose.exists_spaces
  exact elementsRun_last h hw

/-- A comma behind an element goes on to the next one. -/
theorem elementsRun_comma (h : item.run s = .ok (a, t)) {u u' : Bytes} {b : UInt8}
    (hcomma : Token t 0x2C u) (hnext : Token u b u') (hb : b ≠ 0x5D) :
    elementsRun item s = (elementsRun item (b :: u')).map fun p => (a :: p.1, p.2) := by
  have hspace := hnext.not_isSpace
  obtain ⟨w, hw, rfl⟩ := hcomma.exists_spaces
  obtain ⟨w', hw', rfl⟩ := hnext.exists_spaces
  exact elementsRun_more h hw hw' hspace hb

/-- An element is read on both sides of the cut with something behind it, or the list breaks off. -/
theorem isCut_or_exists_element (hexact : item.IsExact) {v : Tree} {p q r : Bytes}
    {as : List α} (hitem : item.SteadyOn v) (hv : Spells (.value v) ((p ++ q).dropWhile isSpace) t)
    (hrun : elementsRun item (p ++ q) = .ok (as, r)) :
    IsCut (elementsRun item p) ∨ ∃ a u b u', item.run p = .ok (a, u) ∧
      item.run (p ++ q) = .ok (a, u ++ q) ∧ t = u ++ q ∧ Token u b u' := by
  obtain ⟨a, t', hwhole⟩ : ∃ a t, item.run (p ++ q) = .ok (a, t) := by
    rcases hitem : item.run (p ++ q) with e | ⟨a, t⟩
    · rw [elementsRun_error hitem] at hrun
      cases hrun
    · exact ⟨a, t, rfl⟩
  obtain rfl := hexact.rest_eq hwhole hv
  obtain hcut | ⟨b, hb⟩ | ⟨u, hpart, rfl⟩ := hitem p q _ hv a _ hwhole
  · exact .inl (isCut_elementsRun hcut)
  · exact .inl (isCut_elementsRun_of_ok hb fun _ _ => nofun)
  obtain hu | ⟨b, u', hu⟩ := token_or_end u
  · refine .inl (isCut_elementsRun_of_ok hpart fun _ _ htoken => ?_)
    rw [Token, hu] at htoken
    cases htoken
  · exact .inr ⟨a, u, b, u', hpart, hwhole, rfl, hu⟩

/-- **Elements are firm** if each of them is steady: without what closes the list, they break
off. -/
theorem firmAt_elements (hexact : item.IsExact) {v : Tree} {vs : List Tree} {p q r : Bytes}
    (hitem : ∀ w ∈ v :: vs, item.SteadyOn w)
    (hv : Spells (.value v) ((p ++ q).dropWhile isSpace) t) (hvs : Spells (.elements vs) t r) :
    (elements item).FirmAt p q := by
  intro as r' hrun
  change elementsRun item (p ++ q) = _ at hrun
  change IsCut (elementsRun item p) ∨ ∃ t, elementsRun item p = .ok (as, t) ∧ r' = t ++ q
  induction vs generalizing v p t as with
  | nil =>
    obtain hcut | ⟨a, u, b, u', hpart, hwhole, rfl, hu⟩ :=
      isCut_or_exists_element hexact (hitem v List.mem_cons_self) hv hrun
    · exact .inl hcut
    cases hvs with
    | noElement hclose =>
      obtain ⟨rfl, rfl⟩ := hu.eq_of_append hclose
      rw [elementsRun_bracket hwhole hclose] at hrun
      cases hrun
      exact .inr ⟨u', elementsRun_bracket hpart hu, rfl⟩
  | cons w vs ih =>
    obtain hcut | ⟨a, u, b, u', hpart, hwhole, rfl, hu⟩ :=
      isCut_or_exists_element hexact (hitem v List.mem_cons_self) hv hrun
    · exact .inl hcut
    cases hvs with
    | element hcomma hw hvs =>
      obtain ⟨rfl, rfl⟩ := hu.eq_of_append hcomma
      obtain hnext | ⟨c, s', hnext⟩ := token_or_end u'
      · refine .inl (isCut_elementsRun_of_ok hpart fun b t htoken => ?_)
        obtain ⟨rfl, rfl⟩ := hu.unique htoken
        exact ⟨rfl, hnext⟩
      have hclose : c ≠ 0x5D := by
        rintro rfl
        exact hw.not_token rfl (hnext.append q)
      rw [elementsRun_comma hwhole hcomma (hnext.append q) hclose] at hrun
      rw [elementsRun_comma hpart hu hnext hclose]
      obtain ⟨⟨bs, _⟩, hrest, hmap⟩ := exists_of_map_eq_ok hrun
      cases hmap
      rw [hnext.append q] at hw
      exact firm_map _ (ih (p := c :: s') (fun v hv => hitem v (List.mem_cons_of_mem _ hv))
        hw.behind_token hvs bs hrest)

end Elements

/-- **A list is firm** on an array if its items are steady on the elements.  Steady is enough:
behind an element that is cut, a comma or the closing bracket is missed. -/
theorem Reader.SteadyOn.listValue {item : Reader α} (hexact : item.IsExact) {vs : List Tree}
    (h : ∀ v ∈ vs, item.SteadyOn v) : (listValue item).FirmOn (.array vs) := by
  intro p q r hv
  refine firmAt_value fun b t hp => ?_
  rw [hp.append q] at hv
  have hb : b = 0x5B := by cases hv <;> rfl
  rw [if_pos hb]
  refine firmAt_drop_bind (firmAt_lookAhead (fun _ => isCut_error rfl) fun c u hc => ?_)
  dsimp only
  split
  · exact firmAt_drop_bind (firm_pure _ u q)
  · next hclose =>
    cases hv with
    | emptyArray hempty => exact absurd (hc.eq_of_append hempty).1 hclose
    | array hv hvs =>
      rw [hc.append q] at hv
      exact firmAt_elements hexact h hv.behind_token hvs

/-! ## Records

Objects are read as lists are, with one more way to fail: a member may be unknown.  An unknown
member is skipped with its value, and a number that is cut while it is skipped is a complaint about
the number.  So what is written in an object has to be known. -/

/-- What is known of the members of an object: each of them is declared, and its reader is steady on
what it holds. -/
def Shape.Knows (shape : Shape α) (m : Body × Tree) : Prop :=
  ∃ name d, m.1.Says name ∧ shape.member? name = some d ∧ d.read.SteadyOn m.2

namespace Shape

section Entries

variable {shape : Shape α} {a : α} {seen : List String}

/-- **An entry is steady** if it is known: what is stored of the first part may go to its end. -/
theorem steadyAt_entry (hexact : ∀ m ∈ shape.members, m.read.IsExact) {m : Body × Tree}
    (hm : shape.Knows m) {p q r r' : Bytes} {outcome : Entry α}
    (hspells : Json.Spells (.member m) (quoteByte :: (p ++ q)) r)
    (hrun : (shape.entry a seen).run (p ++ q) = .ok (outcome, r')) :
    IsCut ((shape.entry a seen).run p) ∨
      (∃ b seen', (shape.entry a seen).run p = .ok (.stored b seen', [])) ∨
      ∃ t, (shape.entry a seen).run p = .ok (outcome, t) ∧ r' = t ++ q ∧
        ∀ b seen', outcome = .stored b seen' → r = r' := by
  obtain ⟨name, d, hsaid, hsome, hsteady⟩ := hm
  obtain ⟨key, _, hwhole, hrun⟩ := exists_of_run_bind_eq_ok hrun
  obtain hcut | ⟨t, hpart, rfl⟩ := firm_text p q _ _ hwhole
  · exact .inl (hcut.bind _)
  rw [entry, run_bind_ok hpart]
  cases hspells with
  | member hquote hcolon hvalue =>
    obtain ⟨-, hkey⟩ := (token_cons (by decide) (p ++ q)).unique hquote
    rw [hkey, hsaid.run_text] at hwhole
    obtain ⟨rfl, rfl⟩ := Prod.mk.inj (Except.ok.inj hwhole)
    simp only [hsome] at hrun ⊢
    split at hrun
    · next hseen =>
      rw [if_pos hseen]
      cases hrun
      refine .inr (.inr ⟨t, rfl, rfl, ?_⟩)
      rintro _ _ ⟨⟩
    · next hseen =>
      rw [if_neg hseen]
      obtain ⟨_, _, hwhole', hrun⟩ := exists_of_run_bind_eq_ok hrun
      obtain hcut | ⟨u, hpart', rfl⟩ := firm_colon t q _ _ hwhole'
      · exact .inl (hcut.bind _)
      rw [run_colon hcolon] at hwhole'
      obtain ⟨-, rfl⟩ := Prod.mk.inj (Except.ok.inj hwhole')
      obtain ⟨f, _, hread, hrun⟩ := exists_of_run_bind_eq_ok hrun
      cases hrun
      rw [run_bind_ok hpart']
      obtain hcut | ⟨g, hg⟩ | ⟨w, hf, hr⟩ := hsteady u q r hvalue f _ hread
      · exact .inl (hcut.bind _)
      · exact .inr (.inl ⟨g a, d.name :: seen, run_bind_ok hg⟩)
      · refine .inr (.inr ⟨w, run_bind_ok hf, hr, fun _ _ _ => ?_⟩)
        exact ((hexact d (List.mem_of_find?_eq_some hsome)).rest_eq hread hvalue).symm

variable {b : α} {seen' : List String} {s t : Bytes}

/-- An object breaks off where its first entry does. -/
theorem isCut_entriesRun (h : IsCut ((shape.entry a seen).run s)) :
    IsCut (shape.entriesRun a seen s) := by
  obtain ⟨e, he, hcut⟩ := h
  exact ⟨e, entriesRun_error he, hcut⟩

/-- An object breaks off where neither a closing brace nor another entry follows. -/
theorem isCut_entriesRun_of_ok (h : (shape.entry a seen).run s = .ok (.stored b seen', t))
    (hend : ∀ c u, Token t c u → c = 0x2C ∧ u.dropWhile isSpace = []) :
    IsCut (shape.entriesRun a seen s) := by
  rw [entriesRun_stored h]
  obtain ht | ⟨c, u, ht⟩ := token_or_end t
  · rw [ht]
    exact isCut_error rfl
  · obtain ⟨rfl, hu⟩ := hend c u ht
    rw [ht]
    dsimp only
    rw [if_neg (by decide), if_pos rfl, hu]
    exact isCut_error rfl

/-- A closing brace behind an entry ends the object. -/
theorem entriesRun_brace (h : (shape.entry a seen).run s = .ok (.stored b seen', t)) {u : Bytes}
    (hclose : Token t 0x7D u) : shape.entriesRun a seen s = .ok (.ok (b, seen'), 0x7D :: u) := by
  obtain ⟨w, hw, rfl⟩ := hclose.exists_spaces
  exact entriesRun_last h hw

/-- A comma and a quote behind an entry go on to the next one. -/
theorem entriesRun_comma (h : (shape.entry a seen).run s = .ok (.stored b seen', t))
    {u u' : Bytes} (hcomma : Token t 0x2C u) (hnext : Token u quoteByte u') :
    shape.entriesRun a seen s = shape.entriesRun b seen' u' := by
  obtain ⟨w, hw, rfl⟩ := hcomma.exists_spaces
  obtain ⟨w', hw', rfl⟩ := hnext.exists_spaces
  exact entriesRun_more h hw hw'

/-- An entry is read on both sides of the cut, with something behind it, or the object breaks
off. -/
theorem isCut_or_exists_entry (hexact : ∀ m ∈ shape.members, m.read.IsExact) {m : Body × Tree}
    (hm : shape.Knows m) {p q r' : Bytes} {outcome : Except Cause (α × List String)}
    (hspells : Json.Spells (.member m) (quoteByte :: (p ++ q)) t)
    (hrun : shape.entriesRun a seen (p ++ q) = .ok (outcome, r')) :
    (IsCut (shape.entriesRun a seen p) ∨
      ∃ u, shape.entriesRun a seen p = .ok (outcome, u) ∧ r' = u ++ q) ∨
    ∃ b seen' u c u', (shape.entry a seen).run p = .ok (.stored b seen', u) ∧
      (shape.entry a seen).run (p ++ q) = .ok (.stored b seen', u ++ q) ∧ t = u ++ q ∧
        Token u c u' := by
  obtain ⟨entry, t', hwhole⟩ : ∃ entry t, (shape.entry a seen).run (p ++ q) = .ok (entry, t) := by
    rcases hentry : (shape.entry a seen).run (p ++ q) with e | ⟨entry, t⟩
    · rw [entriesRun_error hentry] at hrun
      cases hrun
    · exact ⟨entry, t, rfl⟩
  obtain hcut | ⟨b, seen', hb⟩ | ⟨u, hpart, rfl, hr⟩ :=
    steadyAt_entry hexact hm hspells hwhole
  · exact .inl (.inl (isCut_entriesRun hcut))
  · exact .inl (.inl (isCut_entriesRun_of_ok hb fun _ _ => nofun))
  cases entry with
  | repeated name =>
    rw [entriesRun_repeated hwhole] at hrun
    cases hrun
    exact .inl (.inr ⟨u, entriesRun_repeated hpart, rfl⟩)
  | stored b seen' =>
    obtain hu | ⟨c, u', hu⟩ := token_or_end u
    · refine .inl (.inl (isCut_entriesRun_of_ok hpart fun _ _ htoken => ?_))
      rw [Token, hu] at htoken
      cases htoken
    · exact .inr ⟨b, seen', u, c, u', hpart, hwhole, hr b seen' rfl, hu⟩

/-- **Entries are firm** if each is known: without what closes the object, they break off. -/
theorem firmAt_entries (hexact : ∀ m ∈ shape.members, m.read.IsExact) {m : Body × Tree}
    {ms : List (Body × Tree)} (hms : ∀ n ∈ m :: ms, shape.Knows n) {p q r r' : Bytes}
    {outcome : Except Cause (α × List String)}
    (hm : Json.Spells (.member m) (quoteByte :: (p ++ q)) t)
    (hrest : Json.Spells (.members ms) t r)
    (hrun : shape.entriesRun a seen (p ++ q) = .ok (outcome, r')) :
    IsCut (shape.entriesRun a seen p) ∨
      ∃ u, shape.entriesRun a seen p = .ok (outcome, u) ∧ r' = u ++ q := by
  induction ms generalizing m p t a seen with
  | nil =>
    obtain hdone | ⟨b, seen', u, c, u', hpart, hwhole, rfl, hu⟩ :=
      isCut_or_exists_entry hexact (hms m List.mem_cons_self) hm hrun
    · exact hdone
    cases hrest with
    | noMember hclose =>
      obtain ⟨rfl, rfl⟩ := hu.eq_of_append hclose
      rw [entriesRun_brace hwhole hclose] at hrun
      cases hrun
      exact .inr ⟨0x7D :: u', entriesRun_brace hpart hu, rfl⟩
  | cons n ms ih =>
    obtain hdone | ⟨b, seen', u, c, u', hpart, hwhole, rfl, hu⟩ :=
      isCut_or_exists_entry hexact (hms m List.mem_cons_self) hm hrun
    · exact hdone
    cases hrest with
    | another hcomma hn hrest =>
      obtain ⟨rfl, rfl⟩ := hu.eq_of_append hcomma
      obtain ⟨s', hquote, hn⟩ := hn.exists_quote
      obtain hnext | ⟨d, w, hnext⟩ := token_or_end u'
      · refine .inl (isCut_entriesRun_of_ok hpart fun c t htoken => ?_)
        obtain ⟨rfl, rfl⟩ := hu.unique htoken
        exact ⟨rfl, hnext⟩
      obtain ⟨rfl, rfl⟩ := hnext.eq_of_append hquote
      rw [entriesRun_comma hwhole hcomma hquote] at hrun
      rw [entriesRun_comma hpart hu hnext]
      exact ih (fun n hn => hms n (List.mem_cons_of_mem _ hn)) hn hrest hrun

/-- Entries end in front of the closing brace. -/
theorem exists_brace_of_entriesRun (hexact : ∀ m ∈ shape.members, m.read.IsExact)
    (h : shape.entriesRun a seen s = .ok (.ok (b, seen'), t)) : ∃ u, t = 0x7D :: u := by
  obtain ⟨_, _, _, _, u, -, -, rfl, -⟩ := exists_of_entriesRun hexact h
  exact ⟨u, rfl⟩

end Entries

/-- What is missing from a record is found out when the brace has been read, so the text does not
matter any more. -/
theorem firm_complete (shape : Shape α) (a : α) (seen : List String) :
    (shape.complete a seen).Firm := by
  unfold complete
  split
  · exact firm_fail _
  · exact firm_pure a

/-- **A record is firm** on an object if its members are known. -/
theorem firmOn_reader {shape : Shape α} (hexact : ∀ m ∈ shape.members, m.read.IsExact)
    {ms : List (Body × Tree)} (hms : ∀ m ∈ ms, shape.Knows m) :
    shape.reader.FirmOn (.object ms) := by
  intro p q r hv
  refine firmAt_value fun b t hp => ?_
  rw [hp.append q] at hv
  have hb : b = 0x7B := by cases hv <;> rfl
  rw [if_pos hb]
  refine firmAt_drop_bind (firmAt_lookAhead (fun _ => isCut_error rfl) fun c u hc => ?_)
  dsimp only
  split
  · exact firmAt_drop_bind (firm_complete shape _ _ u q)
  next hclose =>
  split
  · next hquote =>
    subst hquote
    refine firmAt_drop_bind ?_
    cases hv with
    | emptyObject hempty => exact absurd (hc.eq_of_append hempty).1 hclose
    | object hm hrest =>
      obtain ⟨s, hs, hm⟩ := hm.exists_quote
      obtain ⟨-, rfl⟩ := hc.eq_of_append hs
      refine FirmAt.bind (fun _ _ => firmAt_entries hexact hms hm hrest) fun outcome w hpart _ => ?_
      cases outcome with
      | error cause =>
        exact (Ensures.behind (fun _ => ensures_fail _) _).firm _ _
      | ok found =>
        obtain ⟨w', rfl⟩ := exists_brace_of_entriesRun hexact hpart
        refine FirmAt.bind (fun _ _ h => ?_) fun _ w'' _ _ => firm_complete shape _ _ w'' q
        rw [List.cons_append, run_closingBrace] at h
        cases h
        exact .inr ⟨w', run_closingBrace w', rfl⟩
  · exact firm_failAtNext _ _ _

/-! ## Records written in order

A record that is written by the program has its declared members in the order of their declaration,
some of them left out.  So it can be built member by member beside the list of declarations. -/

/-- **Members that are familiar to a record**: each declared member in turn is written with a value
on which its reader is steady, or left out. -/
inductive Familiar : List (Member α) → List (String × Json) → Prop
  | nil : Familiar [] []
  | written {m : Member α} {members : List (Member α)} {v : Json} {ms : List (String × Json)} :
    m.read.SteadyOn v.tree → Familiar members ms → Familiar (m :: members) ((m.name, v) :: ms)
  | omitted {m : Member α} {members : List (Member α)} {ms : List (String × Json)} :
    Familiar members ms → Familiar (m :: members) ms

namespace Familiar

variable {members : List (Member α)} {ms : List (String × Json)}

/-- What is familiar is declared under its name, and steady. -/
theorem exists_member (h : Familiar members ms) {m : String × Json} (hm : m ∈ ms) :
    ∃ d ∈ members, d.name = m.1 ∧ d.read.SteadyOn m.2.tree := by
  induction h with
  | nil => cases hm
  | written hsteady _ ih =>
    rcases List.mem_cons.1 hm with rfl | hm
    · exact ⟨_, List.mem_cons_self, rfl, hsteady⟩
    · obtain ⟨d, hd, hname, hsteady⟩ := ih hm
      exact ⟨d, List.mem_cons_of_mem _ hd, hname, hsteady⟩
  | omitted _ ih =>
    obtain ⟨d, hd, hname, hsteady⟩ := ih hm
    exact ⟨d, List.mem_cons_of_mem _ hd, hname, hsteady⟩

/-! ### Ways to write a member -/

variable {β : Type} {name : String} {x : Reader β} {store : β → α → α}

/-- A member that is required is always written. -/
theorem required {v : Json} (hv : x.SteadyOn v.tree) (h : Familiar members ms) :
    Familiar (Json.required name x store :: members) ([(name, v)] ++ ms) :=
  written (hv.map store) h

/-- A member that may be left out but is always written does not differ in the text. -/
theorem always {v : Json} (hv : x.SteadyOn v.tree) (h : Familiar members ms) :
    Familiar (defaulted name x store :: members) ([(name, v)] ++ ms) :=
  written (hv.map store) h

/-- A member that is sometimes left out. -/
theorem writtenUnless (absent : Bool) {v : Json} (hv : x.SteadyOn v.tree)
    (h : Familiar members ms) :
    Familiar (defaulted name x store :: members) (memberUnless absent name v ++ ms) := by
  cases absent with
  | true => exact omitted h
  | false => exact always hv h

/-- A member that is written if there is a value for it, and left out if there is none. -/
theorem ofOption {store : Option β → α → α} {γ : Type} (value : γ → Json) (y : Option γ)
    (hv : ∀ z, x.FirmOn (value z).tree) (hempty : IsCut (x.run [])) (h : Familiar members ms) :
    Familiar (defaulted name (optional x) store :: members) (memberOf? name value y ++ ms) := by
  cases y with
  | none => exact omitted h
  | some z => exact always ((hv z).optional hempty).steadyOn h

end Familiar

/-- **A record is firm** on an object of familiar members.  The members are those that the writer
has put there, so the reader knows them by their names. -/
theorem firmOn_object {shape : Shape α} (h : shape.IsOrderly) {ms : List (String × Json)}
    (hms : Familiar shape.members ms) : shape.reader.FirmOn (Json.object ms).tree := by
  refine firmOn_reader h.exact fun m hm => ?_
  rw [memberTrees_eq_map] at hm
  obtain ⟨⟨key, v⟩, hmem, rfl⟩ := List.mem_map.1 hm
  obtain ⟨d, hd, rfl, hsteady⟩ := hms.exists_member hmem
  exact ⟨d.name, d, says_writtenBody _, h.member?_eq_some hd, hsteady⟩

end Shape

/-! ## Documents -/

/-- **A document that is read to its end breaks off wherever it is cut**, if its reader is firm. -/
theorem decode_of_firmAt {x : Reader α} {p q : Bytes} {a : α} (hfirm : x.FirmAt p q)
    (hrun : x.run (p ++ q) = .ok (a, [])) (hq : q ≠ []) :
    ∃ e, decode x p = .error e ∧ e.cause.category = .cut := by
  obtain ⟨e, he, hcut⟩ | ⟨t, -, hr⟩ := hfirm a [] hrun
  · refine ⟨e.toError p, ?_, hcut⟩
    have hwhole : (whole x).run p = .error e := run_bind_error he
    rw [decode, hwhole]
  · exact absurd (List.append_eq_nil_iff.1 hr.symm).2 hq

/-- **A document is malformed with anything but white space behind it**, if it holds no number. -/
theorem decode_append {x : Reader α} {document rest : Bytes} {v : Tree} {a : α}
    (hv : Presents document v) (htakes : x.Takes v a)
    (hnumber : (Piece.value v).endsInNumber = false) (hrest : rest.dropWhile isSpace ≠ []) :
    ∃ e, decode x (document ++ rest) = .error e ∧ e.cause.category = .malformed := by
  obtain ⟨r, hv, hr⟩ := hv
  have hspells := hv.append rest fun h => absurd (hnumber.symm.trans h) nofun
  rw [← hv.dropWhile_append] at hspells
  obtain hend | ⟨b, t, htoken⟩ := token_or_end (r ++ rest)
  · rw [List.dropWhile_append, hr] at hend
    exact absurd hend hrest
  · have hwhole : (whole x).run (document ++ rest) =
        .error { cause := .malformed .trailingCharacters, unread := t.length } := by
      rw [whole, run_bind_ok (htakes _ _ hspells), run_lookAhead_token htoken]
      rfl
    rw [decode, hwhole]
    exact ⟨_, rfl, rfl⟩

end RunRecord.Json
