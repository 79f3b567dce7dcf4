import RunRecord.Proofs.Json.Takes

/-!
# Proofs/Json/Assembly — what a record is made of

A record is read from an object or from an array.  The members of an object **build** it: each
declared one stores what its value stands for, each of the others changes nothing.  The elements of
an array **list** it: they are the values of the first members in order.  A shape whose members read
nothing but trees means just that (`means_reader`): an object that builds the record and names each
declared member at most once and each required one at all, or an array that lists it and leaves out
no required member.

The two ways are treated alike.  First it is said, on trees, what the members or the elements make
of a record; this is the specification, and it follows the grammar and not the reader.  Then the
reader's loop is shown to do just that, from the left to the right, with the set of names it has
seen as the only state that the specification does not have.
-/

namespace RunRecord.Json

open Reader

variable {α : Type} {shape : Shape α}

/-! ## What the grammar makes of a record

The declared name of a member is kept apart from its key, as different keys can say one name:
`"n\u0061me"` says `name`.  A key that says no declared name has no name here. -/

/-- What one member of an object does to a record, and the declared name it has, if any.  A member
that is not declared may have any value at all, and changes nothing. -/
inductive Shape.Stores (shape : Shape α) : Body × Tree → Option String → α → α → Prop
  | unknown {key : Body} {name : String} {v : Tree} {a : α} :
    key.Says name → shape.member? name = none → Stores shape (key, v) none a a
  | known {key : Body} {name : String} {v : Tree} {m : Member α} {f : α → α} {a : α} :
    key.Says name → shape.member? name = some m → m.read.Takes v f →
      Stores shape (key, v) (some name) a (f a)

/-- **What the members of an object make of a record**, one after another, and the declared names
among them.  That a name comes up twice is not ruled out here: it is refused by `IsRecord`. -/
inductive Shape.Builds (shape : Shape α) : List (Body × Tree) → List String → α → α → Prop
  | nil {a : α} : Builds shape [] [] a a
  | cons {m : Body × Tree} {ms : List (Body × Tree)} {name : Option String}
      {names : List String} {a b c : α} :
    shape.Stores m name a b → Builds shape ms names b c →
      Builds shape (m :: ms) (name.toList ++ names) a c

/-- **What the elements of an array make of a record**: the first members in order, with no required
one among those left out. -/
inductive Lists : List (Member α) → List Tree → α → α → Prop
  | nil {members : List (Member α)} {a : α} :
    (∀ m ∈ members, m.required = false) → Lists members [] a a
  | cons {m : Member α} {members : List (Member α)} {v : Tree} {vs : List Tree} {f : α → α}
      {a b : α} :
    m.read.Takes v f → Lists members vs (f a) b → Lists (m :: members) (v :: vs) a b

/-- The required members are among some names. -/
def Shape.RequiredIn (shape : Shape α) (names : List String) : Prop :=
  ∀ m ∈ shape.members, m.required = true → m.name ∈ names

/-- **What a record is read from.**  The blank record holds the defaults, so a member that is
missing keeps its default. -/
inductive Shape.IsRecord (shape : Shape α) : Tree → α → Prop
  | object {ms : List (Body × Tree)} {names : List String} {a : α} :
    shape.Builds ms names shape.blank a → names.Nodup → shape.RequiredIn names →
      IsRecord shape (.object ms) a
  | array {vs : List Tree} {a : α} :
    Lists shape.members vs shape.blank a → IsRecord shape (.array vs) a

/-! ## One member of an object -/

section Entries

variable {m : Body × Tree} {ms : List (Body × Tree)}
variable {name : Option String} {names seen : List String} {a b : α} {s t r : Bytes}

/-- A member is stored if its name has not been seen.  Afterwards it has been. -/
theorem Shape.Stores.run_entry (h : shape.Stores m name a b) (hseen : ∀ n ∈ name, n ∉ seen)
    (hm : Json.Spells (.member m) (quoteByte :: s) r) :
    (shape.entry a seen).run s = .ok (.stored b (name.toList ++ seen), r) := by
  cases hm with
  | @member key v _ t u _ hquote hcolon hvalue =>
    have hs : s = key.bytes ++ quoteByte :: t :=
      ((token_cons (by decide) s).unique hquote).2
    rw [hs, entry]
    cases h with
    | unknown hsaid hnone =>
      rw [run_bind_ok (hsaid.run_text t)]
      simp only [hnone]
      rw [run_bind_ok (run_colon hcolon), run_bind_ok (run_skipValue hvalue)]
      rfl
    | @known _ name _ m f _ hsaid hsome htakes =>
      have hname := Shape.name_of_member? hsome
      have hnot : seen.contains m.name = false := by
        simpa [hname] using hseen name rfl
      rw [run_bind_ok (hsaid.run_text t)]
      simp only [hsome, hnot]
      rw [if_neg (by decide), run_bind_ok (run_colon hcolon), run_bind_ok (htakes _ _ hvalue),
        hname]
      rfl

/-- What is stored is a member whose name has not been seen. -/
theorem Shape.exists_of_run_entry (hexact : ∀ m ∈ shape.members, m.read.IsExact)
    {seen' : List String} (h : (shape.entry a seen).run s = .ok (.stored b seen', r)) :
    ∃ m name, Json.Spells (.member m) (quoteByte :: s) r ∧ shape.Stores m name a b ∧
      (∀ n ∈ name, n ∉ seen) ∧ seen' = name.toList ++ seen := by
  obtain ⟨key, t, htext, h⟩ := exists_of_run_bind_eq_ok h
  obtain ⟨body, hs, hsaid⟩ := exists_of_run_text htext
  have hquote : Token (quoteByte :: s) quoteByte (body.bytes ++ quoteByte :: t) :=
    hs ▸ token_cons (by decide) s
  split at h
  · next hnone =>
    obtain ⟨_, u, hcolon, h⟩ := exists_of_run_bind_eq_ok h
    obtain ⟨_, _, hskip, h⟩ := exists_of_run_bind_eq_ok h
    cases h
    obtain ⟨v, hv⟩ := exists_of_run_skipValue hskip
    exact ⟨(body, v), none, .member hquote (token_of_run_colon hcolon) hv,
      .unknown hsaid hnone, nofun, rfl⟩
  · next m hsome =>
    have hname := Shape.name_of_member? hsome
    split at h
    · cases h
    next hnot =>
    obtain ⟨_, u, hcolon, h⟩ := exists_of_run_bind_eq_ok h
    obtain ⟨f, _, hread, h⟩ := exists_of_run_bind_eq_ok h
    cases h
    obtain ⟨v, hv, htakes⟩ := (hexact m (List.mem_of_find?_eq_some hsome)).sound hread
    refine ⟨(body, v), some key, .member hquote (token_of_run_colon hcolon) hv,
      .known hsaid hsome htakes, ?_, by rw [hname]; rfl⟩
    rintro _ ⟨⟩
    simpa [hname] using hnot

/-! ## All members of an object

Seen names are what the reader remembers of the members before, so the lemmas on its loop ask that
the names still to come are new, and say which have been seen in the end. -/

/-- A member starts with a quote, behind white space. -/
theorem Spells.exists_quote (h : Json.Spells (.member m) s r) :
    ∃ t, Token s quoteByte t ∧ Json.Spells (.member m) (quoteByte :: t) r := by
  cases h with
  | member hquote hcolon hvalue =>
    exact ⟨_, hquote, .member (token_cons (by decide) _) hcolon hvalue⟩

/-- What is a member behind a quote is one with the quote's white space before it. -/
theorem Spells.of_quote (hs : Token s quoteByte t)
    (h : Json.Spells (.member m) (quoteByte :: t) r) :
    Json.Spells (.member m) s r := by
  cases h with
  | member hquote hcolon hvalue =>
    obtain ⟨-, rfl⟩ := (token_cons (by decide) t).unique hquote
    exact .member hs hcolon hvalue

/-- **Members that build a record are read as that record**, up to the closing brace.  Every name is
among those seen in the end, which is what the check for missing members asks. -/
theorem Shape.Builds.entriesRun (h : shape.Builds (m :: ms) names a b) (hn : names.Nodup)
    (hseen : ∀ n ∈ names, n ∉ seen) (hm : Json.Spells (.member m) (quoteByte :: s) t)
    (hms : Json.Spells (.members ms) t r) :
    ∃ seen', shape.entriesRun a seen s = .ok (.ok (b, seen'), 0x7D :: r) ∧
      ∀ n ∈ names ++ seen, n ∈ seen' := by
  induction ms generalizing m names a seen s t with
  | nil =>
    cases h with
    | @cons _ _ name names _ _ _ hstores hrest =>
      cases hrest
      rw [List.append_nil] at hseen ⊢
      have hrun := hstores.run_entry (fun n hn => hseen n (Option.mem_toList.2 hn)) hm
      cases hms with
      | noMember hclose =>
        obtain ⟨w, hw, rfl⟩ := hclose.exists_spaces
        exact ⟨_, Shape.entriesRun_last hrun hw, fun _ => id⟩
  | cons m' ms ih =>
    cases h with
    | @cons _ _ name names _ _ _ hstores hrest =>
      obtain ⟨-, hnames, hdisjoint⟩ := List.nodup_append.1 hn
      have hrun := hstores.run_entry
        (fun n hn => hseen n (List.mem_append_left _ (Option.mem_toList.2 hn))) hm
      have hseen' : ∀ n ∈ names, n ∉ name.toList ++ seen := fun n hn => by
        rw [List.mem_append, not_or]
        exact ⟨fun h => hdisjoint n h n hn rfl, hseen n (List.mem_append_right _ hn)⟩
      cases hms with
      | another hcomma hm' hms =>
        obtain ⟨w, hw, rfl⟩ := hcomma.exists_spaces
        obtain ⟨s', hquote, hnext⟩ := hm'.exists_quote
        obtain ⟨w', hw', rfl⟩ := hquote.exists_spaces
        obtain ⟨seen', hrest, hmem⟩ := ih hrest hnames hseen' hnext hms
        refine ⟨seen', (Shape.entriesRun_more hrun hw hw').trans hrest, fun n hn => hmem n ?_⟩
        simp only [List.mem_append] at hn ⊢
        tauto

/-- **What is read as the members of an object builds a record**, with no declared name twice.  So
the reader's refusal of a repeated name is no accident of the order of its tests. -/
theorem Shape.exists_of_entriesRun (hexact : ∀ m ∈ shape.members, m.read.IsExact)
    {seen' : List String} (h : shape.entriesRun a seen s = .ok (.ok (b, seen'), r)) :
    ∃ m ms names t r', Json.Spells (.member m) (quoteByte :: s) t ∧
      Json.Spells (.members ms) t r' ∧ r = 0x7D :: r' ∧ shape.Builds (m :: ms) names a b ∧
      names.Nodup ∧ (∀ n ∈ names, n ∉ seen) ∧ ∀ n ∈ seen', n ∈ names ++ seen := by
  fun_induction Shape.entriesRun shape a seen s with
  | case4 _ _ _ _ _ _ hentry _ hclose =>
    cases h
    obtain ⟨m, name, hm, hstores, hnew, rfl⟩ := exists_of_run_entry hexact hentry
    refine ⟨m, [], name.toList ++ [], _, _, hm, .noMember hclose, rfl, .cons hstores .nil, ?_⟩
    rw [List.append_nil]
    exact ⟨by cases name <;> simp, fun n hn => hnew n (Option.mem_toList.1 hn), fun _ => id⟩
  | case6 _ _ _ _ _ _ hentry _ _ hcomma _ hquote ih =>
    obtain ⟨m, name, hm, hstores, hnew, rfl⟩ := exists_of_run_entry hexact hentry
    obtain ⟨m', ms, names, t', r', hm', hms, rfl, hbuilds, hnames, hseen, hmem⟩ := ih h
    have hname : name.toList.Nodup := by cases name <;> simp
    simp only [List.mem_append, not_or] at hseen hmem
    refine ⟨m, m' :: ms, name.toList ++ names, _, r', hm, .another hcomma (hm'.of_quote hquote) hms,
      rfl, .cons hstores hbuilds, List.nodup_append.2 ⟨hname, hnames, ?_⟩, ?_, ?_⟩
    · rintro n hn _ hn' rfl
      exact (hseen n hn').1 hn
    · intro n hn
      rcases List.mem_append.1 hn with hn | hn
      · exact hnew n (Option.mem_toList.1 hn)
      · exact (hseen n hn).2
    · intro n hn
      have := hmem n hn
      simp only [List.mem_append]
      tauto
  | _ => cases h

end Entries

/-! ## Objects -/

/-- Nothing is missing exactly if every required name has been seen. -/
theorem Shape.missing?_eq_none_iff {seen : List String} :
    shape.missing? seen = none ↔ shape.RequiredIn seen := by
  refine ⟨fun h m hm hrequired => ?_, fun h => missing?_eq_none h⟩
  rw [missing?, Option.map_eq_none_iff, List.find?_eq_none] at h
  have hm := h m hm
  simp only [hrequired, Bool.true_and, Bool.not_eq_true', Bool.not_eq_false] at hm
  simpa using hm

/-- Where a record is complete its required names have been seen, and nothing is read any more. -/
theorem Shape.of_run_complete {a b : α} {seen : List String} {s r : Bytes}
    (h : (shape.complete a seen).run s = .ok (b, r)) : shape.RequiredIn seen ∧ a = b ∧ s = r := by
  unfold complete at h
  split at h
  · cases h
  · next hnone =>
    cases h
    exact ⟨missing?_eq_none_iff.1 hnone, rfl, rfl⟩

/-- A record whose required names have been seen is complete. -/
theorem Shape.run_complete {seen : List String} (h : shape.RequiredIn seen) (a : α) (r : Bytes) :
    (shape.complete a seen).run r = .ok (a, r) := by
  rw [complete, missing?_eq_none_iff.2 h]
  rfl

/-- A closing brace is passed over where it stands. -/
theorem Shape.run_closingBrace (r : Bytes) : closingBrace.run (0x7D :: r) = .ok ((), r) :=
  run_lookAhead_token (token_cons (by decide) r) _

/-- **A record is read from an object that builds it.**  The names seen in the loop are those that
the members declare, so nothing required is missing. -/
theorem Shape.run_fromObject {ms : List (Body × Tree)} {names : List String} {a : α}
    {s r : Bytes} (h : shape.Builds ms names shape.blank a) (hn : names.Nodup)
    (hrequired : shape.RequiredIn names) (hs : Json.Spells (.value (.object ms)) (0x7B :: s) r) :
    shape.fromObject.run s = .ok (a, r) := by
  cases hs with
  | emptyObject hclose =>
    cases h
    rw [fromObject, run_lookAhead_token hclose]
    simp only [if_true]
    rw [run_drop_bind]
    exact run_complete hrequired _ r
  | object hm hms =>
    obtain ⟨t, hquote, hm⟩ := hm.exists_quote
    obtain ⟨seen', hentries, hmem⟩ := h.entriesRun hn (fun _ _ => List.not_mem_nil) hm hms
    have hrun : shape.entries.run t = .ok (.ok (a, seen'), 0x7D :: r) := hentries
    rw [fromObject, run_lookAhead_token hquote]
    simp only [show quoteByte ≠ 0x7D by decide, if_false, if_true]
    rw [run_drop_bind, run_bind_ok hrun, run_bind_ok (run_closingBrace r)]
    refine run_complete (fun m hm hr => hmem _ ?_) a r
    rw [List.append_nil]
    exact hrequired m hm hr

/-- **What a record is read from behind a brace is an object that builds it.**  What the loop has
gone through are its members, one entry after another. -/
theorem Shape.exists_of_run_fromObject (hexact : ∀ m ∈ shape.members, m.read.IsExact) {a : α}
    {s r : Bytes} (h : shape.fromObject.run s = .ok (a, r)) :
    ∃ ms, Json.Spells (.value (.object ms)) (0x7B :: s) r ∧ shape.IsRecord (.object ms) a := by
  obtain h | ⟨b, t, htoken, h⟩ := exists_of_run_lookAhead h
  · cases h
  dsimp only at h
  split at h
  · next hb =>
    rw [run_drop_bind] at h
    obtain ⟨hrequired, rfl, rfl⟩ := of_run_complete h
    exact ⟨[], .emptyObject (hb ▸ htoken), .object .nil .nil hrequired⟩
  split at h
  · next hb =>
    rw [run_drop_bind] at h
    obtain ⟨outcome, u, hentries, h⟩ := exists_of_run_bind_eq_ok h
    obtain ⟨_, u', hclosing, h⟩ := exists_of_run_bind_eq_ok h
    split at h
    · cases h
    next b' seen' =>
    obtain ⟨hrequired, rfl, rfl⟩ := of_run_complete h
    obtain ⟨m, ms, names, t', r', hm, hms, rfl, hbuilds, hnames, -, hmem⟩ :=
      exists_of_entriesRun hexact hentries
    rw [run_closingBrace] at hclosing
    cases hclosing
    refine ⟨m :: ms, .object (hm.of_quote (hb ▸ htoken)) hms, .object hbuilds hnames ?_⟩
    intro m hm hr
    simpa using hmem _ (hrequired m hm hr)
  · cases h

/-! ## Arrays

An array has no names, so a member is known by its place.  The reader counts the elements; it
matters only whether the count is zero, as a comma stands before all elements but the first. -/

/-- What stands before each element of an array but the first. -/
theorem Shape.run_anotherElement_comma {v : Tree} {s t r : Bytes} (hcomma : Token s 0x2C t)
    (hv : Json.Spells (.value v) (t.dropWhile isSpace) r) :
    (anotherElement false).run s = .ok (true, t.dropWhile isSpace) := by
  obtain ⟨b, u, hb, hclose⟩ := hv.exists_token
  rw [anotherElement, run_lookAhead_token hcomma]
  simp only [show (0x2C : UInt8) ≠ 0x5D by decide, if_false, if_true, Bool.false_eq_true]
  rw [run_drop_bind, run_lookAhead_token hb, show t.dropWhile isSpace = b :: u from hb]
  simp only [hclose, if_false]
  rfl

/-- Where the array ends, the members that are left out are optional. -/
theorem Shape.run_inOrder_end {members : List (Member α)}
    (h : ∀ m ∈ members, m.required = false) {s r : Bytes} (hclose : Token s 0x5D r) (count : Nat)
    (a : α) : ∃ t, (shape.inOrder members count a).run s = .ok (.ok a, t) ∧ Token t 0x5D r := by
  cases members with
  | nil => exact ⟨s, rfl, hclose⟩
  | cons m members =>
    have hrun : (anotherElement (count == 0)).run s = .ok (false, 0x5D :: r) := by
      rw [anotherElement, run_lookAhead_token hclose]
      rfl
    have hnone : (m :: members).findIdx? (·.required) = none := by
      rw [List.findIdx?_eq_none_iff]
      exact fun m hm => h m hm
    refine ⟨0x5D :: r, ?_, token_cons (by decide) r⟩
    rw [inOrder, run_bind_ok hrun, hnone]
    rfl

/-- **The elements behind the first are read as the members behind the first.** -/
theorem Lists.run_inOrder {members : List (Member α)} {vs : List Tree} {a b : α} {s r : Bytes}
    (h : Lists members vs a b) (hs : Json.Spells (.elements vs) s r) {count : Nat}
    (hcount : count ≠ 0) :
    ∃ t, (shape.inOrder members count a).run s = .ok (.ok b, t) ∧ Token t 0x5D r := by
  have hfirst : (count == 0) = false := by simpa using hcount
  induction h generalizing s count with
  | nil hoptional =>
    cases hs with
    | noElement hclose => exact Shape.run_inOrder_end hoptional hclose count _
  | cons htakes _ ih =>
    cases hs with
    | element hcomma hv hrest =>
      have hread := htakes _ _ hv.behind_token
      obtain ⟨t, hmembers, hclose⟩ := ih hrest (Nat.succ_ne_zero count) rfl
      refine ⟨t, ?_, hclose⟩
      rw [Shape.inOrder, hfirst, run_bind_ok (Shape.run_anotherElement_comma hcomma hv)]
      simp only [if_true]
      rw [run_bind_ok hread]
      exact hmembers

/-- **A record is read from an array that lists it.**  Members are read until the array ends or none
is left, and then it has to end. -/
theorem Shape.run_fromArray {vs : List Tree} {a : α} {s r : Bytes}
    (h : Lists shape.members vs shape.blank a)
    (hs : Json.Spells (.value (.array vs)) (0x5B :: s) r) :
    shape.fromArray.run s = .ok (a, r) := by
  suffices hmembers : ∃ t, (shape.inOrder shape.members 0 shape.blank).run s = .ok (.ok a, t) ∧
      Token t 0x5D r by
    obtain ⟨t, hmembers, hclose⟩ := hmembers
    have hclosing : closingBracket.run t = .ok ((), r) := run_lookAhead_token hclose _
    rw [fromArray, run_bind_ok hmembers, run_bind_ok hclosing]
    rfl
  cases hs with
  | emptyArray hclose =>
    generalize hmembers : shape.members = members at h
    cases h with
    | nil hoptional => exact run_inOrder_end hoptional hclose 0 _
  | array hfirst hrest =>
    generalize hmembers : shape.members = members at h
    cases h with
    | cons htakes hlists =>
      obtain ⟨b, u, hb, hclose⟩ := hfirst.exists_token
      have hrun : (anotherElement (0 == 0)).run s = .ok (true, b :: u) := by
        rw [anotherElement, run_lookAhead_token hb]
        simp only [hclose, if_false, beq_self_eq_true, if_true]
        rfl
      rw [hb] at hfirst
      obtain ⟨t, hmembers, hend⟩ := hlists.run_inOrder hrest (Nat.succ_ne_zero 0)
      refine ⟨t, ?_, hend⟩
      rw [inOrder, run_bind_ok hrun]
      simp only [if_true]
      rw [run_bind_ok (htakes _ _ hfirst.behind_token)]
      exact hmembers

/-- Another element follows a comma, or comes first; else the bracket is next. -/
theorem Shape.exists_of_run_anotherElement {first next : Bool} {s u : Bytes}
    (h : (anotherElement first).run s = .ok (next, u)) :
    next = false ∧ (∃ r, Token s 0x5D r ∧ u = 0x5D :: r) ∨
      next = true ∧ if first then u = s.dropWhile isSpace
        else ∃ t, Token s 0x2C t ∧ u = t.dropWhile isSpace := by
  obtain h | ⟨b, t, htoken, h⟩ := exists_of_run_lookAhead h
  · cases h
  dsimp only at h
  split at h
  · next hb =>
    cases h
    exact .inl ⟨rfl, t, hb ▸ htoken, by rw [hb]⟩
  split at h
  · next hfirst =>
    cases h
    exact .inr ⟨rfl, by rw [if_pos hfirst, htoken]⟩
  next hfirst =>
  split at h
  · next hb =>
    rw [run_drop_bind] at h
    obtain h | ⟨c, u', hc, h⟩ := exists_of_run_lookAhead h
    · cases h
    dsimp only at h
    split at h
    · cases h
    · cases h
      exact .inr ⟨rfl, by rw [if_neg hfirst]; exact ⟨t, hb ▸ htoken, hc.symm⟩⟩
  · cases h

/-- Members are read up to the bracket, or one more is read and then the rest. -/
theorem Shape.exists_of_run_inOrder_cons {m : Member α} {members : List (Member α)} {count : Nat}
    {a b : α} {s t : Bytes}
    (h : (shape.inOrder (m :: members) count a).run s = .ok (.ok b, t)) :
    (∃ r, Token s 0x5D r ∧ t = 0x5D :: r ∧ a = b ∧ ∀ m' ∈ m :: members, m'.required = false) ∨
      ∃ u f v, (if count == 0 then u = s.dropWhile isSpace
          else ∃ t, Token s 0x2C t ∧ u = t.dropWhile isSpace) ∧
        m.read.run u = .ok (f, v) ∧ (shape.inOrder members (count + 1) (f a)).run v = .ok (.ok b, t)
    := by
  rw [inOrder] at h
  obtain ⟨next, u, hanother, h⟩ := exists_of_run_bind_eq_ok h
  obtain ⟨rfl, r, hend, rfl⟩ | ⟨rfl, hmore⟩ := exists_of_run_anotherElement hanother
  · simp only [Bool.false_eq_true, if_false] at h
    split at h
    · cases h
    · next hnone =>
      cases h
      exact .inl ⟨r, hend, rfl, rfl, fun m' hm' => List.findIdx?_eq_none_iff.1 hnone m' hm'⟩
  · obtain ⟨f, v, hread, h⟩ := exists_of_run_bind_eq_ok h
    exact .inr ⟨u, f, v, hmore, hread, h⟩

/-- **What is read as the members behind the first are elements that list them.** -/
theorem Shape.exists_of_run_inOrder {members : List (Member α)}
    (hexact : ∀ m ∈ members, m.read.IsExact) {count : Nat} (hcount : count ≠ 0) {a b : α}
    {s t r : Bytes} (h : (shape.inOrder members count a).run s = .ok (.ok b, t))
    (hclose : Token t 0x5D r) :
    ∃ vs, Json.Spells (.elements vs) s r ∧ Lists members vs a b := by
  induction members generalizing count a s with
  | nil =>
    cases h
    exact ⟨[], .noElement hclose, .nil fun _ h => nomatch h⟩
  | cons m members ih =>
    obtain ⟨r', hend, rfl, rfl, hoptional⟩ | ⟨u, f, v, hu, hread, h⟩ := exists_of_run_inOrder_cons h
    · obtain ⟨-, rfl⟩ := hclose.unique (token_cons (by decide) r')
      exact ⟨[], .noElement hend, .nil hoptional⟩
    · rw [if_neg (by simpa using hcount)] at hu
      obtain ⟨t', hcomma, rfl⟩ := hu
      obtain ⟨first, hv, htakes⟩ := (hexact m List.mem_cons_self).sound hread
      rw [List.dropWhile_idempotent] at hv
      obtain ⟨vs, hvs, hlists⟩ := ih (fun m' hm' => hexact m' (List.mem_cons_of_mem _ hm'))
        (Nat.succ_ne_zero count) h
      exact ⟨first :: vs, .element hcomma hv hvs, .cons htakes hlists⟩

/-- Nothing but a bracket ends an array. -/
theorem Shape.token_of_run_closingBracket {s r : Bytes} {u : Unit}
    (h : closingBracket.run s = .ok (u, r)) : Token s 0x5D r := by
  obtain h | ⟨b, t, htoken, h⟩ := exists_of_run_lookAhead h
  · cases h
  dsimp only at h
  split at h
  · next hb =>
    cases h
    exact hb ▸ htoken
  split at h
  · rw [run_drop_bind] at h
    obtain h | ⟨_, _, -, h⟩ := exists_of_run_lookAhead h <;> cases h
  · cases h

/-- **What a record is read from behind a bracket is an array that lists it.**  A member that was
not there was one that may be missing. -/
theorem Shape.exists_of_run_fromArray (hexact : ∀ m ∈ shape.members, m.read.IsExact) {a : α}
    {s r : Bytes} (h : shape.fromArray.run s = .ok (a, r)) :
    ∃ vs, Json.Spells (.value (.array vs)) (0x5B :: s) r ∧
      Lists shape.members vs shape.blank a := by
  obtain ⟨outcome, t, hmembers, h⟩ := exists_of_run_bind_eq_ok h
  obtain ⟨_, u, hclosing, h⟩ := exists_of_run_bind_eq_ok h
  split at h
  · cases h
  next b =>
  cases h
  have hclose := token_of_run_closingBracket hclosing
  generalize shape.members = members at hmembers hexact
  cases members with
  | nil =>
    cases hmembers
    exact ⟨[], .emptyArray hclose, .nil fun _ h => nomatch h⟩
  | cons m members =>
    obtain ⟨r', hend, rfl, hb, hoptional⟩ | ⟨u, f, v, hu, hread, hrest⟩ :=
      exists_of_run_inOrder_cons hmembers
    · obtain ⟨-, rfl⟩ := hclose.unique (token_cons (by decide) r')
      exact ⟨[], .emptyArray hend, hb ▸ .nil hoptional⟩
    · obtain rfl : u = s.dropWhile isSpace := hu
      obtain ⟨first, hv, htakes⟩ := (hexact m List.mem_cons_self).sound hread
      rw [List.dropWhile_idempotent] at hv
      obtain ⟨vs, hvs, hlists⟩ := exists_of_run_inOrder
        (fun m' hm' => hexact m' (List.mem_cons_of_mem _ hm')) (Nat.succ_ne_zero 0) hrest hclose
      exact ⟨first :: vs, .array hv hvs, .cons htakes hlists⟩

/-! ## Records -/

/-- **A shape means the objects that build its record and the arrays that list it.**  That the
readers of its members are exact is the one thing asked of a shape; it is shown once for every type
of the report. -/
theorem Shape.means_reader (hexact : ∀ m ∈ shape.members, m.read.IsExact) :
    shape.reader.Means shape.IsRecord where
  takes := by
    rintro v a h s r hs
    cases h with
    | object hbuilds hnames hrequired =>
      obtain ⟨t, ht⟩ : ∃ t, s.dropWhile isSpace = 0x7B :: t := by
        generalize s.dropWhile isSpace = u at hs
        cases hs <;> exact ⟨_, rfl⟩
      rw [ht] at hs
      rw [reader, run_value_token ht, if_pos rfl, run_drop_bind]
      exact run_fromObject hbuilds hnames hrequired hs
    | array hlists =>
      obtain ⟨t, ht⟩ : ∃ t, s.dropWhile isSpace = 0x5B :: t := by
        generalize s.dropWhile isSpace = u at hs
        cases hs <;> exact ⟨_, rfl⟩
      rw [ht] at hs
      rw [reader, run_value_token ht, if_neg (by decide), if_pos rfl, run_drop_bind]
      exact run_fromArray hlists hs
  sound {s r a} h := by
    obtain ⟨b, t, htoken, h⟩ := exists_of_run_value h
    rw [htoken]
    split at h
    · next hb =>
      rw [run_drop_bind] at h
      obtain ⟨ms, hms, hrecord⟩ := exists_of_run_fromObject hexact h
      exact ⟨_, hb ▸ hms, hrecord⟩
    split at h
    · next hb =>
      rw [run_drop_bind] at h
      obtain ⟨vs, hvs, hlists⟩ := exists_of_run_fromArray hexact h
      exact ⟨_, hb ▸ hvs, .array hlists⟩
    · exact (ensures_reject _ _ _ _ _ h).elim

/-! ## Documents -/

/-- A document is decoded if nothing but white space is left of it. -/
theorem decode_eq_ok_iff_run {x : Reader α} {document : Bytes} {a : α} :
    decode x document = .ok a ↔
      ∃ r, x.run document = .ok (a, r) ∧ r.dropWhile isSpace = [] := by
  constructor
  · intro h
    rw [decode] at h
    split at h
    · next r hwhole =>
      cases h
      obtain ⟨b, t, hrun, hend⟩ := exists_of_run_bind_eq_ok hwhole
      rcases ht : t.dropWhile isSpace with _ | ⟨c, u⟩
      · rw [run_lookAhead_end ht] at hend
        cases hend
        exact ⟨t, hrun, ht⟩
      · rw [run_lookAhead_token ht] at hend
        cases hend
    · cases h
  · rintro ⟨r, hrun, hr⟩
    rw [decode, whole, run_bind_ok hrun, run_lookAhead_end hr]
    rfl

/-- **A document is decoded to `a` exactly if it presents a tree that is taken as `a`.**  From here
on a document is its tree. -/
theorem decode_eq_ok_iff {x : Reader α} (hexact : x.IsExact) {document : Bytes} {a : α} :
    decode x document = .ok a ↔ ∃ v, Presents document v ∧ x.Takes v a := by
  rw [decode_eq_ok_iff_run]
  constructor
  · rintro ⟨r, hrun, hr⟩
    obtain ⟨v, hv, htakes⟩ := hexact.sound hrun
    exact ⟨v, ⟨r, hv, hr⟩, htakes⟩
  · rintro ⟨v, ⟨r, hv, hr⟩, htakes⟩
    exact ⟨r, htakes _ _ hv, hr⟩

end RunRecord.Json
