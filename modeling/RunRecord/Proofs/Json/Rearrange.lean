import Mathlib.Data.List.Forall2
import Mathlib.Data.List.Pairwise
import RunRecord.Proofs.Json.Assembly

/-!
# Proofs/Json/Rearrange — one record in many presentations

The members of a shape **commute** if no two of them store into the same part of the record.  Then
the order of the members of an object does not matter (`Builds.perm`), so whatever is done to a
member can be done to it in front of all others: members that are not declared come and go, members
at their default as well, and the values of the members, defaults for those that are missing, list
the record in declared order (`IsRecord.toArray`).

Everything rests on one move: to bring a declared member in front of all the others.  With it, the
value of one member can be changed, a member can be added or left out, and two with one name can be
refused, without a look at the members that stand between.  The types of the report enter only
through `IsOrderly`, which each of them is shown to be by listing its members.
-/

namespace RunRecord.Json

open Reader

variable {α β γ : Type} {shape : Shape α}

/-! ## Members that commute

Members commute because they store into different fields.  This is asked of their stores and not of
the members, so that it is settled by looking at two updates of a record. -/

/-- Two members that store into different parts of a record. -/
def Member.Commutes (m m' : Member α) : Prop :=
  ∀ v v' f f', m.read.Takes v f → m'.read.Takes v' f' → ∀ a, f (f' a) = f' (f a)

/-- What a member stores is what its store makes of a value.  So the reader of a member has one
store for all values. -/
theorem exists_of_takes_store {x : Reader β} {store : β → α → α} {v : Tree} {f : α → α}
    (h : Reader.Takes (do return store (← x)) v f) : ∃ y, f = store y := by
  obtain ⟨s, hs⟩ := v.exists_spells delimited_nil
  obtain ⟨y, _, -, hrun⟩ := exists_of_run_bind_eq_ok (h s [] hs.behind_token)
  cases hrun
  exact ⟨y, rfl⟩

/-- Members commute if their stores do. -/
theorem Member.commutes_of_store {m m' : Member α} {x : Reader β} {x' : Reader γ}
    {store : β → α → α} {store' : γ → α → α} (hm : m.read = do return store (← x))
    (hm' : m'.read = do return store' (← x'))
    (h : ∀ y z a, store y (store' z a) = store' z (store y a)) : m.Commutes m' := by
  intro v v' f f' hf hf' a
  rw [hm] at hf
  rw [hm'] at hf'
  obtain ⟨y, rfl⟩ := exists_of_takes_store hf
  obtain ⟨z, rfl⟩ := exists_of_takes_store hf'
  exact h y z a

/-- **A shape whose members can come in any order**: they read nothing but trees, no two have one
name, and all commute.  Every type of the report has such a shape. -/
structure Shape.IsOrderly (shape : Shape α) : Prop where
  exact : ∀ m ∈ shape.members, m.read.IsExact
  nodup : (shape.members.map (·.name)).Nodup
  commute : shape.members.Pairwise Member.Commutes

/-- An orderly shape reads nothing but trees. -/
theorem Shape.IsOrderly.isExact (h : shape.IsOrderly) : shape.reader.IsExact :=
  (Shape.means_reader h.exact).isExact

/-- What an orderly shape takes is what a record is read from. -/
theorem Shape.IsOrderly.takes_iff (h : shape.IsOrderly) {v : Tree} {a : α} :
    shape.reader.Takes v a ↔ shape.IsRecord v a := (Shape.means_reader h.exact).takes_iff

/-- A declared member is found by its name. -/
theorem Shape.IsOrderly.member?_eq_some (h : shape.IsOrderly) {m : Member α}
    (hm : m ∈ shape.members) : shape.member? m.name = some m :=
  Shape.find?_eq_some_of_nodup h.nodup hm

/-- What is found by a name is a declared member. -/
theorem Shape.mem_of_member? {name : String} {m : Member α} (h : shape.member? name = some m) :
    m ∈ shape.members := List.mem_of_find?_eq_some h

/-- Members with different names commute. -/
theorem Shape.IsOrderly.commutes (h : shape.IsOrderly) {m m' : Member α} (hm : m ∈ shape.members)
    (hm' : m' ∈ shape.members) (hne : m.name ≠ m'.name) : m.Commutes m' := by
  have : Std.Symm (@Member.Commutes α) :=
    ⟨fun _ _ h v v' f f' hf hf' a => (h v' v f' f hf' hf a).symm⟩
  exact h.commute.forall hm hm' fun heq => hne (congrArg _ heq)

/-! ## Members in another order

Two neighbours are swapped first, and a permutation is made of such swaps.  The names move along
with their members, which is why the lemmas speak of a permutation of the names as well. -/

/-- Two members that do not have one declared name can change places. -/
theorem Shape.Stores.swap (h : shape.IsOrderly) {x y : Body × Tree} {n n' : Option String}
    {a b c : α} (hx : shape.Stores x n a b) (hy : shape.Stores y n' b c)
    (hne : ∀ k ∈ n, k ∉ n') : ∃ b', shape.Stores y n' a b' ∧ shape.Stores x n b' c := by
  cases hx with
  | unknown hsaid hnone => exact ⟨c, hy, .unknown hsaid hnone⟩
  | known hsaid hsome htakes =>
    cases hy with
    | unknown hsaid' hnone => exact ⟨a, .unknown hsaid' hnone, .known hsaid hsome htakes⟩
    | @known _ name' _ m' f' _ hsaid' hsome' htakes' =>
      refine ⟨f' a, .known hsaid' hsome' htakes', ?_⟩
      have hname := Shape.name_of_member? hsome
      have hname' := Shape.name_of_member? hsome'
      have hcommutes := h.commutes (mem_of_member? hsome) (mem_of_member? hsome') fun heq =>
        hne _ rfl (by rw [← hname, heq, hname']; rfl)
      rw [← hcommutes _ _ _ _ htakes htakes' a]
      exact .known hsaid hsome htakes

/-- **The order of the members does not matter.**  By induction on the permutation; that no name is
repeated is what lets two neighbours commute. -/
theorem Shape.Builds.perm (h : shape.IsOrderly) {ms ms' : List (Body × Tree)}
    {names : List String} {a b : α} (hb : shape.Builds ms names a b) (hn : names.Nodup)
    (hp : ms.Perm ms') : ∃ names', names.Perm names' ∧ shape.Builds ms' names' a b := by
  induction hp generalizing names a with
  | nil => exact ⟨names, .refl _, hb⟩
  | cons m _ ih =>
    cases hb with
    | cons hstores hrest =>
      obtain ⟨names', hperm, hrest⟩ := ih hrest (List.nodup_append.1 hn).2.1
      exact ⟨_, hperm.append_left _, .cons hstores hrest⟩
  | swap x y ms =>
    cases hb with
    | @cons _ _ n _ _ _ _ hy hrest =>
      cases hrest with
      | @cons _ _ n' names _ _ _ hx hrest =>
        obtain ⟨-, -, hdisjoint⟩ := List.nodup_append.1 hn
        obtain ⟨b', hx, hy⟩ := hy.swap h hx fun k hk hk' => hdisjoint k (Option.mem_toList.2 hk) k
          (List.mem_append_left _ (Option.mem_toList.2 hk')) rfl
        exact ⟨_, by rw [← List.append_assoc, ← List.append_assoc]
                     exact List.perm_append_comm.append_right _, .cons hx (.cons hy hrest)⟩
  | trans _ _ ih ih' =>
    obtain ⟨names₁, hperm, hb⟩ := ih hb hn
    obtain ⟨names₂, hperm', hb⟩ := ih' hb (hperm.nodup_iff.1 hn)
    exact ⟨names₂, hperm.trans hperm', hb⟩

/-- Whether the required names are there does not depend on their order. -/
theorem Shape.RequiredIn.perm {names names' : List String} (h : shape.RequiredIn names)
    (hp : names.Perm names') : shape.RequiredIn names' :=
  fun m hm hr => hp.mem_iff.1 (h m hm hr)

/-- **A record is read from its members in any order.**  Which names are repeated and which are
missing does not depend on the order, either. -/
theorem Shape.IsRecord.perm (h : shape.IsOrderly) {ms ms' : List (Body × Tree)} {a : α}
    (hr : shape.IsRecord (.object ms) a) (hp : ms.Perm ms') : shape.IsRecord (.object ms') a := by
  cases hr with
  | object hbuilds hnames hrequired =>
    obtain ⟨names', hperm, hbuilds⟩ := hbuilds.perm h hnames hp
    exact .object hbuilds (hperm.nodup_iff.1 hnames) (hrequired.perm hperm)

/-! ## Declared members -/

/-- What a key that says a declared name stores. -/
theorem Shape.Stores.eq_known (h : shape.IsOrderly) {m : Member α} (hm : m ∈ shape.members)
    {key : Body} (hsaid : key.Says m.name) {v : Tree} {name : Option String} {a b : α}
    (hs : shape.Stores (key, v) name a b) :
    name = some m.name ∧ ∃ f, m.read.Takes v f ∧ b = f a := by
  have hsome := h.member?_eq_some hm
  cases hs with
  | unknown hsaid' hnone =>
    rw [hsaid'.unique hsaid, hsome] at hnone
    cases hnone
  | known hsaid' hsome' htakes =>
    obtain rfl := hsaid'.unique hsaid
    obtain rfl := Option.some.inj (hsome'.symm.trans hsome)
    exact ⟨rfl, _, htakes, rfl⟩

/-- **A declared member can be stored first**, wherever it stands.  What the others make of the
record then is what they made of it before. -/
theorem Shape.Builds.extract (h : shape.IsOrderly) {m : Member α} (hm : m ∈ shape.members)
    {key : Body} (hsaid : key.Says m.name) {l r : List (Body × Tree)} {v : Tree}
    {names : List String} {a b : α} (hb : shape.Builds (l ++ (key, v) :: r) names a b)
    (hn : names.Nodup) : ∃ f names', m.read.Takes v f ∧ names.Perm (m.name :: names') ∧
      shape.Builds (l ++ r) names' (f a) b := by
  obtain ⟨names', hperm, hb⟩ := hb.perm h hn List.perm_middle
  cases hb with
  | cons hstores hrest =>
    obtain ⟨rfl, f, htakes, rfl⟩ := hstores.eq_known h hm hsaid
    exact ⟨f, _, htakes, hperm, hrest⟩

/-- A record is read from a declared member and from what the others make of it then. -/
theorem Shape.IsRecord.extract (h : shape.IsOrderly) {m : Member α} (hm : m ∈ shape.members)
    {key : Body} (hsaid : key.Says m.name) {l r : List (Body × Tree)} {v : Tree} {a : α}
    (hr : shape.IsRecord (.object (l ++ (key, v) :: r)) a) :
    ∃ f names, m.read.Takes v f ∧ shape.Builds (l ++ r) names (f shape.blank) a ∧
      (m.name :: names).Nodup ∧ shape.RequiredIn (m.name :: names) := by
  cases hr with
  | object hbuilds hnames hrequired =>
    obtain ⟨f, names, htakes, hperm, hrest⟩ := hbuilds.extract h hm hsaid hnames
    exact ⟨f, names, htakes, hrest, hperm.nodup_iff.1 hnames, hrequired.perm hperm⟩

/-! ## Members that are not declared, and members at their default

A member at its default stores what the blank record holds already.  So it makes no difference
whether it is there, provided that no other of its name is. -/

/-- The declared names of an object are said by its keys. -/
theorem Shape.Builds.exists_key {ms : List (Body × Tree)} {names : List String} {a b : α}
    (h : shape.Builds ms names a b) {name : String} (hname : name ∈ names) :
    ∃ v key, (key, v) ∈ ms ∧ key.Says name := by
  induction h with
  | nil => cases hname
  | @cons _ ms _ names _ _ _ hstores _ ih =>
    rcases List.mem_append.1 hname with hname | hname
    · cases hstores with
      | unknown => cases hname
      | known hsaid =>
        obtain rfl := List.mem_singleton.1 hname
        exact ⟨_, _, List.mem_cons_self, hsaid⟩
    · obtain ⟨v, key, hmem, hsaid⟩ := ih hname
      exact ⟨v, key, List.mem_cons_of_mem _ hmem, hsaid⟩

/-- A member whose name is not declared may be put anywhere. -/
theorem Shape.IsRecord.insert (h : shape.IsOrderly) {l r : List (Body × Tree)} {a : α}
    (hr : shape.IsRecord (.object (l ++ r)) a) {key : Body} {name : String}
    (hsaid : key.Says name) (hname : ∀ m ∈ shape.members, m.name ≠ name) (v : Tree) :
    shape.IsRecord (.object (l ++ (key, v) :: r)) a := by
  have hnone : shape.member? name = none := by
    rw [member?, List.find?_eq_none]
    exact fun m hm => by simpa using hname m hm
  refine Shape.IsRecord.perm h ?_ List.perm_middle.symm
  cases hr with
  | object hbuilds hnames hrequired =>
    exact .object (.cons (.unknown hsaid hnone) hbuilds) hnames hrequired

/-- What stands for the default of a member: a tree that the member takes as leaving the blank
record as it is, where the member may be missing. -/
def Shape.IsDefault (shape : Shape α) (m : Member α) (d : Tree) : Prop :=
  m.required = false ∧ ∃ f, m.read.Takes d f ∧ f shape.blank = shape.blank

/-- **A member that is missing may be put anywhere at its default.**  No key of the others may say
its name, in whatever spelling. -/
theorem Shape.IsRecord.addDefault (h : shape.IsOrderly) {l r : List (Body × Tree)} {a : α}
    (hr : shape.IsRecord (.object (l ++ r)) a) {m : Member α} (hm : m ∈ shape.members) {d : Tree}
    (hd : shape.IsDefault m d) {key : Body} (hsaid : key.Says m.name)
    (habsent : ∀ x ∈ l ++ r, ¬ x.1.Says m.name) :
    shape.IsRecord (.object (l ++ (key, d) :: r)) a := by
  obtain ⟨-, f, htakes, hblank⟩ := hd
  refine Shape.IsRecord.perm h ?_ List.perm_middle.symm
  cases hr with
  | object hbuilds hnames hrequired =>
    have hstores : shape.Stores (key, d) (some m.name) shape.blank (f shape.blank) :=
      .known hsaid (h.member?_eq_some hm) htakes
    rw [hblank] at hstores
    refine .object (.cons hstores hbuilds) (List.nodup_cons.2 ⟨fun hmem => ?_, hnames⟩)
      fun m' hm' hr => List.mem_cons_of_mem _ (hrequired m' hm' hr)
    obtain ⟨v, key', hmem, hsaid'⟩ := hbuilds.exists_key hmem
    exact habsent _ hmem hsaid'

/-- **A member at its default may be left out.**  To store the default in a record that has it is to
store nothing. -/
theorem Shape.IsRecord.dropDefault (h : shape.IsOrderly) {l r : List (Body × Tree)} {a : α}
    {m : Member α} (hm : m ∈ shape.members) {d : Tree} (hd : shape.IsDefault m d) {key : Body}
    (hsaid : key.Says m.name) (hr : shape.IsRecord (.object (l ++ (key, d) :: r)) a) :
    shape.IsRecord (.object (l ++ r)) a := by
  obtain ⟨hoptional, f, htakes, hblank⟩ := hd
  obtain ⟨f', names, htakes', hrest, hnames, hrequired⟩ := hr.extract h hm hsaid
  obtain rfl := htakes'.unique htakes
  rw [hblank] at hrest
  refine .object hrest (List.nodup_cons.1 hnames).2 fun m' hm' hr => ?_
  refine (List.mem_cons.1 (hrequired m' hm' hr)).resolve_left fun heq => ?_
  have hsome := h.member?_eq_some hm'
  rw [heq, h.member?_eq_some hm] at hsome
  rw [← Option.some.inj hsome, hoptional] at hr
  cases hr

/-! ## Objects as arrays

An array lists all members in declared order, so what is missing in the object has to be filled in.
The induction is over the declared members, of which each takes its own part out of the object. -/

/-- **What stands for a member of an object**: its value, or its default if it is missing. -/
inductive Shape.Given (shape : Shape α) (ms : List (Body × Tree)) (m : Member α) : Tree → Prop
  | present {key : Body} {v : Tree} : (key, v) ∈ ms → key.Says m.name → Given shape ms m v
  | missing {d : Tree} : shape.IsDefault m d → (∀ x ∈ ms, ¬ x.1.Says m.name) → Given shape ms m d

/-- What stands for a member does not depend on the others. -/
theorem Shape.Given.of_perm_cons {ms ms' : List (Body × Tree)} {m : Member α} {v w : Tree}
    {key : Body} (h : shape.Given ms m v) (hp : ms.Perm ((key, w) :: ms'))
    (hkey : ¬ key.Says m.name) : shape.Given ms' m v := by
  cases h with
  | present hmem hsaid =>
    refine .present ((List.mem_cons.1 (hp.mem_iff.1 hmem)).resolve_left ?_) hsaid
    rintro ⟨⟩
    exact hkey hsaid
  | missing hd hnone =>
    exact .missing hd fun x hx => hnone x (hp.mem_iff.2 (List.mem_cons_of_mem _ hx))

/-- Members none of which is declared change nothing. -/
theorem Shape.Builds.eq_of_nil {ms : List (Body × Tree)} {a b : α}
    (h : shape.Builds ms [] a b) : a = b := by
  generalize hnames : ([] : List String) = names at h
  induction h with
  | nil => rfl
  | cons hstores _ ih =>
    obtain ⟨hname, hrest⟩ := List.append_eq_nil_iff.1 hnames.symm
    cases hstores with
    | unknown => exact ih hrest.symm
    | known => cases hname

/-- What is among others and not the first of them is among the rest. -/
theorem subset_of_subset_cons {β : Type} {x : β} {xs ys : List β} (h : xs ⊆ x :: ys)
    (hx : x ∉ xs) : xs ⊆ ys := fun _ hy =>
  (List.mem_cons.1 (h hy)).resolve_left fun heq => hx (heq ▸ hy)

/-- What stands for the members lists what the object builds.  A default that is still to come
leaves the record so far as it is, since the members stored before it are others. -/
theorem Shape.Builds.lists (h : shape.IsOrderly) {members : List (Member α)}
    {ms : List (Body × Tree)} {vs : List Tree} {names : List String} {a b : α}
    (hb : shape.Builds ms names a b) (hn : names.Nodup) (hsub : members ⊆ shape.members)
    (hnodup : (members.map (·.name)).Nodup) (hnames : names ⊆ members.map (·.name))
    (hblank : ∀ m ∈ members, ∀ d f, m.read.Takes d f → f shape.blank = shape.blank → f a = a)
    (hvs : List.Forall₂ (shape.Given ms) members vs) : Lists members vs a b := by
  induction members generalizing ms vs names a with
  | nil =>
    cases hvs
    obtain rfl := List.eq_nil_of_subset_nil hnames
    obtain rfl := hb.eq_of_nil
    exact .nil nofun
  | cons m members ih =>
    cases hvs with
    | @cons _ v _ vs hv hvs =>
      have hm := hsub List.mem_cons_self
      have hsub' : members ⊆ shape.members := fun _ hm => hsub (List.mem_cons_of_mem _ hm)
      obtain ⟨hnew, hnodup⟩ := List.nodup_cons.1 hnodup
      have hne : ∀ m' ∈ members, m.name ≠ m'.name := fun m' hm' heq =>
        hnew (List.mem_map.2 ⟨m', hm', heq.symm⟩)
      cases hv with
      | @present key _ hmem hsaid =>
        obtain ⟨l, r, rfl⟩ := List.append_of_mem hmem
        obtain ⟨f, names', htakes, hperm, hrest⟩ := hb.extract h hm hsaid hn
        obtain ⟨hnew', hn'⟩ := List.nodup_cons.1 (hperm.nodup_iff.1 hn)
        have hnames' : names' ⊆ members.map (·.name) :=
          subset_of_subset_cons (fun _ hmem => hnames (hperm.mem_iff.2 (.tail _ hmem))) hnew'
        refine .cons htakes (ih hrest hn' hsub' hnodup hnames'
          (fun m' hm' d f' htakes' hfix => ?_) ?_)
        · rw [← h.commutes hm (hsub' hm') (hne m' hm') _ _ _ _ htakes htakes' a,
            hblank m' (List.mem_cons_of_mem _ hm') d f' htakes' hfix]
        · refine ((List.forall₂_and_left members vs).2 ⟨hne, hvs⟩).imp fun m' v' ⟨hne, hv'⟩ => ?_
          exact hv'.of_perm_cons List.perm_middle fun hsaid' => hne (hsaid.unique hsaid')
      | missing hd hnone =>
        obtain ⟨-, f, htakes, hfix⟩ := hd
        have hfa := hblank m List.mem_cons_self v f htakes hfix
        have hnew' : m.name ∉ names := fun hmem => by
          obtain ⟨v', key, hkey, hsaid⟩ := hb.exists_key hmem
          exact hnone _ hkey hsaid
        exact .cons htakes (hfa.symm ▸ ih hb hn hsub' hnodup (subset_of_subset_cons hnames hnew')
          (fun m' hm' => hblank m' (List.mem_cons_of_mem _ hm')) hvs)

/-- The declared names of an object are names of members. -/
theorem Shape.Builds.names_subset {ms : List (Body × Tree)} {names : List String} {a b : α}
    (h : shape.Builds ms names a b) : names ⊆ shape.members.map (·.name) := by
  induction h with
  | nil => exact List.nil_subset _
  | cons hstores _ ih =>
    cases hstores with
    | unknown => exact ih
    | known _ hsome =>
      exact List.cons_subset.2 ⟨List.mem_map.2 ⟨_, mem_of_member? hsome, name_of_member? hsome⟩, ih⟩

/-- **A record is read from the array of what stands for its members.**  An object thus has one
array, in which nothing is left out. -/
theorem Shape.IsRecord.toArray (h : shape.IsOrderly) {ms : List (Body × Tree)} {vs : List Tree}
    {a : α} (hr : shape.IsRecord (.object ms) a)
    (hvs : List.Forall₂ (shape.Given ms) shape.members vs) : shape.IsRecord (.array vs) a := by
  cases hr with
  | object hbuilds hnames _ =>
    exact .array (hbuilds.lists h hnames (List.Subset.refl _) h.nodup hbuilds.names_subset
      (fun _ _ _ _ _ => id) hvs)

/-! ## Places

The place of a value is where a report may be changed further inside.  That it is taken by the same
reader is all that is kept, so the change can be made at any depth. -/

/-- **The value of a member matters only as far as it is taken.**  Any other value that is taken
alike may stand in its place. -/
theorem Shape.IsRecord.slot (h : shape.IsOrderly) {m : Member α} (hm : m ∈ shape.members)
    {key : Body} (hsaid : key.Says m.name) {l r : List (Body × Tree)} {v : Tree} {a : α}
    (hr : shape.IsRecord (.object (l ++ (key, v) :: r)) a) :
    ∃ f, m.read.Takes v f ∧
      ∀ w, m.read.Takes w f → shape.IsRecord (.object (l ++ (key, w) :: r)) a := by
  obtain ⟨f, names, htakes, hrest, hnames, hrequired⟩ := hr.extract h hm hsaid
  refine ⟨f, htakes, fun w hw => Shape.IsRecord.perm h ?_ List.perm_middle.symm⟩
  exact .object (.cons (.known hsaid (h.member?_eq_some hm) hw) hrest) hnames hrequired

/-- An element of an array matters only as far as it is taken. -/
theorem Lists.slot {members : List (Member α)} {us ws : List Tree} {v : Tree} {a b : α}
    (h : Lists members (us ++ v :: ws) a b) {m : Member α} (hm : members[us.length]? = some m) :
    ∃ f, m.read.Takes v f ∧ ∀ w, m.read.Takes w f → Lists members (us ++ w :: ws) a b := by
  induction us generalizing members a with
  | nil =>
    cases h with
    | cons htakes hrest =>
      cases hm
      exact ⟨_, htakes, fun w hw => .cons hw hrest⟩
  | cons u us ih =>
    cases h with
    | cons htakes hrest =>
      obtain ⟨f, hv, hw⟩ := ih hrest hm
      exact ⟨f, hv, fun w h => .cons htakes (hw w h)⟩

/-- **No record is read from an object that has a declared member twice**, however its keys are
spelled and whatever is between. -/
theorem Shape.not_isRecord_repeated (h : shape.IsOrderly) {m : Member α} (hm : m ∈ shape.members)
    {key key' : Body} (hsaid : key.Says m.name) (hsaid' : key'.Says m.name)
    (l l' r : List (Body × Tree)) (v w : Tree) (a : α) :
    ¬ shape.IsRecord (.object (l ++ (key, v) :: (l' ++ (key', w) :: r))) a := by
  intro hr
  obtain ⟨f, names, -, hrest, hnames, -⟩ := hr.extract h hm hsaid
  obtain ⟨hnew, hnames⟩ := List.nodup_cons.1 hnames
  rw [← List.append_assoc] at hrest
  obtain ⟨-, names', -, hperm, -⟩ := hrest.extract h hm hsaid' hnames
  exact hnew (hperm.mem_iff.2 List.mem_cons_self)

/-! ## What has been stored

A member stores its value whatever is stored before and after it, so its value can be found in the
record again. -/

/-- What other members build commutes with what a member stores. -/
theorem Shape.Builds.exists_apply (h : shape.IsOrderly) {m : Member α} (hm : m ∈ shape.members)
    {v : Tree} {f : α → α} (hf : m.read.Takes v f) {ms : List (Body × Tree)} {names : List String}
    {a b : α} (hb : shape.Builds ms names a b) (hnew : m.name ∉ names) :
    ∃ g : α → α, b = g a ∧ ∀ x, f (g x) = g (f x) := by
  induction hb with
  | nil => exact ⟨id, rfl, fun _ => rfl⟩
  | cons hstores _ ih =>
    obtain ⟨hname, hnew⟩ := not_or.1 (List.mem_append.not.1 hnew)
    obtain ⟨g, rfl, hg⟩ := ih hnew
    cases hstores with
    | unknown => exact ⟨g, rfl, hg⟩
    | @known _ _ _ m' f' _ _ hsome htakes =>
      have hne : m.name ≠ m'.name := fun heq =>
        hname (List.mem_singleton.2 (heq.trans (name_of_member? hsome)))
      have hcommutes := h.commutes hm (mem_of_member? hsome) hne _ _ _ _ hf htakes
      exact ⟨fun x => g (f' x), rfl, fun x => by rw [hg, hcommutes]⟩

/-- What other members list commutes with what a member stores. -/
theorem Lists.exists_apply {m : Member α} {v : Tree} {f : α → α} (hf : m.read.Takes v f)
    {members : List (Member α)} {vs : List Tree} {a b : α} (h : Lists members vs a b)
    (hcommutes : ∀ m' ∈ members, m.Commutes m') :
    ∃ g : α → α, b = g a ∧ ∀ x, f (g x) = g (f x) := by
  induction h with
  | nil => exact ⟨id, rfl, fun _ => rfl⟩
  | @cons m' members _ _ f' _ _ htakes _ ih =>
    obtain ⟨hm', hcommutes⟩ := List.forall_mem_cons.1 hcommutes
    obtain ⟨g, rfl, hg⟩ := ih hcommutes
    exact ⟨fun x => g (f' x), rfl, fun x => by rw [hg, hm' _ _ _ _ hf htakes]⟩

/-- **What a member of an object stores is in the record**: to store it again changes nothing. -/
theorem Shape.IsRecord.stored (h : shape.IsOrderly) {m : Member α} (hm : m ∈ shape.members)
    {key : Body} (hsaid : key.Says m.name) {l r : List (Body × Tree)} {v : Tree} {a : α}
    (hr : shape.IsRecord (.object (l ++ (key, v) :: r)) a) :
    ∃ f, m.read.Takes v f ∧ ((∀ x, f (f x) = f x) → f a = a) := by
  obtain ⟨f, names, htakes, hrest, hnames, -⟩ := hr.extract h hm hsaid
  obtain ⟨g, rfl, hg⟩ := hrest.exists_apply h hm htakes (List.nodup_cons.1 hnames).1
  exact ⟨f, htakes, fun hf => by rw [hg, hf]⟩

/-- What an element of an array stores is in the record. -/
theorem Lists.stored {members : List (Member α)} {us ws : List Tree} {v : Tree} {a b : α}
    (h : Lists members (us ++ v :: ws) a b) (hcommute : members.Pairwise Member.Commutes)
    {m : Member α} (hm : members[us.length]? = some m) :
    ∃ f, m.read.Takes v f ∧ ((∀ x, f (f x) = f x) → f b = b) := by
  induction us generalizing members a with
  | nil =>
    cases h with
    | @cons _ _ _ _ f _ _ htakes hrest =>
      cases hm
      obtain ⟨g, rfl, hg⟩ := hrest.exists_apply htakes (List.pairwise_cons.1 hcommute).1
      exact ⟨f, htakes, fun hf => by rw [hg, hf]⟩
  | cons u us ih =>
    cases h with
    | cons _ hrest => exact ih hrest (List.pairwise_cons.1 hcommute).2 hm

end RunRecord.Json
