import Mathlib.Logic.Relation
import RunRecord.Files.Store

/-!
# Proofs/Files/Growth — making directories adds directories and nothing else

A store **grows** by paths if everything in it stays as it is and whatever is new is a directory to
which one of the paths leads.  Following a path asks for directories only, so what a path leads to
is not changed by growth (`KeepsDirectories.follow`), and making a directory with all that is
missing above it grows a store by these paths (`grows_access_ensureDirectories`).

What is new is named by paths and not by places, because this is what a program knows: it asks for
the parents of a path one by one.  A path may have `..` in it, and then the directories above it as
a text are other ones than those above the place it leads to.
-/

namespace RunRecord

/-! ## Ancestors

Ancestors are taken of the text of a path, as the program takes them.  So they end at the root or at
a name, and never ask a store anything. -/

namespace Path

/-- **A lexical ancestor of a path**: what taking the parent, again and again, comes to. -/
def IsAbove (dir path : String) : Prop :=
  Relation.TransGen (fun p q => parent? p = some q) path dir

/-- The ancestors of a parent are those of the path. -/
theorem isAbove_of_mem_ancestors {path parent dir : String} (h : parent? path = some parent)
    (hdir : dir ∈ ancestors parent) : IsAbove dir path := by
  fun_induction ancestors parent generalizing path with
  | case1 => cases hdir
  | case2 parent _ _ =>
    obtain rfl := List.mem_singleton.1 hdir
    exact .single h
  | case3 parent _ next hnext ih =>
    rcases List.mem_cons.1 hdir with rfl | hdir
    · exact .single h
    · exact .head h (ih hnext hdir)

end Path

namespace FileStore

/-! ## Where paths lead -/

/-- The place of a target. -/
def Target.place : Target → Place
  | passed place => place
  | named directory name _ => directory ++ [name]

/-- A path leads to a place. -/
def Leads (store : FileStore) (path : String) (place : Place) : Prop :=
  ∃ target, store.follow path = .ok target ∧ target.place = place

/-- Every directory of one store is one of the other, and relative paths start at one place. -/
structure KeepsDirectories (before after : FileStore) : Prop where
  current : after.current = before.current
  directory : ∀ place, before.get? place = some .directory → after.get? place = some .directory

variable {before after : FileStore}

theorem KeepsDirectories.enter (h : KeepsDirectories before after) {here there : Place}
    {name : String} (henter : before.enter here name = .ok there) :
    after.enter here name = .ok there := by
  unfold FileStore.enter at henter ⊢
  split
  · next hdot => rwa [if_pos hdot] at henter
  next hdot =>
  rw [if_neg hdot] at henter
  split
  · next hup => rwa [if_pos hup] at henter
  next hup =>
  rw [if_neg hup] at henter
  split
  · next hlong => rwa [if_pos hlong] at henter
  next hlong =>
  rw [if_neg hlong] at henter
  split at henter
  · next hget => rwa [h.directory _ hget]
  · cases henter
  · cases henter

theorem KeepsDirectories.enterAll (h : KeepsDirectories before after) {names : List String}
    {here there : Place} (henter : before.enterAll here names = .ok there) :
    after.enterAll here names = .ok there := by
  induction names generalizing here with
  | nil => exact henter
  | cons name names ih =>
    rw [FileStore.enterAll] at henter ⊢
    split at henter
    · next next hnext =>
      rw [h.enter hnext]
      exact ih henter
    · cases henter

/-- **A path that leads somewhere still leads there** in a store that keeps the directories. -/
theorem KeepsDirectories.follow (h : KeepsDirectories before after) {path : String}
    {target : Target} (hfollow : before.follow path = .ok target) :
    after.follow path = .ok target := by
  unfold FileStore.follow at hfollow ⊢
  rw [h.current]
  split
  · next hnul => rwa [if_pos hnul] at hfollow
  next hnul =>
  rw [if_neg hnul] at hfollow
  split
  · next hempty => rwa [if_pos hempty] at hfollow
  next hempty =>
  rw [if_neg hempty] at hfollow
  split
  · next hlong => rwa [if_pos hlong] at hfollow
  next hlong =>
  rw [if_neg hlong] at hfollow
  dsimp only at hfollow ⊢
  split at hfollow
  · exact hfollow
  · next last _ =>
    split at hfollow
    · cases hfollow
    · next here hhere =>
      rw [h.enterAll hhere]
      exact hfollow

theorem KeepsDirectories.leads (h : KeepsDirectories before after) {path : String} {place : Place}
    (hleads : before.Leads path place) : after.Leads path place := by
  obtain ⟨target, hfollow, hplace⟩ := hleads
  exact ⟨target, h.follow hfollow, hplace⟩

/-! ## Growth

Growth is by a fixed list of paths, so that it is transitive.  A directory that is there already is
no growth, and asking for it again is no failure. -/

/-- **A store that has grown by some paths**: the rest is as it was, and what is new are directories
to which the paths lead. -/
structure Grows (paths : List String) (before after : FileStore) : Prop where
  current : after.current = before.current
  limits : after.limits = before.limits
  entry : ∀ place, after.get? place = before.get? place ∨
    before.get? place = none ∧ after.get? place = some .directory ∧
      ∃ path ∈ paths, after.Leads path place

namespace Grows

variable {paths : List String} {middle : FileStore}

theorem refl (paths : List String) (store : FileStore) : Grows paths store store where
  current := rfl
  limits := rfl
  entry _ := .inl rfl

/-- What is there stays. -/
theorem get?_eq_some (h : Grows paths before after) {place : Place} {entry : Entry}
    (hentry : before.get? place = some entry) : after.get? place = some entry := by
  rcases h.entry place with heq | ⟨hnone, -, -⟩
  · rw [heq, hentry]
  · rw [hnone] at hentry
    cases hentry

theorem keepsDirectories (h : Grows paths before after) : KeepsDirectories before after where
  current := h.current
  directory _ hplace := h.get?_eq_some hplace

/-- What is there afterwards was there before, unless it is a directory. -/
theorem get?_eq_of_ne (h : Grows paths before after) {place : Place}
    (hplace : after.get? place ≠ some .directory) : before.get? place = after.get? place := by
  rcases h.entry place with heq | ⟨-, hdirectory, -⟩
  · exact heq.symm
  · exact absurd hdirectory hplace

theorem trans (h : Grows paths before middle) (h' : Grows paths middle after) :
    Grows paths before after where
  current := h'.current.trans h.current
  limits := h'.limits.trans h.limits
  entry place := by
    rcases h'.entry place with heq' | ⟨hnone, hdirectory, hleads⟩
    · rcases h.entry place with heq | ⟨hnone, hdirectory, path, hpath, hleads⟩
      · exact .inl (heq'.trans heq)
      · exact .inr ⟨hnone, heq'.trans hdirectory, path, hpath, h'.keepsDirectories.leads hleads⟩
    · rcases h.entry place with heq | ⟨-, hdirectory', -⟩
      · exact .inr ⟨heq.symm.trans hnone, hdirectory, hleads⟩
      · rw [hdirectory'] at hnone
        cases hnone

end Grows

/-! ## Making directories -/

/-- Making a directory puts one where the path leads, if nothing is there. -/
theorem makeDirectory_eq_ok {path : String} (h : before.makeDirectory path = .ok after) :
    ∃ here name slash, before.follow path = .ok (.named here name slash) ∧
      before.get? (here ++ [name]) = none ∧ after = before.put (here ++ [name]) .directory := by
  unfold makeDirectory at h
  split at h
  · cases h
  · cases h
  · next here name slash hfollow =>
    split at h
    · cases h
    split at h
    · next hnone =>
      cases h
      exact ⟨here, name, slash, hfollow, hnone, rfl⟩
    · cases h

theorem grows_makeDirectory {paths : List String} {path : String} (hpath : path ∈ paths)
    (h : before.makeDirectory path = .ok after) : Grows paths before after := by
  obtain ⟨here, name, slash, hfollow, hnone, rfl⟩ := makeDirectory_eq_ok h
  have hne : here ++ [name] ≠ [] := by simp
  have hother : ∀ place, place ≠ here ++ [name] →
      (before.put (here ++ [name]) .directory).get? place = before.get? place :=
    fun _ hplace => get?_put_of_ne hplace
  have hkeeps : KeepsDirectories before (before.put (here ++ [name]) .directory) :=
    { current := rfl
      directory := fun place hplace => by
        rw [hother place, hplace]
        rintro rfl
        rw [hnone] at hplace
        cases hplace }
  refine { current := rfl, limits := rfl, entry := fun place => ?_ }
  by_cases hplace : place = here ++ [name]
  · subst hplace
    exact .inr ⟨hnone, get?_put_self hne, path, hpath, _, hkeeps.follow hfollow, rfl⟩
  · exact .inl (hother place hplace)

/-- Making a directory through the calls of a store. -/
theorem grows_access_makeDirectory {paths : List String} {path : String} (hpath : path ∈ paths)
    (store : FileStore) : Grows paths store (access.makeDirectory path store).2 := by
  change Grows paths store (changing (·.makeDirectory path) store).2
  unfold changing
  split
  · next hok => exact grows_makeDirectory hpath hok
  · exact .refl _ _

/-- Making a directory that may be there already. -/
theorem grows_access_ensureDirectory {paths : List String} {path : String} (hpath : path ∈ paths)
    (store : FileStore) : Grows paths store (access.ensureDirectory path store).2 := by
  have h := grows_access_makeDirectory hpath store
  unfold FileAccess.ensureDirectory
  simp only [bind, StateT.bind]
  split
  next result made hmake =>
  rw [hmake] at h
  cases result with
  | ok => exact h
  | error => exact h

/-- Making a chain of directories. -/
theorem grows_access_ensureChain {paths : List String} (chain : List String)
    (hchain : chain ⊆ paths) (store : FileStore) :
    Grows paths store (access.ensureChain chain store).2 := by
  induction chain generalizing store with
  | nil => exact .refl _ _
  | cons path above ih =>
    have hpath : path ∈ paths := hchain List.mem_cons_self
    have habove : above ⊆ paths := List.subset_of_cons_subset hchain
    have h := grows_access_makeDirectory hpath store
    unfold FileAccess.ensureChain
    simp only [bind, StateT.bind]
    split
    next result made hmake =>
    rw [hmake] at h
    split
    · exact h
    · have hrest := ih habove made
      rcases hmade : access.ensureChain above made with ⟨result', made'⟩
      rw [hmade] at hrest
      simp only [StateT.bind, hmade]
      cases result' with
      | ok => exact h.trans (hrest.trans (grows_access_ensureDirectory hpath made'))
      | error => exact h.trans hrest
    · exact h

/-- **Making a directory grows the store** by that directory and those above it. -/
theorem grows_access_ensureDirectories (path : String) (store : FileStore) :
    Grows (Path.ancestors path) store (access.ensureDirectories path store).2 :=
  grows_access_ensureChain _ (List.Subset.refl _) store

end FileStore

end RunRecord
