import RunRecord.Proofs.Files.Writing

/-!
# Proofs/Files/Contents — what a file holds does not matter to the calls that do not read it

Two stores are **alike** if they differ in what is in their files and in nothing else.  A call is
**blind** if it gives one result on stores that are alike and changes them in the same way.  Making
directories and writing files is blind, and blind calls can be put together (`Blind.bind`), so what
follows the reading of a file cannot tell what was in it.

A write is blind as a whole and not in its parts: whether there is room for more bytes depends on
what a file holds, but a file that was just opened holds nothing (`access_write`).

With this, two runs that start in stores with other contents can be compared call by call, without a
look at the calls: blind ones may be put one after another, and only the reading of the report has
to be looked at, which is not blind.  The limits of a disk belong to what is alike, since they
decide how a write ends.
-/

namespace RunRecord

/-- An entry without what is in it. -/
def Entry.emptied : Entry → Entry
  | directory => directory
  | file mode _ => file mode []

namespace FileStore

/-! ## Stores that are alike

Changes are compared by what is there afterwards.  A change need not be one: to write a file with
what it holds already changes nothing in one store and something in another. -/

/-- **Stores that are alike**: they have the same directories, and the same files with the same
modes and limits, and relative paths start at one place. -/
structure Alike (first second : FileStore) : Prop where
  current : first.current = second.current
  limits : first.limits = second.limits
  entry : ∀ place,
    (first.get? place).map Entry.emptied = (second.get? place).map Entry.emptied

/-- **Stores that have changed in the same way**: what is at a place is the same in both, or nothing
has happened there in either. -/
structure SameChanges (first second after₁ after₂ : FileStore) : Prop where
  current₁ : after₁.current = first.current
  current₂ : after₂.current = second.current
  limits₁ : after₁.limits = first.limits
  limits₂ : after₂.limits = second.limits
  entry : ∀ place, after₁.get? place = after₂.get? place ∨
    after₁.get? place = first.get? place ∧ after₂.get? place = second.get? place

variable {first second : FileStore}

theorem Alike.refl (store : FileStore) : Alike store store where
  current := rfl
  limits := rfl
  entry _ := rfl

theorem Alike.entry_cases (h : Alike first second) (place : Place) :
    first.get? place = second.get? place ∨ ∃ mode content content',
      first.get? place = some (.file mode content) ∧
        second.get? place = some (.file mode content') := by
  have hentry := h.entry place
  rcases hfirst : first.get? place with _ | _ | ⟨mode, content⟩ <;>
    rcases hsecond : second.get? place with _ | _ | ⟨mode', content'⟩ <;>
      rw [hfirst, hsecond] at hentry <;> cases hentry
  · exact .inl rfl
  · exact .inl rfl
  · exact .inr ⟨mode, content, content', rfl, rfl⟩

namespace SameChanges

variable {middle₁ middle₂ after₁ after₂ : FileStore}

theorem refl (first second : FileStore) : SameChanges first second first second where
  current₁ := rfl
  current₂ := rfl
  limits₁ := rfl
  limits₂ := rfl
  entry _ := .inr ⟨rfl, rfl⟩

theorem trans (h : SameChanges first second middle₁ middle₂)
    (h' : SameChanges middle₁ middle₂ after₁ after₂) :
    SameChanges first second after₁ after₂ where
  current₁ := h'.current₁.trans h.current₁
  current₂ := h'.current₂.trans h.current₂
  limits₁ := h'.limits₁.trans h.limits₁
  limits₂ := h'.limits₂.trans h.limits₂
  entry place := by
    rcases h'.entry place with heq | ⟨hafter₁, hafter₂⟩
    · exact .inl heq
    · rw [hafter₁, hafter₂]
      exact h.entry place

/-- Stores that are alike are so after the same changes. -/
theorem alike (h : SameChanges first second after₁ after₂) (halike : Alike first second) :
    Alike after₁ after₂ where
  current := by rw [h.current₁, h.current₂, halike.current]
  limits := by rw [h.limits₁, h.limits₂, halike.limits]
  entry place := by
    rcases h.entry place with heq | ⟨hafter₁, hafter₂⟩
    · rw [heq]
    · rw [hafter₁, hafter₂, halike.entry]

/-- One entry put at one place. -/
theorem put {place : Place} (h : place ≠ []) (entry : Entry) :
    SameChanges first second (first.put place entry) (second.put place entry) where
  current₁ := rfl
  current₂ := rfl
  limits₁ := rfl
  limits₂ := rfl
  entry other := by
    by_cases hother : other = place
    · left
      rw [hother, get?_put_self h, get?_put_self h]
    · exact .inr ⟨get?_put_of_ne hother, get?_put_of_ne hother⟩

end SameChanges

/-! ## Following paths -/

theorem Alike.enter (h : Alike first second) (here : Place) (name : String) :
    first.enter here name = second.enter here name := by
  rcases h.entry_cases (here ++ [name]) with heq | ⟨mode, content, content', hfirst, hsecond⟩
  · rw [FileStore.enter, FileStore.enter, heq]
  · rw [FileStore.enter, FileStore.enter, hfirst, hsecond]

theorem Alike.enterAll (h : Alike first second) (here : Place) (names : List String) :
    first.enterAll here names = second.enterAll here names := by
  induction names generalizing here with
  | nil => rfl
  | cons name names ih =>
    rw [FileStore.enterAll, FileStore.enterAll, h.enter]
    cases second.enter here name with
    | ok there => exact ih there
    | error => rfl

/-- **A path leads to one place** in stores that are alike.  Following it asks for directories, and
these are the same in both. -/
theorem Alike.follow (h : Alike first second) (path : String) :
    first.follow path = second.follow path := by
  simp only [FileStore.follow, h.current, h.enterAll]

/-! ## Calls

A call through the interface gives a result and a store behind it.  Both are asked of it, as a
program may go on from either. -/

/-- A call that fails in two stores alike, or puts one entry at one place in both. -/
def PutsSame (call : FileStore → Except FileError FileStore) (first second : FileStore) : Prop :=
  (∃ e, call first = .error e ∧ call second = .error e) ∨
    ∃ place entry, place ≠ [] ∧ call first = .ok (first.put place entry) ∧
      call second = .ok (second.put place entry)

theorem Alike.makeDirectory (h : Alike first second) (path : String) :
    PutsSame (·.makeDirectory path) first second := by
  simp only [PutsSame, FileStore.makeDirectory, h.follow]
  rcases second.follow path with e | place | ⟨here, name, slash⟩
  · exact .inl ⟨e, rfl, rfl⟩
  · exact .inl ⟨_, rfl, rfl⟩
  simp only
  split
  · exact .inl ⟨_, rfl, rfl⟩
  rcases h.entry_cases (here ++ [name]) with heq | ⟨mode, old, old', hfirst, hsecond⟩
  · rw [heq]
    cases second.get? (here ++ [name]) with
    | none => exact .inr ⟨_, .directory, by simp, rfl, rfl⟩
    | some => exact .inl ⟨_, rfl, rfl⟩
  · rw [hfirst, hsecond]
    exact .inl ⟨_, rfl, rfl⟩

/-- A file keeps one mode in stores that are alike. -/
theorem Alike.modeFor (h : Alike first second) (place : Place) :
    first.modeFor place = second.modeFor place := by
  rcases h.entry_cases place with heq | ⟨mode, old, old', hfirst, hsecond⟩
  · rw [FileStore.modeFor, FileStore.modeFor, heq]
  · rw [FileStore.modeFor, FileStore.modeFor, hfirst, hsecond]

/-- **A path is opened for writing at one place** in stores that are alike, or in neither. -/
theorem Alike.locate (h : Alike first second) (path : String) :
    first.locate path = second.locate path := by
  have hdirectory : ∀ place,
      first.get? place = some .directory ↔ second.get? place = some .directory := by
    intro place
    rcases h.entry_cases place with heq | ⟨mode, old, old', hfirst, hsecond⟩
    · rw [heq]
    · rw [hfirst, hsecond]
      exact iff_of_false nofun nofun
  simp only [FileStore.locate, h.follow, hdirectory]

theorem Alike.isDirectory (h : Alike first second) (path : String) :
    first.isDirectory path = second.isDirectory path := by
  simp only [FileStore.isDirectory, h.follow]
  rcases second.follow path with e | place | ⟨here, name, slash⟩
  · rfl
  · rfl
  simp only
  rcases h.entry_cases (here ++ [name]) with heq | ⟨mode, old, old', hfirst, hsecond⟩
  · rw [heq]
  · rw [hfirst, hsecond]
    rfl

/-- **A call that cannot tell what is in files**: its result is the same in stores that are alike,
and so are the changes it makes.  Reading a file is the one call that is not blind. -/
def Blind {α : Type} (call : StateM FileStore α) : Prop :=
  ∀ first second, Alike first second → ∃ result after₁ after₂,
    call first = (result, after₁) ∧ call second = (result, after₂) ∧
      SameChanges first second after₁ after₂

namespace Blind

variable {α β : Type}

theorem pure (a : α) : Blind (Pure.pure a) := fun first second _ =>
  ⟨a, first, second, rfl, rfl, .refl first second⟩

/-- **Blind calls one after another are blind.**  What the second is may depend on the result of the
first, which is the same on both sides. -/
theorem bind {call : StateM FileStore α} {next : α → StateM FileStore β} (hcall : Blind call)
    (hnext : ∀ a, Blind (next a)) : Blind (call >>= next) := by
  intro first second halike
  obtain ⟨a, middle₁, middle₂, hfirst, hsecond, hchanges⟩ := hcall first second halike
  obtain ⟨result, after₁, after₂, hfirst', hsecond', hchanges'⟩ :=
    hnext a middle₁ middle₂ (hchanges.alike halike)
  refine ⟨result, after₁, after₂, ?_, ?_, hchanges.trans hchanges'⟩
  · rw [← hfirst']
    change next (call first).1 (call first).2 = _
    rw [hfirst]
  · rw [← hsecond']
    change next (call second).1 (call second).2 = _
    rw [hsecond]

theorem changing {call : FileStore → Except FileError FileStore}
    (h : ∀ first second, Alike first second → PutsSame call first second) :
    Blind (changing call) := by
  intro first second halike
  obtain ⟨e, hfirst, hsecond⟩ | ⟨place, entry, hplace, hfirst, hsecond⟩ := h first second halike
  · refine ⟨.error e, first, second, ?_, ?_, .refl first second⟩
    · rw [FileStore.changing, hfirst]
    · rw [FileStore.changing, hsecond]
  · refine ⟨.ok (), first.put place entry, second.put place entry, ?_, ?_, .put hplace entry⟩
    · rw [FileStore.changing, hfirst]
    · rw [FileStore.changing, hsecond]

theorem makeDirectory (path : String) : Blind (access.makeDirectory path) :=
  changing fun _ _ halike => halike.makeDirectory path

/-- **A write is blind**, also where it fails behind the opening.  Whether there is room is a matter
of the limits and of the length that is written. -/
theorem write (path : String) (content : Bytes) : Blind (access.write path content) := by
  intro first second halike
  have hlimits : ∀ place, first.exceeded? place content.length
      = second.exceeded? place content.length := fun place => by
    rw [exceeded?, exceeded?, halike.limits]
  simp only [access_write, halike.locate, halike.modeFor, hlimits]
  cases hlocate : second.locate path with
  | error e => exact ⟨_, _, _, rfl, rfl, .refl first second⟩
  | ok place =>
    have hplace := (locate_eq_ok_iff.1 hlocate).ne_nil
    dsimp only
    cases second.exceeded? place content.length with
    | none => exact ⟨_, _, _, rfl, rfl, .put hplace _⟩
    | some limit => exact ⟨_, _, _, rfl, rfl, .put hplace _⟩

theorem isDirectory (path : String) : Blind (access.isDirectory path) := by
  intro first second halike
  refine ⟨second.isDirectory path, first, second, ?_, rfl, .refl first second⟩
  change (first.isDirectory path, first) = _
  rw [halike.isDirectory]

theorem ensureDirectory (path : String) : Blind (access.ensureDirectory path) :=
  (makeDirectory path).bind fun made =>
    match made with
    | .ok () => pure _
    | .error _ => (isDirectory path).bind fun _ => pure _

/-- **Making directories is blind.**  Whether a directory is there already is seen by the failure to
make it, on both sides alike. -/
theorem ensureChain (chain : List String) : Blind (access.ensureChain chain) := by
  induction chain with
  | nil => exact pure _
  | cons path above ih =>
    refine (makeDirectory path).bind fun made => ?_
    split
    · exact pure _
    · refine ih.bind fun made => ?_
      split
      · exact ensureDirectory path
      · exact pure _
    · exact (isDirectory path).bind fun _ => pure _

end Blind

end FileStore

end RunRecord
