import RunRecord.Proofs.Files.Growth

/-!
# Proofs/Files/Writing — writing a file changes that file and nothing else

A path is **writable** if it leads to a name in a directory, and no directory has that name.
Opening a path for writing succeeds exactly if it is writable (`locate_eq_ok_iff`), and it is the
only thing that can go wrong before anything is touched.

Behind the opening a write ends in one of two ways (`access_write`): the file holds the whole
content, or it holds as much of it as had room and the write has failed.  Either way one file is
put where the path leads, so that one lemma says what has become of the store
(`Writable.onlyFileWritten`): it is as it was but for that file.
-/

namespace RunRecord.FileStore

variable {before after : FileStore} {path : String} {place : Place} {content : Bytes}

/-! ## Where a file can be written

What opening a path finds wrong is all there is to find wrong with it, so the condition can be
stated without the order in which it is looked for. -/

/-- **A path at which a file can be written**, and the place to which it leads. -/
structure Writable (store : FileStore) (path : String) (place : Place) : Prop where
  named : ∃ here name, store.follow path = .ok (.named here name false) ∧
    isLongName name = false ∧ here ++ [name] = place
  free : store.get? place ≠ some .directory

theorem Writable.ne_nil (h : before.Writable path place) : place ≠ [] := by
  obtain ⟨⟨here, name, -, -, rfl⟩, -⟩ := h
  simp

theorem Writable.leads (h : before.Writable path place) : before.Leads path place := by
  obtain ⟨⟨here, name, hfollow, -, rfl⟩, -⟩ := h
  exact ⟨_, hfollow, rfl⟩

/-- **A file can be opened for writing exactly at writable paths.**  Nothing else is looked at:
neither the mode nor the content of a file that is there. -/
theorem locate_eq_ok_iff : before.locate path = .ok place ↔ before.Writable path place := by
  constructor
  · intro h
    unfold locate at h
    split at h
    · cases h
    · cases h
    next here name slash hfollow =>
    split at h
    · cases h
    next hslash =>
    split at h
    · cases h
    next hlong =>
    split at h
    · cases h
    next hfree =>
    cases h
    obtain rfl : slash = false := by simpa using hslash
    exact ⟨⟨here, name, hfollow, by simpa using hlong, rfl⟩, hfree⟩
  · rintro ⟨⟨here, name, hfollow, hlong, rfl⟩, hfree⟩
    rw [locate, hfollow]
    simp only [hlong, Bool.false_eq_true, if_false, if_neg hfree]

/-- A path leads to one place only. -/
theorem Writable.unique {other : Place} (h : before.Writable path place)
    (h' : before.Writable path other) : place = other :=
  Except.ok.inj ((locate_eq_ok_iff.2 h).symm.trans (locate_eq_ok_iff.2 h'))

/-- What cannot be opened is not writable, to whatever place it leads. -/
theorem not_writable_of_locate_eq_error {e : FileError} (h : before.locate path = .error e)
    (place : Place) : ¬ before.Writable path place := by
  intro hwritable
  rw [locate_eq_ok_iff.2 hwritable] at h
  cases h

/-- An old file keeps its mode when it is written, and a new one is private. -/
theorem modeFor_cases (h : before.get? place ≠ some .directory) :
    before.get? place = none ∧ before.modeFor place = privateMode ∨
      ∃ mode old, before.get? place = some (.file mode old) ∧ before.modeFor place = mode := by
  rcases hget : before.get? place with _ | _ | ⟨mode, old⟩
  · exact .inl ⟨rfl, by rw [modeFor, hget]⟩
  · exact absurd hget h
  · exact .inr ⟨mode, old, rfl, by rw [modeFor, hget]⟩

/-! ## Room

Whether a file of some length fits at a place is a matter of the limit there, if there is one. -/

/-- **A place has room** for a file of some length.  A place without a limit has room for any
length. -/
def HasRoom (store : FileStore) (place : Place) (length : Nat) : Prop :=
  ∀ limit, store.limits.lookup place = some limit → length ≤ limit.room

theorem exceeded?_eq_none_iff {length : Nat} :
    before.exceeded? place length = none ↔ before.HasRoom place length := by
  simp only [exceeded?, HasRoom, Option.filter_eq_none_iff, decide_eq_true_eq, Nat.not_lt]

/-- A limit that is exceeded is the limit of the place, and it is too small. -/
theorem exceeded?_eq_some_iff {length : Nat} {limit : Limit} :
    before.exceeded? place length = some limit ↔
      before.limits.lookup place = some limit ∧ limit.room < length := by
  rw [exceeded?, Option.filter_eq_some_iff, decide_eq_true_eq]

/-! ## One write

Opening and writing are put together here once, and from here on a write is one step with three
ways to end. -/

/-- Writing to a file that has just been opened. -/
theorem append_put_nil (store : FileStore) (hplace : place ≠ []) (mode : Nat) (content : Bytes) :
    (store.put place (.file mode [])).append place content =
      match store.exceeded? place content.length with
      | none => (.ok (), store.put place (.file mode content))
      | some limit =>
        (.error limit.error, store.put place (.file mode (content.take limit.room))) := by
  have hsame : (store.put place (.file mode [])).exceeded? place content.length
      = store.exceeded? place content.length := rfl
  rw [append, get?_put_self hplace]
  simp only [List.nil_append, List.length_nil, Nat.sub_zero, hsame]
  cases store.exceeded? place content.length with
  | none => simp only [put_put_self]
  | some limit => simp only [put_put_self]

/-- **How a write ends**: the path cannot be opened and nothing is touched, or one file is put where
it leads, with the whole content or with what had room of it. -/
theorem access_write (store : FileStore) (path : String) (content : Bytes) :
    access.write path content store =
      match store.locate path with
      | .error e => (.error e, store)
      | .ok place =>
        let written (kept : Bytes) := store.put place (.file (store.modeFor place) kept)
        match store.exceeded? place content.length with
        | none => (.ok (), written content)
        | some limit => (.error limit.error, written (content.take limit.room)) := by
  simp only [FileAccess.write, access, create, bind, StateT.bind]
  cases hlocate : store.locate path with
  | error e => rfl
  | ok place => exact append_put_nil store (locate_eq_ok_iff.1 hlocate).ne_nil _ content

/-- Putting a file where there is no directory keeps the directories. -/
theorem keepsDirectories_put_file (mode : Nat) (content : Bytes)
    (h : before.get? place ≠ some .directory) :
    KeepsDirectories before (before.put place (.file mode content)) where
  current := rfl
  directory other hother := by
    rw [get?_put_of_ne, hother]
    rintro rfl
    exact h hother

/-! ## Directories on the way

A path is followed part by part, and joining two texts with a separator joins their parts.  Empty
parts and separators at the end do not count. -/

/-- The parts of two texts with a separator between them. -/
theorem parts_append (dir rest : String) :
    parts (dir ++ "/" ++ rest) = parts dir ++ parts rest := by
  have hslash : "/".toList = ['/'] := by decide
  simp only [parts, String.toList_append, hslash, List.append_assoc, List.singleton_append,
    List.splitOn_append_cons_self, List.filter_append, List.map_append]

/-- What is between separators is in one of the parts. -/
theorem exists_mem_splitOn {c sep : Char} (hne : c ≠ sep) {cs : List Char} (hc : c ∈ cs) :
    ∃ part ∈ cs.splitOn sep, c ∈ part := by
  induction cs with
  | nil => cases hc
  | cons d cs ih =>
    rw [List.splitOn_cons_eq_if_modifyHead]
    split
    · next hsep =>
      have hd : c ≠ d := fun heq => hne (heq.trans (eq_of_beq hsep))
      obtain ⟨part, hpart, hmem⟩ := ih ((List.mem_cons.1 hc).resolve_left hd)
      exact ⟨part, .tail _ hpart, hmem⟩
    · obtain ⟨first, others, hcons⟩ := List.exists_cons_of_ne_nil (List.splitOn_ne_nil sep cs)
      rw [hcons] at ih ⊢
      rw [List.modifyHead_cons]
      rcases List.mem_cons.1 hc with rfl | hc
      · exact ⟨_, .head _, .head _⟩
      obtain ⟨part, hpart, hmem⟩ := ih hc
      rcases List.mem_cons.1 hpart with rfl | hpart
      · exact ⟨_, .head _, .tail _ hmem⟩
      · exact ⟨part, .tail _ hpart, hmem⟩

/-- A text with more in it than separators has parts. -/
theorem parts_ne_nil {path : String} {c : Char} (hc : c ∈ path.toList) (hne : c ≠ '/') :
    parts path ≠ [] := by
  obtain ⟨part, hpart, hmem⟩ := exists_mem_splitOn hne hc
  have hkept : part ∈ (path.toList.splitOn '/').filter (· ≠ []) :=
    List.mem_filter.2 ⟨hpart, by simpa using List.ne_nil_of_mem hmem⟩
  exact List.ne_nil_of_mem (List.mem_map_of_mem hkept)

theorem enterAll_append {store : FileStore} {here there : Place} {names names' : List String} :
    store.enterAll here (names ++ names') = .ok there ↔
      ∃ middle, store.enterAll here names = .ok middle ∧
        store.enterAll middle names' = .ok there := by
  induction names generalizing here with
  | nil => simp [enterAll]
  | cons name names ih =>
    rw [List.cons_append, enterAll, enterAll]
    cases store.enter here name with
    | ok next => exact ih
    | error e => simp

/-- What can be entered under a name of its own is a directory there. -/
theorem get?_of_enter {store : FileStore} {here there : Place} {name : String}
    (h : store.enter here name = .ok there) (hdot : name ≠ ".") (hup : name ≠ "..") :
    isLongName name = false ∧ store.get? (here ++ [name]) = some .directory := by
  rw [enter, if_neg hdot, if_neg hup] at h
  split at h
  · cases h
  next hlong =>
  refine ⟨by simpa using hlong, ?_⟩
  split at h
  · assumption
  · cases h
  · cases h

/-- A path that can be entered to its end leads to a directory.  To enter it, all its parts are
entered; to ask what it leads to, all but the last, which is looked up. -/
theorem isDirectory_of_enterAll {store : FileStore} {dir : String} {there : Place}
    (hnul : dir.toList.contains '\x00' = false) (hne : dir ≠ "")
    (hshort : dir.utf8ByteSize ≤ longestPath)
    (h : store.enterAll (if Path.isAbsolute dir then [] else store.current) (parts dir)
      = .ok there) : store.isDirectory dir = true := by
  rw [isDirectory, follow, hnul, if_neg Bool.false_ne_true, if_neg hne,
    if_neg (Nat.not_lt.2 hshort)]
  rcases List.eq_nil_or_concat (parts dir) with hnil | ⟨names, last, hparts⟩
  · rw [hnil]
    rfl
  rw [List.concat_eq_append] at hparts
  rw [hparts, enterAll_append] at h
  obtain ⟨here, hhere, hlast⟩ := h
  have henter : store.enter here last = .ok there := by
    rw [enterAll] at hlast
    split at hlast
    · next hnext => rwa [← hlast]
    · cases hlast
  simp only [hparts, List.getLast?_concat, List.dropLast_concat, hhere]
  by_cases hdot : last = "."
  · rw [if_pos hdot]
  by_cases hup : last = ".."
  · rw [if_neg hdot, if_pos hup]
  obtain ⟨hlong, hget⟩ := get?_of_enter henter hdot hup
  rw [if_neg hdot, if_neg hup]
  simp [hlong, hget]

/-- **What stands above a writable path is a directory.**  So a base name below something else gives
no writable path, whatever its last part. -/
theorem Writable.isDirectory_above {dir rest : String}
    (h : before.Writable (dir ++ "/" ++ rest) place) (hdir : dir ≠ "") (hrest : parts rest ≠ []) :
    before.isDirectory dir = true := by
  obtain ⟨⟨here, name, hfollow, -, -⟩, -⟩ := h
  have habsolute : Path.isAbsolute (dir ++ "/" ++ rest) = Path.isAbsolute dir := by
    have hne : dir.toList ≠ [] := by simpa using hdir
    obtain ⟨c, cs, hcs⟩ := List.exists_cons_of_ne_nil hne
    simp [Path.isAbsolute, String.toList_append, hcs]
  unfold follow at hfollow
  split at hfollow
  · cases hfollow
  next hnul =>
  split at hfollow
  · cases hfollow
  split at hfollow
  · cases hfollow
  next hlong =>
  have hsize : dir.utf8ByteSize ≤ longestPath := by
    simp only [String.utf8ByteSize_append] at hlong
    omega
  have hclean : dir.toList.contains '\x00' = false := by
    simp only [String.toList_append, List.contains_append, Bool.or_eq_true, not_or] at hnul
    simpa using hnul.1.1
  simp only [habsolute, parts_append] at hfollow
  split at hfollow
  · cases hfollow
  split at hfollow
  · cases hfollow
  next there hthere =>
  rw [List.dropLast_append_of_ne_nil hrest, enterAll_append] at hthere
  obtain ⟨middle, hmiddle, -⟩ := hthere
  exact isDirectory_of_enterAll hclean hdir hsize hmiddle

/-- No directory is written over. -/
theorem Writable.not_isDirectory (h : before.Writable path place) :
    before.isDirectory path = false := by
  obtain ⟨⟨here, name, hfollow, hlong, rfl⟩, hfree⟩ := h
  rw [isDirectory, hfollow]
  simpa [hlong] using hfree

/-! ## What is written -/

/-- **Nothing but one file is written**: the path leads to it and reads the content back, it has its
old mode if it was there and is private if it is new, and everything else is as it was. -/
structure OnlyFileWritten (before after : FileStore) (path : String) (place : Place)
    (content : Bytes) : Prop where
  leads : after.Leads path place
  read : after.read path = .ok content
  file : before.get? place = none ∧ after.get? place = some (.file 0o600 content) ∨
    ∃ mode old, before.get? place = some (.file mode old) ∧
      after.get? place = some (.file mode content)
  elsewhere : ∀ other ≠ place, after.get? other = before.get? other
  current : after.current = before.current

/-- **A file put at a writable path is all that is written**, whatever it holds. -/
theorem Writable.onlyFileWritten (h : before.Writable path place) (content : Bytes) :
    before.OnlyFileWritten (before.put place (.file (before.modeFor place) content)) path place
      content := by
  have hput : (before.put place (.file (before.modeFor place) content)).get? place
      = some (.file (before.modeFor place) content) := get?_put_self h.ne_nil
  have hkeeps := keepsDirectories_put_file (before.modeFor place) content h.free
  refine ⟨hkeeps.leads h.leads, ?_, ?_, fun other hother => get?_put_of_ne hother, rfl⟩
  · obtain ⟨⟨here, name, hfollow, hlong, rfl⟩, -⟩ := h
    rw [FileStore.read, hkeeps.follow hfollow]
    simp only [hlong, hput, Bool.false_eq_true, if_false]
  · rw [hput]
    obtain ⟨hnone, hmode⟩ | ⟨mode, old, hfile, hmode⟩ := modeFor_cases h.free
    · exact .inl ⟨hnone, by rw [hmode]; rfl⟩
    · exact .inr ⟨mode, old, hfile, by rw [hmode]⟩

end RunRecord.FileStore
