import Mathlib.Data.List.Forall2
import RunRecord.Proofs.Files.Writing
import RunRecord.Report.JsonReader
import RunRecord.Report.Saving

/-!
# Proofs/Report/Saving — a report is saved or nothing happens

Which format an identifier calls does not depend on the files, and a report is encoded before any
file is touched.  So saving is one write or none (`Suite.save_access`), and the one write leaves
everything else as it was.

Whatever can be wrong with the identifier or with the path shows before the file is opened, and then
nothing has happened.  What is left is a file without enough room.  That shows behind the opening,
so it is an outcome of its own (`Suite.Saved.broken`): the file is there and holds the beginning of
the report.

The store is any store: nothing is asked of the files that are there, of their access rights or of
their lengths.  Where the statement names a single file, that is the one which the identifier and
the base name give; all others are told by `OnlyFileWritten` to be as they were.
-/

namespace RunRecord

/-! ## Identifiers

An identifier is compared to the extensions letter by letter, without regard to the case of ASCII
letters.  What it calls is stated without a change of case, by the letters that it may have. -/

namespace Format

theorem val_toLower (c : Char) :
    c.toLower.val = if 65 ≤ c.val ∧ c.val ≤ 90 then c.val + 32 else c.val := by
  unfold Char.toLower
  split
  · next h => exact (if_pos h).symm
  · next h => exact (if_neg h).symm

theorem val_toUpper (c : Char) :
    c.toUpper.val = if 97 ≤ c.val ∧ c.val ≤ 122 then c.val - 32 else c.val := by
  unfold Char.toUpper
  split
  · next h =>
    refine Eq.trans ?_ (if_pos h).symm
    change c.val + (65 - 97) = c.val - 32
    grind
  · next h => exact (if_neg h).symm

/-- Two characters become the same small letter in two cases. -/
theorem toLower_eq_iff {c letter : Char} (h : letter.isLower = true) :
    c.toLower = letter.toLower ↔ c = letter ∨ c = letter.toUpper := by
  have hboth : (decide (97 ≤ letter.val) && decide (letter.val ≤ 122)) = true := h
  have hletter : 97 ≤ letter.val ∧ letter.val ≤ 122 := by simpa using hboth
  simp only [Char.ext_iff, val_toLower, val_toUpper, if_pos hletter]
  grind

/-- **An identifier calls a format** if it is the format's extension, each letter small or
capital. -/
def IsCalled (format : Format) (id : String) : Prop :=
  List.Forall₂ (fun c letter => c = letter ∨ c = letter.toUpper) id.toList
    format.extension.toList

/-- Texts are the same but for case if each letter is the same but for case. -/
theorem map_toLower_eq_iff {cs letters : List Char} (h : ∀ c ∈ letters, c.isLower = true) :
    cs.map Char.toLower = letters.map Char.toLower ↔
      List.Forall₂ (fun c letter => c = letter ∨ c = letter.toUpper) cs letters := by
  induction letters generalizing cs with
  | nil => simp
  | cons letter letters ih =>
    obtain ⟨hletter, hletters⟩ := List.forall_mem_cons.1 h
    cases cs with
    | nil => simp
    | cons c cs =>
      rw [List.map_cons, List.map_cons, List.cons_eq_cons, toLower_eq_iff hletter, ih hletters,
        List.forall₂_cons]

theorem sameLetters_iff_isCalled {format : Format} {id : String} :
    sameLetters id format.extension = true ↔ format.IsCalled id := by
  have hsmall : ∀ c ∈ format.extension.toList, c.isLower = true :=
    List.all_eq_true.1 (by cases format <;> decide)
  rw [sameLetters, beq_iff_eq, map_toLower_eq_iff hsmall, IsCalled]

/-- No identifier calls both formats. -/
theorem IsCalled.unique {format format' : Format} {id : String} (h : format.IsCalled id)
    (h' : format'.IsCalled id) : format = format' := by
  have hlength := h.length_eq.symm.trans h'.length_eq
  revert hlength
  cases format <;> cases format' <;> decide

/-- **The format of an identifier is the one that it calls.**  So an identifier is refused exactly
if it is neither extension in some mixture of cases. -/
theorem ofId?_eq_some_iff {format : Format} {id : String} :
    ofId? id = some format ↔ format.IsCalled id := by
  have hjson := @sameLetters_iff_isCalled json id
  have hxml := @sameLetters_iff_isCalled xml id
  constructor
  · intro h
    unfold ofId? at h
    split at h
    · next hsame =>
      cases h
      exact hjson.1 hsame
    split at h
    · next hsame =>
      cases h
      exact hxml.1 hsame
    · cases h
  · intro h
    unfold ofId?
    split
    · next hsame => rw [h.unique (hjson.1 hsame)]
    next hother =>
    split
    · next hsame => rw [h.unique (hxml.1 hsame)]
    next hother' =>
    cases format with
    | json => exact absurd (hjson.2 h) hother
    | xml => exact absurd (hxml.2 h) hother'

theorem ofId?_eq_none_iff {id : String} : ofId? id = none ↔ ∀ format, ¬ IsCalled format id := by
  simp only [← ofId?_eq_some_iff, Option.eq_none_iff_forall_ne_some, ne_eq]

end Format

/-! ## One write or none

There are two ways to save, in a format to a path and under an identifier to a base name.  The
second is the first at the path that the base name and the format give. -/

namespace Suite

variable {suite : Suite} {format : Format} {path id base : String} {before after : FileStore}

/-- **Saving is one write**, and one event if it succeeds.  What is written is the whole document,
so a report is never written in parts. -/
theorem save_access (suite : Suite) (format : Format) (path : String) (before : FileStore) :
    suite.save FileStore.access format path before =
      let written := FileStore.access.write path (suite.encode format) before
      (written.1.map fun _ => [.written suite.name path (suite.encode format).length],
        written.2) := by
  simp only [save, bind, StateT.bind]
  rcases FileStore.access.write path (suite.encode format) before with ⟨result, after⟩
  cases result <;> rfl

/-- An identifier that calls no format is refused before any file is looked at. -/
theorem saveAs_of_ofId?_eq_none (h : Format.ofId? id = none) :
    suite.saveAs FileStore.access id base before = (.error (.unsupportedFormat id), before) := by
  rw [saveAs, h]
  rfl

/-- Saving under an identifier is saving in the format that it calls. -/
theorem saveAs_of_ofId?_eq_some (h : Format.ofId? id = some format) :
    suite.saveAs FileStore.access id base before =
      let path := Path.report base format
      let saved := suite.save FileStore.access format path before
      ((saved.1.mapError SaveError.file).map fun events => (path, events), saved.2) := by
  rw [saveAs, h]
  simp only [bind, StateT.bind]
  rcases suite.save FileStore.access format (Path.report base format) before with ⟨saved, after⟩
  cases saved <;> rfl

/-- **How saving ends.**  The file is written, with one event that tells its length.  Or everything
is as it was and there is no event, since the identifier calls no format or there can be no such
file.  Or the file has no room for the report: then it alone is made or emptied, it holds the part
of the report that had room, and there is no event. -/
inductive Saved (suite : Suite) (id base : String) (before : FileStore) :
    Except SaveError (String × List Event) → FileStore → Prop
  | written {format : Format} {place : Place} {after : FileStore} : format.IsCalled id →
    before.Writable (base ++ "." ++ format.extension) place →
    before.HasRoom place (suite.encode format).length →
    before.OnlyFileWritten after (base ++ "." ++ format.extension) place (suite.encode format) →
    Saved suite id base before
      (.ok (base ++ "." ++ format.extension, [.written suite.name
        (base ++ "." ++ format.extension) (suite.encode format).length])) after
  | unknown : (∀ format, ¬ Format.IsCalled format id) →
    Saved suite id base before (.error (.unsupportedFormat id)) before
  | refused {format : Format} {e : FileError} : format.IsCalled id →
    before.locate (base ++ "." ++ format.extension) = .error e →
    (∀ place, ¬ before.Writable (base ++ "." ++ format.extension) place) →
    Saved suite id base before (.error (.file e)) before
  | broken {format : Format} {place : Place} {limit : Limit} {after : FileStore} :
    format.IsCalled id → before.Writable (base ++ "." ++ format.extension) place →
    before.limits.lookup place = some limit → limit.room < (suite.encode format).length →
    before.OnlyFileWritten after (base ++ "." ++ format.extension) place
      ((suite.encode format).take limit.room) →
    Saved suite id base before (.error (.file limit.error)) after

/-- **Saving ends in one of these ways**, whatever the store and the identifier. -/
theorem saved_saveAs (suite : Suite) (id base : String) (before : FileStore) :
    suite.Saved id base before (suite.saveAs FileStore.access id base before).1
      (suite.saveAs FileStore.access id base before).2 := by
  rcases hformat : Format.ofId? id with _ | format
  · rw [saveAs_of_ofId?_eq_none hformat]
    exact .unknown (Format.ofId?_eq_none_iff.1 hformat)
  have hcalled := Format.ofId?_eq_some_iff.1 hformat
  rw [saveAs_of_ofId?_eq_some hformat]
  dsimp only
  rw [save_access, FileStore.access_write]
  rcases hlocate : before.locate (Path.report base format) with e | place
  · exact .refused hcalled hlocate (FileStore.not_writable_of_locate_eq_error hlocate)
  have hwritable := FileStore.locate_eq_ok_iff.1 hlocate
  dsimp only
  rcases hroom : before.exceeded? place (suite.encode format).length with _ | limit
  · exact .written hcalled hwritable (FileStore.exceeded?_eq_none_iff.1 hroom)
      (hwritable.onlyFileWritten _)
  · obtain ⟨hlimit, hless⟩ := FileStore.exceeded?_eq_some_iff.1 hroom
    exact .broken hcalled hwritable hlimit hless (hwritable.onlyFileWritten _)

/-- **Where there is room, a failure leaves everything as it was.**  The identifier or the path was
at fault, and either is found out before anything is opened. -/
theorem Saved.untouched {result : Except SaveError (String × List Event)}
    (h : suite.Saved id base before result after)
    (hroom : ∀ format place, format.IsCalled id →
      before.Writable (Path.report base format) place →
      before.HasRoom place (suite.encode format).length)
    {e : SaveError} (he : result = .error e) : after = before := by
  cases h with
  | written => cases he
  | unknown => rfl
  | refused => rfl
  | broken hcalled hwritable hlimit hless =>
    exact absurd (hroom _ _ hcalled hwritable _ hlimit) (Nat.not_le.2 hless)

end Suite

/-! ## Where no report can be saved

What is in the way can be told from the store alone: a directory where the file should be, or no
directory where it should be in.  Either leaves everything as it is. -/

/-- A base name below a directory gives a path below it. -/
theorem isDirectory_above_report {store : FileStore} {dir stem : String} {format : Format}
    {place : Place} (h : store.Writable (Path.report (dir ++ "/" ++ stem) format) place)
    (hdir : dir ≠ "") : store.isDirectory dir = true := by
  have hpath : Path.report (dir ++ "/" ++ stem) format
      = dir ++ "/" ++ (stem ++ "." ++ format.extension) := by
    simp only [Path.report, String.append_assoc]
  have hpoint : '.' ∈ (stem ++ "." ++ format.extension).toList := by simp [String.toList_append]
  rw [hpath] at h
  exact h.isDirectory_above hdir (FileStore.parts_ne_nil hpoint (by decide))

/-- **A report is saved as a whole or nothing happens**, unless there is no room for it.  To save in
the format that an identifier calls, to the path that this gives, has the same effect.  And there
can be no file where a directory is, nor below what is no directory. -/
theorem saved_or_untouched (suite : Suite) (id base : String) (before : FileStore) :
    suite.Saved id base before (suite.saveAs FileStore.access id base before).1
      (suite.saveAs FileStore.access id base before).2 ∧
    ((∀ format place, format.IsCalled id → before.Writable (Path.report base format) place →
        before.HasRoom place (suite.encode format).length) →
      ∀ e, (suite.saveAs FileStore.access id base before).1 = .error e →
        (suite.saveAs FileStore.access id base before).2 = before) ∧
    (∀ format, format.IsCalled id →
      let path := Path.report base format
      let saved := suite.save FileStore.access format path before
      suite.saveAs FileStore.access id base before =
        ((saved.1.mapError SaveError.file).map fun events => (path, events), saved.2)) ∧
    ∀ format place, before.Writable (Path.report base format) place →
      before.isDirectory (Path.report base format) = false ∧
      ∀ dir stem, base = dir ++ "/" ++ stem → dir ≠ "" → before.isDirectory dir = true := by
  have hsaved := suite.saved_saveAs id base before
  refine ⟨hsaved, fun hroom e => hsaved.untouched hroom, fun format hcalled =>
    Suite.saveAs_of_ofId?_eq_some (Format.ofId?_eq_some_iff.2 hcalled),
    fun format place hwritable => ⟨hwritable.not_isDirectory, ?_⟩⟩
  rintro dir stem rfl hdir
  exact isDirectory_above_report hwritable hdir

/-- A store with one file, far longer than a small report, which others may read. -/
def sharedStore : FileStore :=
  { entries := [(["srv"], .directory),
      (["srv", "run.v2.json"], .file 0o644 (List.replicate 100000 0))]
    current := [] }

/-- What a disk with seven bytes to spare lets a file hold. -/
def sevenBytes : Limit :=
  { room := 7, error := .other "No space left on device (os error 28)" }

/-- The same store on a disk that is almost full. -/
def crowdedStore : FileStore :=
  { sharedStore with limits := [(["srv", "run.v2.json"], sevenBytes)] }

/-- Of a long file nothing is left; without room only the beginning of the report is; and a format
that is unknown is refused even where no file can be. -/
theorem sharedStore_saved :
    let suite : Suite := Suite.shape.blank
    let path := "/srv/run.v2.json"
    let events := [Event.written suite.name path (suite.encode .json).length]
    (∃ after place,
      suite.saveAs FileStore.access "jSoN" "/srv/run.v2" sharedStore = (.ok (path, events), after) ∧
      suite.save FileStore.access .json path sharedStore = (.ok events, after) ∧
      sharedStore.OnlyFileWritten after path place (suite.encode .json)) ∧
    (∃ after place,
      suite.saveAs FileStore.access "JSON" "/srv/run.v2" crowdedStore =
        (.error (.file sevenBytes.error), after) ∧
      crowdedStore.OnlyFileWritten after path place ((suite.encode .json).take 7)) ∧
    sharedStore.isDirectory "/srv" = true ∧
    suite.saveAs FileStore.access "yaml" "/nowhere/run" sharedStore =
      (.error (.unsupportedFormat "yaml"), sharedStore) := by
  intro suite path events
  have hmixed : Format.json.IsCalled "jSoN" := Format.ofId?_eq_some_iff.1 (by decide)
  have hcapital : Format.json.IsCalled "JSON" := Format.ofId?_eq_some_iff.1 (by decide)
  have hunknown := Format.ofId?_eq_none_iff.1 (show Format.ofId? "yaml" = none by decide)
  have hwritable : sharedStore.Writable path ["srv", "run.v2.json"] :=
    ⟨⟨["srv"], "run.v2.json", by decide +kernel, by decide, rfl⟩, nofun⟩
  have hcrowded : crowdedStore.Writable path ["srv", "run.v2.json"] :=
    ⟨⟨["srv"], "run.v2.json", by decide +kernel, by decide, rfl⟩, nofun⟩
  obtain ⟨hsaved, -, hsame, hdirs⟩ := saved_or_untouched suite "jSoN" "/srv/run.v2" sharedStore
  obtain ⟨hbroken, -⟩ := saved_or_untouched suite "JSON" "/srv/run.v2" crowdedStore
  obtain ⟨hrefused, -⟩ := saved_or_untouched suite "yaml" "/nowhere/run" sharedStore
  refine ⟨?_, ?_, (hdirs .json _ hwritable).2 "/srv" "run.v2" rfl (by decide), ?_⟩
  · have hsame := hsame .json hmixed
    rcases hsave : suite.save FileStore.access .json path sharedStore with ⟨saved, after⟩
    dsimp only at hsame
    rw [show Path.report "/srv/run.v2" .json = path from rfl, hsave] at hsame
    rw [hsame] at hsaved ⊢
    generalize hresult : ((saved.mapError SaveError.file).map fun events => (path, events)) = result
      at hsaved ⊢
    cases hsaved with
    | written hcalled _ _ honly =>
      obtain rfl := hcalled.unique hmixed
      cases saved with
      | error e => cases hresult
      | ok events' =>
        obtain rfl := (Prod.mk.inj (Except.ok.inj hresult)).2
        exact ⟨after, _, rfl, rfl, honly⟩
    | unknown hnone => exact absurd hmixed (hnone .json)
    | refused hcalled _ hnowhere =>
      obtain rfl := hcalled.unique hmixed
      exact absurd hwritable (hnowhere _)
    | broken _ _ hlimit => cases hlimit
  · rcases hresult : suite.saveAs FileStore.access "JSON" "/srv/run.v2" crowdedStore with
      ⟨result, after⟩
    rw [hresult] at hbroken
    cases hbroken with
    | written hcalled hplace hroom =>
      obtain rfl := hcalled.unique hcapital
      obtain rfl := hplace.unique hcrowded
      exact absurd (hroom _ rfl) (by decide +kernel)
    | unknown hnone => exact absurd hcapital (hnone .json)
    | refused hcalled _ hnowhere =>
      obtain rfl := hcalled.unique hcapital
      exact absurd hcrowded (hnowhere _)
    | broken hcalled hplace hlimit _ honly =>
      obtain rfl := hcalled.unique hcapital
      obtain rfl := hplace.unique hcrowded
      obtain rfl := Option.some.inj hlimit
      exact ⟨after, _, rfl, honly⟩
  · rcases hresult : suite.saveAs FileStore.access "yaml" "/nowhere/run" sharedStore with
      ⟨result, after⟩
    rw [hresult] at hrefused
    cases hrefused with
    | written hcalled => exact absurd hcalled (hunknown _)
    | unknown => rfl
    | refused hcalled => exact absurd hcalled (hunknown _)
    | broken hcalled => exact absurd hcalled (hunknown _)

end RunRecord
