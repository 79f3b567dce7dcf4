import RunRecord.Command.Render
import RunRecord.Proofs.Report.RoundTrip
import RunRecord.Proofs.Report.Saving

/-!
# Proofs/Command/Render — what the render command leaves behind

Nothing is touched before settings, format and report are known (`run_cases`); from then on the
store **grows** by directories above the output path, and the last call alone writes a file
(`write_cases`).  Together they say what has become of every place, for each of the four ways in
which a run can end (`render_leaves`).

The fourth of them is a failure that is not without a trace.  A file that is open has been made or
emptied, and where writing to it fails, it stays so.  A report that is rendered over itself on a
full disk is lost (`not_all_failures_spare_files`).

The file that a run reads may be the one that it writes, and the path it writes to may lead through
directories it has made.  So what holds the report is settled from the store before the run, and
never looked at again.
-/

namespace RunRecord

/-- **Failures of the settings, the format or the report**, as opposed to those of making a
directory or of writing the file. -/
def CommandError.IsEarly : CommandError → Prop
  | .readSettings .. | .settingsNotText .. | .parseSettings .. => True
  | .unsupportedFormat .. => True
  | .readReport .. | .decodeReport .. => True
  | .makeDirectory .. | .writeReport .. => False

/-! ## Reading

Each of the first steps reads one file or none.  What it comes to is either a failure of the early
kind or a value, and the store behind it is the store before it. -/

/-- Loading a report reads one file and leaves the store as it is. -/
theorem loadReport_access (path : String) (store : FileStore) :
    (∃ e : CommandError, e.IsEarly ∧
      loadReport FileStore.access path store = (.error e, store)) ∨
    ∃ content suite, store.read path = .ok content ∧ Suite.read content = .ok suite ∧
      loadReport FileStore.access path store = (.ok suite, store) := by
  unfold loadReport
  simp only [bind, StateT.bind, FileStore.access]
  rcases store.read path with e | content
  · exact .inl ⟨.readReport path e, trivial, rfl⟩
  · simp only
    rcases hsuite : Suite.read content with e | suite
    · exact .inl ⟨.decodeReport path e, trivial, rfl⟩
    · exact .inr ⟨content, suite, rfl, hsuite, rfl⟩

namespace RenderOptions

/-- Loading settings leaves the store as it is. -/
theorem loadSettings_access (path : String) (store : FileStore) :
    (∃ e : CommandError, e.IsEarly ∧
      loadSettings FileStore.access path store = (.error e, store)) ∨
    ∃ settings, loadSettings FileStore.access path store = (.ok settings, store) := by
  unfold loadSettings
  simp only [bind, StateT.bind, FileStore.access]
  rcases store.read path with e | content
  · exact .inl ⟨.readSettings path e, trivial, rfl⟩
  · simp only
    rcases Utf8.decode? content with _ | document
    · exact .inl ⟨.settingsNotText path, trivial, rfl⟩
    · simp only
      rcases Settings.read document with e | settings
      · exact .inl ⟨.parseSettings path e, trivial, rfl⟩
      · exact .inr ⟨settings, rfl⟩

/-- Settling the settings leaves the store as it is. -/
theorem resolve_access (options : RenderOptions) (store : FileStore) :
    (∃ e : CommandError, e.IsEarly ∧
      options.resolve FileStore.access store = (.error e, store)) ∨
    ∃ settings, options.resolve FileStore.access store = (.ok settings, store) := by
  unfold resolve
  rcases options.config with _ | path
  · exact .inr ⟨_, rfl⟩
  · simp only [bind, StateT.bind]
    obtain ⟨e, he, hload⟩ | ⟨settings, hload⟩ := loadSettings_access path store
    · rw [hload]
      exact .inl ⟨e, he, rfl⟩
    · rw [hload]
      exact .inr ⟨_, rfl⟩

/-! ## Writing

Directories first, then the file.  What the file is to hold is settled before either. -/

/-- Preparing a path makes directories above it. -/
theorem prepare_cases (path : String) (store : FileStore) :
    ∃ dirs made, (∀ dir ∈ dirs, Path.IsAbove dir path) ∧ FileStore.Grows dirs store made ∧
      (prepare FileStore.access path store = (.ok (), made) ∨
        ∃ dir e, prepare FileStore.access path store = (.error (.makeDirectory dir e), made)) := by
  unfold prepare
  rcases hdir : outputDirectory? path with _ | dir
  · exact ⟨[], store, by simp, .refl _ _, .inl rfl⟩
  · have hparent : Path.parent? path = some dir := (Option.filter_eq_some_iff.1 hdir).1
    have hgrows := FileStore.grows_access_ensureDirectories dir store
    rcases hmade : FileStore.access.ensureDirectories dir store with ⟨result, made⟩
    rw [hmade] at hgrows
    refine ⟨_, made, fun _ => Path.isAbove_of_mem_ancestors hparent, hgrows, ?_⟩
    simp only [bind, StateT.bind, hmade]
    cases result with
    | ok => exact .inl rfl
    | error e => exact .inr ⟨dir, e, rfl⟩

/-- Behind the directories the result is that of the one write. -/
theorem write_of_prepare (suite : Suite) (format : Format) {path : String} (colours : Bool)
    {before made : FileStore} (hprepare : prepare FileStore.access path before = (.ok (), made)) :
    let written := FileStore.access.write path (suite.encode format) made
    (write suite FileStore.access format path colours before).1.result =
        (written.1.mapError (CommandError.writeReport path)).map (fun _ => path) ∧
      (write suite FileStore.access format path colours before).2 = written.2 := by
  unfold write
  simp only [bind, StateT.bind, hprepare, Suite.save_access]
  rcases FileStore.access.write path (suite.encode format) made with ⟨result, after⟩
  cases result <;> exact ⟨rfl, rfl⟩

/-- **The one write.**  Directories above the path are made.  Then nothing more happens, or the file
is opened, and holds the whole report or what has room of it. -/
theorem write_cases (suite : Suite) (format : Format) (path : String) (colours : Bool)
    (store : FileStore) {outcome : Outcome String} {after : FileStore}
    (h : write suite FileStore.access format path colours store = (outcome, after)) :
    ∃ dirs made, (∀ dir ∈ dirs, Path.IsAbove dir path) ∧ FileStore.Grows dirs store made ∧
      ((∃ e : CommandError, ¬ e.IsEarly ∧ outcome.result = .error e ∧ after = made) ∨
        ∃ place kept, made.Writable path place ∧
          after = made.put place (.file (made.modeFor place) kept) ∧
          (outcome.result = .ok path ∧ kept = suite.encode format ∨
            ∃ limit, made.exceeded? place (suite.encode format).length = some limit ∧
              outcome.result = .error (.writeReport path limit.error) ∧
              kept = (suite.encode format).take limit.room)) := by
  obtain ⟨dirs, made, hdirs, hgrows, hprepare⟩ := prepare_cases path store
  refine ⟨dirs, made, hdirs, hgrows, ?_⟩
  obtain hprepare | ⟨dir, e, hprepare⟩ := hprepare
  · obtain ⟨hresult, hafter⟩ := write_of_prepare suite format colours hprepare
    rw [h, FileStore.access_write] at hresult hafter
    rcases hlocate : made.locate path with e | place
    · rw [hlocate] at hresult hafter
      exact .inl ⟨_, id, hresult, hafter⟩
    rw [hlocate] at hresult hafter
    refine .inr ⟨place, ?_⟩
    dsimp only at hresult hafter
    rcases hroom : made.exceeded? place (suite.encode format).length with _ | limit
    · rw [hroom] at hresult hafter
      exact ⟨_, FileStore.locate_eq_ok_iff.1 hlocate, hafter, .inl ⟨hresult, rfl⟩⟩
    · rw [hroom] at hresult hafter
      exact ⟨_, FileStore.locate_eq_ok_iff.1 hlocate, hafter, .inr ⟨limit, rfl, hresult, rfl⟩⟩
  · unfold write at h
    simp only [bind, StateT.bind] at h
    rw [hprepare] at h
    cases h
    exact .inl ⟨_, id, rfl, rfl⟩

/-- Either the store is not touched at all, or settings, format and report are known and the report
is written. -/
theorem run_cases (options : RenderOptions) (colours : Bool) (before : FileStore)
    {outcome : Outcome String} {after : FileStore}
    (h : options.run FileStore.access colours before = (outcome, after)) :
    (∃ e : CommandError, e.IsEarly ∧ outcome.result = .error e ∧ after = before) ∨
    ∃ settings format content suite,
      (options.resolve FileStore.access before).1 = .ok settings ∧
      settings.reportFormat? = some format ∧ before.read options.input = .ok content ∧
      Suite.read content = .ok suite ∧
      write suite FileStore.access format (Path.report settings.basePath format) colours before =
        (outcome, after) := by
  unfold run at h
  simp only [bind, StateT.bind] at h
  obtain ⟨e, he, hresolve⟩ | ⟨settings, hresolve⟩ := resolve_access options before
  · rw [hresolve] at h
    cases h
    exact .inl ⟨e, he, rfl, rfl⟩
  rw [hresolve] at h
  simp only at h
  rcases hformat : settings.reportFormat? with _ | format
  · rw [hformat] at h
    cases h
    exact .inl ⟨.unsupportedFormat settings.format, trivial, rfl, rfl⟩
  rw [hformat] at h
  simp only [StateT.bind] at h
  obtain ⟨e, he, hload⟩ | ⟨content, suite, hread, hsuite, hload⟩ :=
    loadReport_access options.input before
  · rw [hload] at h
    cases h
    exact .inl ⟨e, he, rfl, rfl⟩
  · rw [hload] at h
    exact .inr ⟨settings, format, content, suite, by rw [hresolve], hformat, hread, hsuite, h⟩

/-- A report that is known is written. -/
theorem run_eq_write {options : RenderOptions} {before : FileStore} {settings : Settings}
    {format : Format} {suite : Suite} (colours : Bool)
    (hresolve : options.resolve FileStore.access before = (.ok settings, before))
    (hformat : settings.reportFormat? = some format)
    (hload : loadReport FileStore.access options.input before = (.ok suite, before)) :
    options.run FileStore.access colours before =
      write suite FileStore.access format (Path.report settings.basePath format) colours
        before := by
  unfold run
  simp only [bind, StateT.bind]
  rw [hresolve]
  simp only
  rw [hformat]
  simp only [StateT.bind]
  rw [hload]
  rfl

/-- Where the directory is there and the file can be written, it is. -/
theorem result_write {suite : Suite} {format : Format} {path : String} (colours : Bool)
    {before made after : FileStore}
    (hprepare : prepare FileStore.access path before = (.ok (), made))
    (hwrite : FileStore.access.write path (suite.encode format) made = (.ok (), after)) :
    (write suite FileStore.access format path colours before).1.result = .ok path := by
  rw [(write_of_prepare suite format colours hprepare).1, hwrite]
  rfl

/-- **What a run is to write, and where**: the report that the input holds before the run, in the
settled format, at the output path of the settled settings. -/
def IsToWrite (options : RenderOptions) (before : FileStore) (path : String) (content : Bytes) :
    Prop :=
  ∃ settings format document suite,
    (options.resolve FileStore.access before).1 = .ok settings ∧
    settings.reportFormat? = some format ∧ settings.outputPath? = some path ∧
    before.read options.input = .ok document ∧ Suite.read document = .ok suite ∧
    suite.encode format = content

/-- What is to be written is settled before the run. -/
theorem IsToWrite.unique {options : RenderOptions} {before : FileStore} {path path' : String}
    {content content' : Bytes} (h : options.IsToWrite before path content)
    (h' : options.IsToWrite before path' content') : path = path' ∧ content = content' := by
  obtain ⟨settings, format, document, suite, hsettings, hformat, hpath, hread, hsuite, rfl⟩ := h
  obtain ⟨_, _, _, _, hsettings', hformat', hpath', hread', hsuite', rfl⟩ := h'
  obtain rfl := Except.ok.inj (hsettings.symm.trans hsettings')
  obtain rfl := Option.some.inj (hformat.symm.trans hformat')
  obtain rfl := Except.ok.inj (hread.symm.trans hread')
  obtain rfl := Except.ok.inj (hsuite.symm.trans hsuite')
  exact ⟨Option.some.inj (hpath.symm.trans hpath'), rfl⟩

end RenderOptions

/-! ## What is left behind

Two relations between the store before a run and the store after it.  In both of them whatever is
new beside the file is a directory above the output path. -/

namespace FileStore

/-- **One file written**: the path leads to it, it has the given content and its old mode if there
was one, and whatever else is new is a directory above the path. -/
structure OneFileWritten (before after : FileStore) (path : String) (place : Place)
    (content : Bytes) : Prop where
  leads : after.Leads path place
  file : before.get? place = none ∧ after.get? place = some (.file 0o600 content) ∨
    ∃ mode old, before.get? place = some (.file mode old) ∧
      after.get? place = some (.file mode content)
  elsewhere : ∀ other ≠ place, after.get? other = before.get? other ∨
    before.get? other = none ∧ after.get? other = some .directory ∧
      ∃ dir, Path.IsAbove dir path ∧ after.Leads dir other
  current : after.current = before.current

/-- **No file touched**: whatever is new is a directory above the path.  Every file has the content
and the mode that it had before. -/
structure NoFileTouched (before after : FileStore) (path : String) : Prop where
  everywhere : ∀ place, after.get? place = before.get? place ∨
    before.get? place = none ∧ after.get? place = some .directory ∧
      ∃ dir, Path.IsAbove dir path ∧ after.Leads dir place
  current : after.current = before.current

variable {dirs : List String} {before made : FileStore} {path : String}

theorem Grows.noFileTouched (h : Grows dirs before made)
    (hdirs : ∀ dir ∈ dirs, Path.IsAbove dir path) : NoFileTouched before made path where
  everywhere place := by
    rcases h.entry place with heq | ⟨hnone, hdirectory, dir, hdir, hleads⟩
    · exact .inl heq
    · exact .inr ⟨hnone, hdirectory, dir, hdirs dir hdir, hleads⟩
  current := h.current

/-- Growth by directories above a path and then a file put where the path leads. -/
theorem Grows.oneFileWritten (h : Grows dirs before made)
    (hdirs : ∀ dir ∈ dirs, Path.IsAbove dir path) {place : Place}
    (hwritable : made.Writable path place) (kept : Bytes) :
    OneFileWritten before (made.put place (.file (made.modeFor place) kept)) path place kept := by
  have hwritten := hwritable.onlyFileWritten kept
  have hbefore := h.get?_eq_of_ne hwritable.free
  have hkeeps := keepsDirectories_put_file (made.modeFor place) kept hwritable.free
  refine ⟨hwritten.leads, ?_, fun other hother => ?_, h.current⟩
  · rw [hbefore]
    exact hwritten.file
  · rw [hwritten.elsewhere other hother]
    obtain heq | ⟨hnone, hdirectory, dir, hdir, hleads⟩ := (h.noFileTouched hdirs).everywhere other
    · exact .inl heq
    · exact .inr ⟨hnone, hdirectory, dir, hdir, hkeeps.leads hleads⟩

end FileStore

/-- **How a run of the render command ends.**  It writes the file; or it fails early and everything
is as it was; or it cannot make a directory or open the file, and no file is touched; or the file is
open and has no room for the report, and then that file alone is made or emptied and holds the part
of the report that had room. -/
inductive RenderOptions.Ends (options : RenderOptions) (before : FileStore) :
    Except CommandError String → FileStore → Prop
  | written {path : String} {content : Bytes} {place : Place} {after : FileStore} :
    options.IsToWrite before path content → before.OneFileWritten after path place content →
    Ends options before (.ok path) after
  | early {e : CommandError} : e.IsEarly → Ends options before (.error e) before
  | refused {e : CommandError} {path : String} {content : Bytes} {after : FileStore} :
    ¬ e.IsEarly → options.IsToWrite before path content → before.NoFileTouched after path →
    Ends options before (.error e) after
  | broken {path : String} {content : Bytes} {place : Place} {limit : Limit} {after : FileStore} :
    options.IsToWrite before path content → before.limits.lookup place = some limit →
    limit.room < content.length →
    before.OneFileWritten after path place (content.take limit.room) →
    Ends options before (.error (.writeReport path limit.error)) after

/-- **What the render command leaves behind.**  If it succeeds, then exactly the file at the output
path of the settled settings is written, and it holds the report that the input file held before the
run, in the settled format.  If it fails, then no file is touched, and unless it fails in making a
directory or in writing, everything is as it was; but if it fails in writing to the file that it has
opened, then exactly that file is touched, and holds the beginning of the report. -/
theorem render_leaves (options : RenderOptions) (colours : Bool) {before after : FileStore}
    {outcome : Outcome String}
    (h : options.run FileStore.access colours before = (outcome, after)) :
    options.Ends before outcome.result after := by
  obtain ⟨e, he, hresult, rfl⟩ | ⟨settings, format, document, suite, hsettings, hformat, hread,
    hsuite, hwrite⟩ := options.run_cases colours before h
  · rw [hresult]
    exact .early he
  have htoWrite : options.IsToWrite before (Path.report settings.basePath format)
      (suite.encode format) := by
    refine ⟨settings, format, document, suite, hsettings, hformat, ?_, hread, hsuite, rfl⟩
    rw [Settings.outputPath?, hformat, Option.map_some]
  obtain ⟨dirs, made, hdirs, hgrows, hmade⟩ :=
    RenderOptions.write_cases suite format _ colours before hwrite
  obtain ⟨e, he, hresult, rfl⟩ | ⟨place, kept, hwritable, rfl, hkept⟩ := hmade
  · rw [hresult]
    exact .refused he htoWrite (hgrows.noFileTouched hdirs)
  have hwritten := hgrows.oneFileWritten hdirs hwritable kept
  obtain ⟨hresult, rfl⟩ | ⟨limit, hexceeded, hresult, rfl⟩ := hkept
  · rw [hresult]
    exact .written htoWrite hwritten
  · obtain ⟨hlimit, hless⟩ := FileStore.exceeded?_eq_some_iff.1 hexceeded
    rw [hgrows.limits] at hlimit
    rw [hresult]
    exact .broken htoWrite hlimit hless hwritten

/-- A store with one file, `report.json` in the current directory, which others may read. -/
def homeStore (content : Bytes) : FileStore :=
  { entries := [(["home"], .directory), (["home", "report.json"], .file 0o644 content)]
    current := ["home"] }

/-- The command that writes `report.json` over itself. -/
def renderInPlace : RenderOptions :=
  { input := "./report.json", config := none, format := none, name := none }

/-- The report that is written over itself. -/
def blankReport : Bytes := Suite.shape.blank.encode .json

/-- The store with that report, on a disk that sets limits. -/
def limitedHome (limits : List (Place × Limit)) : FileStore :=
  { homeStore blankReport with limits := limits }

/-- The store with that report on a disk that is almost full. -/
def crowdedHome : FileStore := limitedHome [(["home", "report.json"], sevenBytes)]

/-- Writing a report over itself comes to one write, whatever room there is. -/
theorem run_renderInPlace {limits : List (Place × Limit)} {result : Except FileError Unit}
    {after : FileStore}
    (hwrite : FileStore.access.write "report.json" blankReport (limitedHome limits) =
      (result, after)) :
    renderInPlace.IsToWrite (limitedHome limits) "report.json" blankReport ∧
    ∃ outcome, renderInPlace.run FileStore.access false (limitedHome limits) = (outcome, after) ∧
      outcome.result =
        (result.mapError (CommandError.writeReport "report.json")).map fun _ => "report.json" := by
  have hfile : (limitedHome limits).read renderInPlace.input = .ok blankReport := rfl
  have hread : Suite.read blankReport = .ok Suite.shape.blank :=
    Suite.read_encode_ok (by decide) rfl
  have hresolve : renderInPlace.resolve FileStore.access (limitedHome limits) =
      (.ok .default, limitedHome limits) := rfl
  have hload : loadReport FileStore.access renderInPlace.input (limitedHome limits) =
      (.ok Suite.shape.blank, limitedHome limits) := by
    simp only [loadReport, bind, StateT.bind, FileStore.access, hfile, hread]
    rfl
  have hprepare : RenderOptions.prepare FileStore.access "report.json" (limitedHome limits) =
      (.ok (), limitedHome limits) := by
    have hdir : RenderOptions.outputDirectory? "report.json" = none := by decide +kernel
    rw [RenderOptions.prepare, hdir]
    rfl
  refine ⟨⟨.default, .json, _, _, by rw [hresolve], rfl, rfl, hfile, hread, rfl⟩, ?_⟩
  obtain ⟨hresult, hafter⟩ := RenderOptions.write_of_prepare Suite.shape.blank .json false
    hprepare
  rw [show Suite.shape.blank.encode .json = blankReport from rfl, hwrite] at hresult hafter
  rw [RenderOptions.run_eq_write false hresolve rfl hload]
  exact ⟨_, Prod.ext rfl hafter, hresult⟩

/-- With seven bytes to spare seven bytes are written. -/
theorem write_crowdedHome :
    FileStore.access.write "report.json" blankReport crowdedHome =
      (.error sevenBytes.error, crowdedHome.put ["home", "report.json"]
        (.file 0o644 (blankReport.take sevenBytes.room))) := by
  have hwritable : crowdedHome.Writable "report.json" ["home", "report.json"] :=
    ⟨⟨["home"], "report.json", by decide +kernel, by decide, rfl⟩, nofun⟩
  have hroom : crowdedHome.exceeded? ["home", "report.json"] blankReport.length
      = some sevenBytes := FileStore.exceeded?_eq_some_iff.2 ⟨rfl, by decide +kernel⟩
  rw [FileStore.access_write, FileStore.locate_eq_ok_iff.2 hwritable]
  simp only [hroom]
  rfl

/-- A report that is written over itself is there afterwards, under its old mode; on a disk that is
almost full it is not left untouched. -/
theorem renderInPlace_leaves :
    (∃ outcome after place,
      renderInPlace.run FileStore.access false (homeStore blankReport) = (outcome, after) ∧
      outcome.result = .ok "report.json" ∧
      (homeStore blankReport).OneFileWritten after "report.json" place blankReport) ∧
    ∃ outcome after place limit,
      renderInPlace.run FileStore.access false crowdedHome = (outcome, after) ∧
      outcome.result = .error (.writeReport "report.json" limit.error) ∧
      crowdedHome.limits.lookup place = some limit ∧
      crowdedHome.OneFileWritten after "report.json" place (blankReport.take limit.room) := by
  constructor
  · have hwrite : FileStore.access.write "report.json" blankReport (limitedHome []) =
        (.ok (), (homeStore blankReport).put ["home", "report.json"] (.file 0o644 blankReport)) :=
      rfl
    obtain ⟨htoWrite, outcome, hrun, hok⟩ := run_renderInPlace hwrite
    have hends := render_leaves renderInPlace false hrun
    rw [hok] at hends
    cases hends with
    | written htoWrite' hwritten =>
      obtain ⟨-, rfl⟩ := htoWrite.unique htoWrite'
      exact ⟨outcome, _, _, hrun, hok, hwritten⟩
  · obtain ⟨htoWrite, outcome, hrun, hfailed⟩ := run_renderInPlace write_crowdedHome
    have hends := render_leaves renderInPlace false hrun
    generalize hresult : outcome.result = result at hends
    cases hends with
    | written => cases hresult.symm.trans hfailed
    | refused _ _ hnone =>
      obtain heq | ⟨hmissing, -⟩ := hnone.everywhere ["home", "report.json"]
      · exact absurd heq (by decide +kernel)
      · cases hmissing
    | broken htoWrite' hlimit _ hwritten =>
      obtain ⟨rfl, rfl⟩ := htoWrite.unique htoWrite'
      exact ⟨outcome, _, _, _, hrun, hresult, hlimit, hwritten⟩

/-- **A failure need not spare the files**: a report that is written over itself on a disk that is
almost full is lost. -/
theorem not_all_failures_spare_files :
    ¬ ∀ (options : RenderOptions) (colours : Bool) (before after : FileStore)
      (outcome : Outcome String) (e : CommandError),
      options.run FileStore.access colours before = (outcome, after) →
      outcome.result = .error e → ∀ place mode content,
        after.get? place = some (.file mode content) ↔
          before.get? place = some (.file mode content) := by
  intro hall
  obtain ⟨-, outcome, hrun, hfailed⟩ := run_renderInPlace write_crowdedHome
  have hkept := (hall renderInPlace false crowdedHome _ outcome _ hrun hfailed
    ["home", "report.json"] 0o644 blankReport).2 rfl
  exact absurd hkept (by decide +kernel)

end RunRecord
