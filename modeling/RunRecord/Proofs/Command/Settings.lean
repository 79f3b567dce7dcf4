import RunRecord.Proofs.Command.Render
import RunRecord.Proofs.Files.Contents
import RunRecord.Proofs.Report.Saving
import RunRecord.Proofs.Text.Utf8
import RunRecord.Proofs.Toml.Document

/-!
# Proofs/Command/Settings — where the settings of the render command come from

Each setting comes from the first of three sources that has it: an option, the configuration
document, the default.  Two inputs.

**A document says what it sets** (`Settings.read_eq`).  Whatever the order of its lines and the
escapes in its strings, the settings read from it are the texts under their keys.

**Only the settings matter** (`RenderOptions.run_congr`).  Behind them the command reads its input
and makes blind calls, so two documents that come to the same settings lead to the same run.
-/

namespace RunRecord

/-! ## Settings from a document

A source has a setting or does not.  A document that has no line for a key does not have it, and a
configuration that is not given has none. -/

theorem Settings.string?_ofEntries (entries : List (String × String)) (key : String) :
    Settings.string? (.ofEntries entries) key = some (entries.lookup key) := by
  rw [Settings.string?, Toml.Table.get?_ofEntries]
  cases entries.lookup key <;> rfl

/-- **A document of settings is read as the texts under their keys.**  A key that it does not set is
one that the settings have a default for. -/
theorem Settings.read_eq {document : List Char} {entries : List (String × String)}
    (h : Toml.DocumentSets document entries) :
    Settings.read document = .ok {
      name := (entries.lookup "name").getD "report"
      format := (entries.lookup "format").getD "JSON"
      dir := entries.lookup "dir" } := by
  rw [Settings.read, h.read_eq]
  simp only [bind, Except.bind, Settings.ofTable?, Settings.string?_ofEntries, Option.bind_some]
  rfl

/-- **What a configuration sets**: nothing if there is none, and else what its document does. -/
def FileStore.Configures (store : FileStore) :
    Option String → List (String × String) → Prop
  | none, entries => entries = []
  | some path, entries => ∃ document, store.read path = .ok (Utf8.encode document) ∧
    Toml.DocumentSets document entries

namespace RenderOptions

/-- The settings that options and a configuration come to. -/
def settings (options : RenderOptions) (entries : List (String × String)) : Settings where
  name := options.name.getD ((entries.lookup "name").getD "report")
  format := options.format.getD ((entries.lookup "format").getD "JSON")
  dir := entries.lookup "dir"

/-- **Each setting comes from an option, or else from the document, or else it is the default.**
Nothing of this is looked at for whether it makes sense; so a format that there is not is no trouble
where another source comes first. -/
theorem resolve_eq {options : RenderOptions} {store : FileStore} {entries : List (String × String)}
    (h : store.Configures options.config entries) :
    options.resolve FileStore.access store = (.ok (options.settings entries), store) := by
  unfold resolve
  rcases hconfig : options.config with _ | path
  · rw [hconfig] at h
    obtain rfl := h
    rfl
  · rw [hconfig] at h
    obtain ⟨document, hread, hsets⟩ := h
    have hdecode : Utf8.decode? (Utf8.encode document) = some document := by
      rw [Utf8.decode?, Utf8.decode_encode]
    have hload : loadSettings FileStore.access path store
        = (.ok {
          name := (entries.lookup "name").getD "report"
          format := (entries.lookup "format").getD "JSON"
          dir := entries.lookup "dir" }, store) := by
      unfold loadSettings
      simp only [bind, StateT.bind, FileStore.access, hread, hdecode, Settings.read_eq hsets]
      rfl
    simp only [bind, StateT.bind, hload]
    rfl

/-! ## The run behind the settings

Behind the settings the options are not looked at any more, except for the input.  That two runs
come to the same is therefore a matter of what the later calls can tell about the store, and they
are blind. -/

open FileStore

theorem blind_prepare (path : String) : Blind (prepare FileStore.access path) := by
  unfold prepare
  split
  · exact .pure _
  · refine (Blind.ensureChain _).bind fun made => ?_
    split <;> exact .pure _

theorem blind_save (suite : Suite) (format : Format) (path : String) :
    Blind (suite.save FileStore.access format path) := by
  refine (Blind.write path _).bind fun written => ?_
  split <;> exact .pure _

/-- **Writing a report is blind.**  What it writes is settled before its first call, by the report
and the format. -/
theorem blind_write (suite : Suite) (format : Format) (path : String) (colours : Bool) :
    Blind (write suite FileStore.access format path colours) := by
  refine (blind_prepare path).bind fun prepared => ?_
  split
  · exact .pure _
  · refine (blind_save suite format path).bind fun saved => ?_
    split <;> exact .pure _

end RenderOptions

/-- A report is the same in two stores in which its file holds the same. -/
theorem loadReport_congr {path : String} {first second : FileStore}
    (h : first.read path = second.read path) :
    ∃ result, loadReport FileStore.access path first = (result, first) ∧
      loadReport FileStore.access path second = (result, second) := by
  obtain ⟨result, hresult⟩ : ∃ result, ∀ store : FileStore, store.read path = second.read path →
      loadReport FileStore.access path store = (result, store) := by
    unfold loadReport
    simp only [bind, StateT.bind, FileStore.access]
    rcases second.read path with e | content
    · exact ⟨_, fun store hstore => by rw [hstore]; rfl⟩
    rcases hsuite : Suite.read content with e | suite
    · exact ⟨_, fun store hstore => by simp only [hstore, hsuite]; rfl⟩
    · exact ⟨_, fun store hstore => by simp only [hstore, hsuite]; rfl⟩
  exact ⟨result, hresult first h, hresult second rfl⟩

/-- **Only the settings matter.**  Where two runs come to the same settings and read the same input,
their outcomes are the same, and so are the changes they make in stores that are alike.  Nothing is
touched before the format and the report are known, and from then on every call is blind. -/
theorem RenderOptions.run_congr {options others : RenderOptions} {first second : FileStore}
    {settings : Settings} (halike : first.Alike second)
    (hfirst : options.resolve FileStore.access first = (.ok settings, first))
    (hsecond : others.resolve FileStore.access second = (.ok settings, second))
    (hinput : others.input = options.input)
    (hread : first.read options.input = second.read options.input) (colours : Bool) :
    ∃ outcome after₁ after₂,
      options.run FileStore.access colours first = (outcome, after₁) ∧
      others.run FileStore.access colours second = (outcome, after₂) ∧
      FileStore.SameChanges first second after₁ after₂ := by
  obtain ⟨report, hreport₁, hreport₂⟩ := loadReport_congr hread
  unfold run
  simp only [bind, StateT.bind, hfirst, hsecond, hinput]
  rcases settings.reportFormat? with _ | format
  · exact ⟨_, first, second, rfl, rfl, .refl first second⟩
  simp only [StateT.bind, hreport₁, hreport₂]
  rcases report with e | suite
  · exact ⟨_, first, second, rfl, rfl, .refl first second⟩
  · exact blind_write suite format _ colours first second halike

/-- **Each setting comes from the first source that has it**, and the format is looked at last.
With options for format and name, two configurations of one directory lead to the same run.  And
there is a configuration for every choice of texts for different keys. -/
theorem settings_in_order_of_sources (options : RenderOptions) {store : FileStore}
    {entries : List (String × String)} (h : store.Configures options.config entries) :
    let settings : Settings := {
      name := options.name.getD ((entries.lookup "name").getD "report")
      format := options.format.getD ((entries.lookup "format").getD "JSON")
      dir := entries.lookup "dir" }
    let base := (settings.dir.map (Path.join · settings.name)).getD settings.name
    options.resolve FileStore.access store = (.ok settings, store) ∧
    (∀ format, settings.reportFormat? = some format ↔ format.IsCalled settings.format) ∧
    (∀ path, settings.outputPath? = some path ↔
      ∃ format : Format, format.IsCalled settings.format ∧
        path = base ++ "." ++ format.extension) ∧
    (options.format.isSome ∧ options.name.isSome →
      ∀ config (other : FileStore) (others : List (String × String)),
        other.Configures config others → others.lookup "dir" = entries.lookup "dir" →
        store.Alike other → store.read options.input = other.read options.input →
        ∀ colours, ∃ outcome after₁ after₂,
          options.run FileStore.access colours store = (outcome, after₁) ∧
          { options with config }.run FileStore.access colours other = (outcome, after₂) ∧
          store.SameChanges other after₁ after₂) ∧
    ∀ texts : List (String × String), (texts.map Prod.fst).Nodup → ∃ document, ∀ path,
      ∀ other : FileStore, other.read path = .ok (Utf8.encode document) →
        other.Configures (some path) texts := by
  intro settings base
  have hformat : ∀ format,
      settings.reportFormat? = some format ↔ format.IsCalled settings.format := fun _ =>
    Format.ofId?_eq_some_iff
  have hbase : settings.basePath = base := by
    rw [Settings.basePath]
    change _ = (settings.dir.map (Path.join · settings.name)).getD settings.name
    cases settings.dir <;> rfl
  refine ⟨RenderOptions.resolve_eq h, hformat, fun path => ?_, ?_, fun texts hnodup => ?_⟩
  · rw [Settings.outputPath?, hbase, Option.map_eq_some_iff]
    constructor
    · rintro ⟨format, hsome, rfl⟩
      exact ⟨format, (hformat format).1 hsome, rfl⟩
    · rintro ⟨format, hcalled, rfl⟩
      exact ⟨format, (hformat format).2 hcalled, rfl⟩
  · rintro ⟨hformatGiven, hnameGiven⟩ config other others hothers hdir halike hread
    obtain ⟨id, hid⟩ := Option.isSome_iff_exists.1 hformatGiven
    obtain ⟨name, hname⟩ := Option.isSome_iff_exists.1 hnameGiven
    have hsame : RenderOptions.settings { options with config } others
        = options.settings entries := by
      simp only [RenderOptions.settings, hid, hname, hdir, Option.getD_some]
    have hresolve : RenderOptions.resolve { options with config } FileStore.access other
        = (.ok (options.settings entries), other) := hsame ▸ RenderOptions.resolve_eq hothers
    exact RenderOptions.run_congr halike (RenderOptions.resolve_eq h) hresolve rfl hread
  · obtain ⟨document, hsets⟩ := Toml.exists_documentSets hnodup
    exact ⟨document, fun _ _ hread => ⟨document, hread, hsets⟩⟩

/-- A document that names a format there is not. -/
def yamlDocument : List Char := "format = \"yaml\" # later\ndir=\"o\\u0075t\"".toList

/-- A document with the same directory, without a format. -/
def nameDocument : List Char := "\"dir\" = \"out\"\r\n\r\n\tname = \"a\\nb\"".toList

/-- A store with two configuration documents and a report. -/
def configStore : FileStore :=
  { entries := [(["a.toml"], .file 0o644 (Utf8.encode yamlDocument)),
      (["b.toml"], .file 0o644 (Utf8.encode nameDocument)),
      (["in.json"], .file 0o644 blankReport)]
    current := [] }

theorem configures_yaml :
    configStore.Configures (some "a.toml") [("format", "yaml"), ("dir", "out")] := by
  have hformat : Toml.KeySays "format".toList "format" :=
    .bare (by decide) (List.all_eq_true.1 (by decide))
  have hyaml : Toml.Says "yaml".toList "yaml".toList := .unescaped (List.all_eq_true.1 (by decide))
  have hlater : Toml.IsRemark "# later".toList := .comment (List.all_eq_true.1 (by decide))
  have hdir : Toml.KeySays "dir".toList "dir" := .bare (by decide) (List.all_eq_true.1 (by decide))
  have hu : Toml.Escape "u0075".toList 'u' :=
    .hex (by decide) ⟨[('0', 0), ('0', 0), ('7', 7), ('5', 5)], by decide, rfl, rfl⟩
  have hout : Toml.Says "o\\u0075t".toList "out".toList := .plain rfl (.escape hu (.plain rfl .nil))
  have hspace : Toml.IsGap [' '] := by decide
  have hnothing : Toml.IsGap [] := nofun
  have hfirst : Toml.LineSets "format = \"yaml\" # later".toList [("format", "yaml")] :=
    .setting hnothing hformat hspace hspace hyaml hspace hlater
  have hsecond : Toml.LineSets "dir=\"o\\u0075t\"".toList [("dir", "out")] :=
    .setting hnothing hdir hnothing hnothing hout hnothing .none
  exact ⟨yamlDocument, rfl, by decide, _, .more hfirst .lineFeed (.last hsecond), .inl rfl⟩

theorem configures_name :
    configStore.Configures (some "b.toml") [("dir", "out"), ("name", "a\nb")] := by
  have hdir : Toml.KeySays "\"dir\"".toList "dir" :=
    .basic (.unescaped (List.all_eq_true.1 (by decide) : ∀ c ∈ "dir".toList, _))
  have hout : Toml.Says "out".toList "out".toList := .unescaped (List.all_eq_true.1 (by decide))
  have hname : Toml.KeySays "name".toList "name" :=
    .bare (by decide) (List.all_eq_true.1 (by decide))
  have hlines : Toml.Says "a\\nb".toList "a\nb".toList :=
    .plain rfl (.escape (.short (by decide)) (.plain rfl .nil))
  have hspace : Toml.IsGap [' '] := by decide
  have htab : Toml.IsGap ['\t'] := by decide
  have hnothing : Toml.IsGap [] := nofun
  have hfirst : Toml.LineSets "\"dir\" = \"out\"".toList [("dir", "out")] :=
    .setting hnothing hdir hspace hspace hout hnothing .none
  have hblank : Toml.LineSets [] [] := .blank hnothing .none
  have hlast : Toml.LineSets "\tname = \"a\\nb\"".toList [("name", "a\nb")] :=
    .setting htab hname hspace hspace hlines hnothing .none
  exact ⟨nameDocument, rfl, by decide, _,
    .more hfirst .returned (.more hblank .returned (.last hlast)), .inl rfl⟩

/-- Options that say both what the report is called and in which format it is written. -/
def bothGiven : RenderOptions :=
  { input := "in.json", config := some "a.toml", format := some "XmL", name := some "r" }

/-- With both options the report is written. -/
theorem result_bothGiven :
    (bothGiven.run FileStore.access true configStore).1.result = .ok "out/r.xml" := by
  have hresolve := RenderOptions.resolve_eq (show configStore.Configures bothGiven.config _ from
    configures_yaml)
  have hfile : configStore.read bothGiven.input = .ok blankReport := rfl
  have hread : Suite.read blankReport = .ok Suite.shape.blank :=
    Suite.read_encode_ok (by decide) rfl
  have hload : loadReport FileStore.access bothGiven.input configStore =
      (.ok Suite.shape.blank, configStore) := by
    simp only [loadReport, bind, StateT.bind, FileStore.access, hfile, hread]
    rfl
  have hprepare : RenderOptions.prepare FileStore.access "out/r.xml" configStore
      = (.ok (), configStore.put ["out"] .directory) := by
    have hdir : RenderOptions.outputDirectory? "out/r.xml" = some "out" := by decide +kernel
    have hchain : Path.ancestors "out" = ["out"] := by
      have hparent : Path.parent? "out" = some "" := by decide +kernel
      have hroot : Path.ancestors "" = [] := by rw [Path.ancestors, if_pos rfl]
      rw [Path.ancestors, if_neg (by decide)]
      split
      · next hnone => simp [hparent] at hnone
      · next hsome =>
        obtain rfl := Option.some.inj (hparent.symm.trans hsome)
        rw [hroot]
    rw [RenderOptions.prepare, hdir]
    simp only [FileAccess.ensureDirectories, hchain]
    rfl
  rw [RenderOptions.run_eq_write true hresolve rfl hload]
  exact RenderOptions.result_write true hprepare rfl

/-- An option in the place of an unknown format makes the document as good as any other. -/
theorem bothGiven_settled :
    let settings : Settings := { name := "r", format := "XmL", dir := some "out" }
    bothGiven.resolve FileStore.access configStore = (.ok settings, configStore) ∧
      settings.reportFormat? = some .xml ∧ settings.outputPath? = some "out/r.xml" ∧
      { bothGiven with format := none }.resolve FileStore.access configStore
        = (.ok { settings with format := "yaml" }, configStore) ∧
      ∃ outcome after₁ after₂, outcome.result = .ok "out/r.xml" ∧
        bothGiven.run FileStore.access true configStore = (outcome, after₁) ∧
        { bothGiven with config := some "b.toml" }.run FileStore.access true configStore
          = (outcome, after₂) ∧
        configStore.SameChanges configStore after₁ after₂ := by
  obtain ⟨hresolve, hformat, hpath, hsame, -⟩ :=
    settings_in_order_of_sources bothGiven configures_yaml
  obtain ⟨hresolve', -⟩ :=
    settings_in_order_of_sources { bothGiven with format := none } configures_yaml
  have hcalled : Format.xml.IsCalled "XmL" := Format.ofId?_eq_some_iff.1 (by decide)
  obtain ⟨outcome, after₁, after₂, hfirst, hsecond, hchanges⟩ :=
    hsame ⟨rfl, rfl⟩ (some "b.toml") configStore _ configures_name rfl (.refl _) rfl true
  have hresult : outcome.result = .ok "out/r.xml" := by
    rw [← result_bothGiven, hfirst]
  exact ⟨hresolve, (hformat .xml).2 hcalled, (hpath _).2 ⟨.xml, hcalled, by decide⟩, hresolve',
    outcome, after₁, after₂, hresult, hfirst, hsecond, hchanges⟩

end RunRecord
