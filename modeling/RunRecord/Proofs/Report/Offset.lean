import RunRecord.Proofs.Instant.Offset
import RunRecord.Proofs.Report.Acceptance
import RunRecord.Proofs.Report.Instants
import RunRecord.Proofs.Report.Presentation

/-!
# Proofs/Report/Offset — reports with instants at any offset

Writing one of the instants of a document otherwise, at another offset maybe, is a **step** from the
document to another (`Respells`), and any mixture of offsets is reached in such steps.

Two inputs.

**What stands under the keys of instants is stored as an instant**
(`RecordKind.exists_isInstantStore`), however it is written, and nothing else in a record is stored
there.  So the record holds the very instant that its document writes (`Holds.instant?_eq`).

**A step is not noticed** (`InstantPlace.takes`).  What surrounds an instant asks no more of its
text than which instant it writes.
-/

namespace RunRecord

open Json

/-! ## Instants in documents

A place is a way to put a value into a tree.  The places of instants are given for the records of a
report, and for a record inside another by the place of that record. -/

/-- **Where an instant stands in a record**, as its own or as that of a record inside. -/
inductive InstantPlace : RecordKind → (Tree → Tree) → Prop
  | here {kind : RecordKind} {field : Field} {place : Tree → Tree} : Holds kind field place →
      field.name ∈ instantKeys → InstantPlace kind place
  | within {kind inner : RecordKind} {place slot : Tree → Tree} : Contains kind inner place →
      InstantPlace inner slot → InstantPlace kind fun v => place (slot v)

/-- **One instant of a report is written otherwise.**  Both texts write the same instant; their
offsets and the zeros at the end of a fraction may differ. -/
inductive Respells : Tree → Tree → Prop
  | intro {place : Tree → Tree} {body body' : Body} {s s' : String} {t : Instant} :
      InstantPlace .suite place → body.Says s → body'.Says s' → t.Writes s.toList →
      t.Writes s'.toList → Respells (place (.string body)) (place (.string body'))

/-- The instant that a timing holds under a key. -/
def Timing.instant? (timing : Timing) (key : String) : Option Instant :=
  if key = "startTime" then some timing.start
  else if key = "endTime" then timing.stop
  else none

/-- The timing of a record. -/
def RecordKind.timing? : (kind : RecordKind) → kind.Value → Option Timing
  | suite, (s : Suite) => some s.timing
  | test, (t : Test) => some t.timing
  | operation, (o : Operation) => some o.timing
  | step, _ | failure, _ => none

/-- The instant that a record holds under a key. -/
def RecordKind.instant? (kind : RecordKind) (a : kind.Value) (key : String) : Option Instant :=
  (kind.timing? a).bind fun timing => timing.instant? key

/-! ## Members that store instants

That a member stores an instant is stated of its reader and its store, so that what it stores does
not depend on how the text was written. -/

variable {kind : RecordKind} {body body' : Body} {s s' : String} {t : Instant}

/-- **A string that writes an instant is read as the instant.**  The string may be escaped in any
way, and the instant may be written at any offset. -/
theorem takes_instantValue (hsaid : body.Says s) (ht : t.Writes s.toList) :
    instantValue.Takes (.string body) t :=
  means_instantValue.takes ⟨body, s, rfl, hsaid, ht.read_eq⟩

/-- **A member stores an instant** under its name, however the instant is written. -/
structure IsInstantStore (kind : RecordKind) (m : Member kind.Value)
    (store : Instant → kind.Value → kind.Value) : Prop where
  takes : ∀ {body s t}, body.Says s → t.Writes s.toList → m.read.Takes (.string body) (store t)
  again : ∀ t a, store t (store t a) = store t a
  held : ∀ t a, kind.instant? (store t a) m.name = some t

/-- A member that must be there stores an instant, if to store it again changes nothing and what is
stored is what the record holds. -/
theorem isInstantStore_required {name : String} {store : Instant → kind.Value → kind.Value}
    (hagain : ∀ t a, store t (store t a) = store t a)
    (hheld : ∀ t a, kind.instant? (store t a) name = some t) :
    IsInstantStore kind (required name instantValue store) store where
  takes hsaid ht :=
    (takes_store_iff means_instantValue.isExact).2 ⟨_, takes_instantValue hsaid ht, rfl⟩
  again := hagain
  held := hheld

/-- So does a member that may be missing. -/
theorem isInstantStore_optional {name : String}
    {store : Option Instant → kind.Value → kind.Value}
    (hagain : ∀ t a, store (some t) (store (some t) a) = store (some t) a)
    (hheld : ∀ t a, kind.instant? (store (some t) a) name = some t) :
    IsInstantStore kind (defaulted name (optional instantValue) store)
      fun t => store (some t) where
  takes {body s t} hsaid ht := by
    have hexact := means_instantValue.isExact.optional
    have htakes : (optional instantValue).Takes (.string body) (some t) :=
      hexact.takes (.inr ⟨nofun, t, takes_instantValue hsaid ht, rfl⟩)
    exact (takes_store_iff hexact.isExact).2 ⟨some t, htakes, rfl⟩
  again := hagain
  held := hheld

/-- The members of a record that tell its name first, then its start and then its end. -/
theorem exists_isInstantStore_of_timed {name start stop : Member kind.Value}
    {members : List (Member kind.Value)} {store store' : Instant → kind.Value → kind.Value}
    (hname : name.name ∉ instantKeys) (hstart : IsInstantStore kind start store)
    (hstop : IsInstantStore kind stop store')
    (hrest : ∀ key ∈ members.map (·.name), key ∉ instantKeys) :
    ∀ m ∈ name :: start :: stop :: members, m.name ∈ instantKeys →
      ∃ store, IsInstantStore kind m store :=
  List.forall_mem_cons.2 ⟨fun h => absurd h hname, List.forall_mem_cons.2 ⟨fun _ => ⟨_, hstart⟩,
    List.forall_mem_cons.2 ⟨fun _ => ⟨_, hstop⟩, fun _ hm h =>
      absurd h (hrest _ (List.mem_map_of_mem hm))⟩⟩⟩

/-- **Whatever stands under the keys of instants is stored as an instant.**  The records that have a
timing have it in the same form, so one argument does for all of them. -/
theorem RecordKind.exists_isInstantStore (kind : RecordKind) :
    ∀ m ∈ kind.shape.members, m.name ∈ instantKeys → ∃ store, IsInstantStore kind m store := by
  cases kind with
  | suite | test | operation =>
    exact exists_isInstantStore_of_timed (by decide)
      (isInstantStore_required (fun _ _ => rfl) fun _ _ => rfl)
      (isInstantStore_optional (fun _ _ => rfl) fun _ _ => rfl) (by decide)
  | step =>
    have hnone : ∀ m ∈ Step.shape.members, m.name ∉ instantKeys := by decide
    exact fun m hm h => absurd h (hnone m hm)
  | failure =>
    have hnone : ∀ m ∈ Failure.shape.members, m.name ∉ instantKeys := by decide
    exact fun m hm h => absurd h (hnone m hm)

/-! ## Reading instants -/

/-- **A record holds the instant that its document writes.**  To store it again would change
nothing, so it is what is there. -/
theorem Holds.instant?_eq {field : Field} {place : Tree → Tree} (h : Holds kind field place)
    (hkey : field.name ∈ instantKeys) (hsaid : body.Says s) (ht : t.Writes s.toList)
    {a : kind.Value} (ha : kind.shape.reader.Takes (place (.string body)) a) :
    kind.instant? a field.name = some t := by
  obtain ⟨m, hm, hname, f, hf, hstored⟩ := h.stored ha
  rw [← hname] at hkey ⊢
  obtain ⟨store, hstore⟩ := kind.exists_isInstantStore m hm hkey
  obtain rfl := (hstore.takes hsaid ht).unique hf
  rw [← hstored (hstore.again t)]
  exact hstore.held t a

/-- A place of an instant is no `null`, so what stands there is not taken for something missing. -/
theorem InstantPlace.ne_null {place : Tree → Tree} (h : InstantPlace kind place) (v : Tree) :
    place v ≠ .null := by
  cases h with
  | here hholds => exact hholds.ne_null v
  | within hcontains =>
    obtain ⟨hholds, -⟩ := hcontains
    exact hholds.ne_null _

/-- **How an instant is written is not noticed.**  The record around it sees the instant only. -/
theorem InstantPlace.takes {place : Tree → Tree} (h : InstantPlace kind place)
    (hsaid : body.Says s) (hsaid' : body'.Says s') (ht : t.Writes s.toList)
    (ht' : t.Writes s'.toList) {a : kind.Value}
    (ha : kind.shape.reader.Takes (place (.string body)) a) :
    kind.shape.reader.Takes (place (.string body')) a := by
  induction h with
  | @here kind _ _ hholds hkey =>
    obtain ⟨m, hm, f, himplements, hf, hslot⟩ := hholds.slot ha
    obtain ⟨store, hstore⟩ := kind.exists_isInstantStore m hm (himplements.name ▸ hkey)
    obtain rfl := (hstore.takes hsaid ht).unique hf
    exact hslot _ (hstore.takes hsaid' ht')
  | within hcontains hinner ih =>
    obtain ⟨b, hb, hslot⟩ := hcontains.slot (hinner.ne_null _) ha
    exact hslot _ (hinner.ne_null _) (ih hb)

/-- To write an instant otherwise can be undone. -/
theorem Respells.symm {v w : Tree} (h : Respells v w) : Respells w v := by
  obtain ⟨hplace, hsaid, hsaid', ht, ht'⟩ := h
  exact .intro hplace hsaid' hsaid ht' ht

/-- **Any mixture of spellings is the same suite.**  One spelling after another is changed, and each
of these steps is not noticed. -/
theorem takes_iff_of_respells {v w : Tree} (h : Relation.ReflTransGen Respells v w)
    {suite : Suite} : Suite.shape.reader.Takes v suite ↔ Suite.shape.reader.Takes w suite := by
  have hstep : ∀ {v w : Tree}, Respells v w →
      Suite.shape.reader.Takes v suite → Suite.shape.reader.Takes w suite := by
    rintro _ _ ⟨hplace, hsaid, hsaid', ht, ht'⟩ hv
    exact InstantPlace.takes hplace hsaid hsaid' ht ht' hv
  induction h with
  | refl => exact Iff.rfl
  | tail _ hlast ih => exact ih.trans ⟨hstep hlast, hstep hlast.symm⟩

/-! ## Documents -/

/-- **Two documents of one report**: they are decoded alike, accepted alike, and refused alike for
what is inconsistent in the report. -/
structure SameReport (document other : Bytes) : Prop where
  decode : ∀ suite, Suite.decode document = .ok suite ↔ Suite.decode other = .ok suite
  accepted : ∀ suite, Suite.read document = .ok suite ↔ Suite.read other = .ok suite
  refused : ∀ v, Suite.read document = .error (.inconsistent v) ↔
    Suite.read other = .error (.inconsistent v)

/-- **Documents that differ in how instants are written are documents of one report.** -/
theorem sameReport_of_respells {document other : Bytes} {v w : Tree} (hv : Presents document v)
    (h : Relation.ReflTransGen Respells v w) (hw : Presents other w) :
    SameReport document other := by
  have hdecode : ∀ suite, Suite.decode document = .ok suite ↔ Suite.decode other = .ok suite := by
    intro suite
    rw [Suite.decode_eq_ok_iff, Suite.decode_eq_ok_iff]
    constructor
    · rintro ⟨v', hv', ha⟩
      obtain rfl := hv.unique hv'
      exact ⟨w, hw, (takes_iff_of_respells h).1 ha⟩
    · rintro ⟨w', hw', ha⟩
      obtain rfl := hw.unique hw'
      exact ⟨v, hv, (takes_iff_of_respells h).2 ha⟩
  refine ⟨hdecode, fun suite => ?_, fun violation => ?_⟩
  · rw [Suite.read_eq_ok_iff, Suite.read_eq_ok_iff, hdecode]
  · simp only [Suite.read_eq_inconsistent_iff, hdecode]

/-- A text that writes an instant in universal time. -/
def WritesUniversal (text : String) : Prop :=
  ∃ t : Instant, text = t.toText ∧ t.Writes text.toList ∧ text.toList.getLast? = some 'Z'

/-- The text of an instant writes it in universal time. -/
theorem writesUniversal_toText (t : Instant) : WritesUniversal t.toText := by
  rw [WritesUniversal, Instant.toText, String.toList_ofList]
  exact ⟨t, rfl, t.writes_text, List.getLast?_concat⟩

/-- The instant texts of a suite are in universal time. -/
theorem Suite.writesUniversal_of_mem {suite : Suite} {text : String}
    (h : text ∈ suite.instantTexts) : WritesUniversal text := by
  obtain ⟨timing, -, htext⟩ := List.mem_flatMap.1 h
  rcases List.mem_cons.1 htext with rfl | htext
  · exact writesUniversal_toText _
  · obtain ⟨stop, -, rfl⟩ := Option.map_eq_some_iff.1 (Option.mem_toList.1 htext)
    exact writesUniversal_toText stop

/-- **Instants are read from every offset.**  Wherever the calendar has the local time of an
instant, there are texts that write the instant at that offset.  They are read as the instant, and
a record holds the instant whose text is in its document.  So a report with its instants at any
mixture of offsets is the same report, and its own documents show them in universal time. -/
theorem offsets_make_no_difference :
    (∀ (t : Instant) (offset : Int), offset.natAbs < 1440 →
      firstDay ≤ (t.epochSecond + offset * 60) / 86400 →
      (t.epochSecond + offset * 60) / 86400 ≤ lastDay →
      ∃ l zone, t.IsLocal offset l ∧ Instant.IsZone offset zone ∧
        ∀ fraction, Instant.IsFraction (t.nano % nanosPerSecond) fraction →
          t.Writes ((Date.ofDay l.day).text ++ 'T' :: (l.clockText ++ (fraction ++ zone)))) ∧
    (∀ (t : Instant) (text : List Char), t.Writes text → Instant.read text = .ok t) ∧
    (∀ (kind : RecordKind) field place body s t (a : kind.Value), Holds kind field place →
      field.name ∈ instantKeys → body.Says s → t.Writes s.toList →
      kind.shape.reader.Takes (place (.string body)) a →
      kind.instant? a field.name = some t) ∧
    (∀ document other v w, Presents document v → Relation.ReflTransGen Respells v w →
      Presents other w → SameReport document other) ∧
    ∀ suite : Suite, (∀ text ∈ suite.instantTexts, WritesUniversal text) ∧
      ∃ v c, Json.read (suite.encode .json) = some v ∧ v.instantTexts = suite.instantTexts ∧
        Xml.read (suite.encode .xml) = some c ∧ c.instantTexts = suite.instantTexts := by
  refine ⟨fun t offset hoffset hfirst hlast => ?_, fun t text h => h.read_eq,
    fun kind field place body s t a h hkey hsaid ht ha => h.instant?_eq hkey hsaid ht ha,
    fun document other v w hv h hw => sameReport_of_respells hv h hw,
    fun suite => ⟨fun text => suite.writesUniversal_of_mem, suite.toJson,
      suite.safe.toXml.content 0, ?_, suite.instantTexts_toJson, ?_, ?_⟩⟩
  · obtain ⟨l, hl⟩ := Instant.exists_isLocal ⟨hfirst, hlast⟩
    obtain ⟨zone, hzone⟩ := Instant.exists_isZone hoffset
    exact ⟨l, zone, hl, hzone, fun fraction hfraction => .intro hl hfraction hzone⟩
  · rw [Suite.encode, Suite.text, Json.read_render]
  · rw [Suite.encode, Suite.text, Xml.read_render suite.isWritable, suite.safeXml_eq]
  · rw [Suite.instantTexts_toXml, Suite.instantTexts_safe]

/-- Half a second into the leap second at the end of 2016. -/
def leapSecond : Instant := (Instant.ofParts? 17166 86399 1500000000).get rfl

/-- Its local time two hours ahead. -/
def localLeapSecond : Instant := (Instant.ofParts? 17167 7199 1500000000).get rfl

/-- A suite that starts in a leap second. -/
def leapSuite : Suite :=
  { Suite.shape.blank with timing := { blankTiming with start := leapSecond } }

/-- The suite as a value, as far as the spelling of its start is left open. -/
def leapJson (start : String) : Json :=
  .object [("name", .string ""), ("startTime", .string start), ("time", .string ""),
    ("reports", .array []), ("failures", .ofNat 0)]

/-- Two hours ahead the leap second lies in the next year. -/
theorem leapSuite_respelled :
    let spelling := "2017-01-01T01:59:60.50000000000+02:00"
    let document := Utf8.encode ((leapJson spelling).render .compact)
    (∃ l, leapSecond.IsLocal 120 l) ∧ leapSecond.Writes spelling.toList ∧
      Instant.read spelling.toList = .ok leapSecond ∧
      RecordKind.suite.instant? leapSuite "startTime" = some leapSecond ∧
      Suite.decode document = .ok leapSuite ∧ Suite.read document = .ok leapSuite ∧
      leapSuite.instantTexts = ["2016-12-31T23:59:60.500Z"] := by
  intro spelling document
  obtain ⟨hlocal, hread, hheld, hsame, -⟩ := offsets_make_no_difference
  obtain ⟨l, -, hl, -, -⟩ := hlocal leapSecond 120 (by decide) (by decide) (by decide)
  have hwrites : leapSecond.Writes spelling.toList := by
    have hclock : leapSecond.IsLocal 120 localLeapSecond := ⟨by decide, rfl⟩
    have hfraction : Instant.IsFraction (leapSecond.nano % nanosPerSecond) ".50000000000".toList :=
      @Instant.IsFraction.digits _ "50000000000".toList 0 2 (by decide) (by decide)
    have hspelling : spelling.toList = (Date.ofDay localLeapSecond.day).text ++
        'T' :: (localLeapSecond.clockText ++ (".50000000000".toList ++ "+02:00".toList)) := by
      decide +kernel
    rw [hspelling]
    exact .intro hclock hfraction (@Instant.IsZone.ahead 120 (by decide))
  have hplace : Holds .suite ⟨"startTime", none, .plain⟩ fun v =>
      .object (memberTrees [("name", .string "")] ++ (writtenBody "startTime", v) ::
        memberTrees [("time", .string ""), ("reports", .array []), ("failures", .ofNat 0)]) :=
    .member (List.mem_of_getElem? (i := 1) rfl) (says_writtenBody "startTime")
  have hsaid := says_writtenBody spelling
  have hrespells : Respells (leapJson leapSecond.toText).tree (leapJson spelling).tree :=
    .intro (.here hplace (by decide)) (says_writtenBody _) hsaid
      (String.toList_ofList ▸ leapSecond.writes_text) hwrites
  have hreport := hsame _ document _ _ (presents_render .compact _) (.single hrespells)
    (presents_render .compact _)
  have hdecode : Suite.decode document = .ok leapSuite :=
    (hreport.decode leapSuite).1 (decode_render (leapSuite.reads_toJson (by decide)) .compact)
  obtain ⟨v, hv, htakes⟩ := Suite.decode_eq_ok_iff.1 hdecode
  obtain rfl := hv.unique (presents_render .compact _)
  have hstart := hheld .suite _ _ _ _ _ _ hplace (by decide) hsaid hwrites htakes
  refine ⟨⟨l, hl⟩, hwrites, hread _ _ hwrites, hstart, hdecode, ?_, by decide +kernel⟩
  rw [Suite.read, hdecode]
  rfl

end RunRecord
