import RunRecord.Proofs.Json.Record
import RunRecord.Report.Document
import RunRecord.Report.JsonReader

/-!
# Proofs/Report/RoundTrip — decoding a report undoes encoding it

A node leaves out of its document exactly the members whose value is what a blank record holds, so
its members spell it (`Json.Shape.Spells`), and its record reader reads it back; a list of nodes is
read back because each of them is.  The failure count is the one part of a suite that a document
cannot hold whatever it is: counts are read back below `Json.wordSize`.

The proof follows the types: for each node, the ways in which its members are written are named in
declared order, and for each member that may be left out it is checked that leaving it out is the
same as writing its default.  Nothing is asked of the suite but that its failure count can be read
back; whether it is consistent is a question of reading and not of decoding.
-/

namespace RunRecord

open Json

/-! ## Nodes

Each proof lists the members of a node in their order.  A member that is added, dropped or moved on
one side only makes the list fail to match. -/

/-- A string is not `null`, so an optional string is not lost. -/
theorem Json.string_ne_null (s : String) : Json.string s ≠ .null := nofun

/-- A failure is read from its object. -/
theorem Failure.reads_toJson (failure : Failure) :
    Failure.shape.reader.Reads failure.toJson failure := by
  have hspells : Shape.Spells Failure.shape.members _ Failure.shape.blank failure :=
    .required (reads_textValue failure.message) <|
    .required (reads_textValue failure.kind) .nil
  exact Shape.reads_reader (by decide) hspells

/-- A kind of operation is read from its name. -/
theorem OperationKind.reads_name (kind : OperationKind) :
    OperationKind.reader.Reads (.string kind.name) kind :=
  reads_choiceValue (OperationKind.ofName?_name kind)

/-- An operation is read from its object. -/
theorem Operation.reads_toJson (operation : Operation) :
    Operation.shape.reader.Reads operation.toJson operation := by
  have hspells : Shape.Spells Operation.shape.members _ Operation.shape.blank operation :=
    .required (reads_textValue operation.name) <|
    .required (reads_instantValue operation.timing.start) <|
    .ofOption Instant.toJson operation.timing.stop reads_instantValue
      (fun t => string_ne_null t.toText) rfl <|
    .always (reads_textValue operation.timing.time) <|
    .always (reads_textValue operation.result) <|
    .ofOption Json.string operation.message reads_textValue string_ne_null rfl <|
    .required operation.kind.reads_name .nil
  simpa only [Operation.toJson, Timing.jsonMembers, Instant.toJson, List.append_assoc,
    List.append_nil] using Shape.reads_reader (by decide) hspells

/-- A step is read from its object, with its operations. -/
theorem Step.reads_toJson (step : Step) : Step.shape.reader.Reads step.toJson step := by
  have hspells : Shape.Spells Step.shape.members _ Step.shape.blank step :=
    .textUnlessEmpty step.name rfl <|
    .listUnlessEmpty Operation.toJson step.operations (fun o _ => o.reads_toJson) rfl .nil
  simpa only [Step.toJson, List.append_assoc, List.append_nil]
    using Shape.reads_reader (by decide) hspells

/-- A test is read from its object, with its failure and steps. -/
theorem Test.reads_toJson (test : Test) : Test.shape.reader.Reads test.toJson test := by
  have hspells : Shape.Spells Test.shape.members _ Test.shape.blank test :=
    .required (reads_textValue test.name) <|
    .required (reads_instantValue test.timing.start) <|
    .ofOption Instant.toJson test.timing.stop reads_instantValue
      (fun t => string_ne_null t.toText) rfl <|
    .always (reads_textValue test.timing.time) <|
    .ofOption Failure.toJson test.failure Failure.reads_toJson nofun rfl <|
    .listUnlessEmpty Step.toJson test.steps (fun s _ => s.reads_toJson) rfl <|
    .flag test.concurrent rfl <|
    .textUnlessEmpty test.scope rfl <|
    .flag test.skip rfl <|
    .flag test.skipDelete rfl .nil
  simpa only [Test.toJson, Timing.jsonMembers, Instant.toJson, List.append_assoc, List.append_nil]
    using Shape.reads_reader (by decide) hspells

/-- A suite is read from its object, if its failure count is below 2⁶⁴. -/
theorem Suite.reads_toJson (suite : Suite) (h : suite.failures < wordSize) :
    Suite.shape.reader.Reads suite.toJson suite := by
  have hspells : Shape.Spells Suite.shape.members _ Suite.shape.blank suite :=
    .required (reads_textValue suite.name) <|
    .required (reads_instantValue suite.timing.start) <|
    .ofOption Instant.toJson suite.timing.stop reads_instantValue
      (fun t => string_ne_null t.toText) rfl <|
    .always (reads_textValue suite.timing.time) <|
    .always (reads_listValue Test.toJson suite.tests fun t _ => t.reads_toJson) <|
    .always (reads_countValue h) .nil
  simpa only [Suite.toJson, Timing.jsonMembers, Instant.toJson, List.append_assoc,
    List.cons_append, List.nil_append] using Shape.reads_reader (by decide) hspells

/-! ## Documents -/

/-- A report is decoded to what was encoded, whether it is consistent or not. -/
theorem Suite.decode_encode (suite : Suite) (h : suite.failures < wordSize) :
    Suite.decode (suite.encode .json) = .ok suite :=
  decode_render (suite.reads_toJson h) .indented

/-- A report in which nothing is wrong is read back. -/
theorem Suite.read_encode_ok {suite : Suite} (h : suite.failures < wordSize)
    (hvalid : suite.firstViolation? = none) : Suite.read (suite.encode .json) = .ok suite := by
  simp only [Suite.read, suite.decode_encode h, hvalid]

/-- A report in which something is wrong is refused for that. -/
theorem Suite.read_encode_error {suite : Suite} (h : suite.failures < wordSize) {v : Violation}
    (hv : suite.firstViolation? = some v) :
    Suite.read (suite.encode .json) = .error (.inconsistent v) := by
  simp only [Suite.read, suite.decode_encode h, hv]

/-- **Decoding undoes encoding**: a suite comes back from its document, whether consistent or not;
reading accepts it if it is consistent; and each node comes back from its own text in either
layout. -/
theorem decode_undoes_encode :
    (∀ suite : Suite, suite.failures < wordSize →
      Suite.decode (suite.encode .json) = .ok suite ∧
      (suite.firstViolation? = none → Suite.read (suite.encode .json) = .ok suite)) ∧
    ∀ layout : Layout,
      (∀ test : Test,
        decode Test.shape.reader (Utf8.encode (test.toJson.render layout)) = .ok test) ∧
      (∀ step : Step,
        decode Step.shape.reader (Utf8.encode (step.toJson.render layout)) = .ok step) ∧
      (∀ operation : Operation,
        decode Operation.shape.reader (Utf8.encode (operation.toJson.render layout))
          = .ok operation) ∧
      ∀ failure : Failure,
        decode Failure.shape.reader (Utf8.encode (failure.toJson.render layout))
          = .ok failure := by
  refine ⟨fun suite hcount => ⟨suite.decode_encode hcount, Suite.read_encode_ok hcount⟩,
    fun layout => ⟨fun test => ?_, fun step => ?_, fun operation => ?_, fun failure => ?_⟩⟩
  · exact decode_render test.reads_toJson layout
  · exact decode_render step.reads_toJson layout
  · exact decode_render operation.reads_toJson layout
  · exact decode_render failure.reads_toJson layout

/-- The first nanosecond an instant can hold. -/
def firstInstant : Instant :=
  { blankInstant with day := firstDay, day_range := by decide }

/-- The last nanosecond of a leap second at the end of the last day. -/
def lastInstant : Instant :=
  { day := lastDay, second := 86399, nano := 1999999999, day_range := by decide,
    second_lt := by decide, nano_lt := by decide }

/-- A closed suite that spans all instants, with a failed test and every optional part, so that no
member is at its default. -/
def longestSuite : Suite :=
  let timing : Timing :=
    { start := firstInstant, stop := some lastInstant, time := elapsed firstInstant lastInstant }
  let operation : Operation :=
    { name := "a\"b\\c\x01\n", timing, result := "", message := some "é 🦀", kind := .script }
  let test : Test :=
    { name := "", timing, failure := some { message := "\t", kind := "/" },
      steps := [{ name := "", operations := [] }, { name := "s", operations := [operation] }],
      concurrent := true, scope := "n", skip := false, skipDelete := true }
  { name := "all", timing, tests := [test], failures := 1 }

/-- The longest suite is read back. -/
theorem longestSuite_read_back :
    longestSuite.failures < wordSize ∧ longestSuite.firstViolation? = none ∧
      Suite.decode (longestSuite.encode .json) = .ok longestSuite ∧
      Suite.read (longestSuite.encode .json) = .ok longestSuite := by
  have htiming : longestSuite.timing.Consistent := ⟨by decide, rfl⟩
  have hvalid : longestSuite.firstViolation? = none := by
    rw [Suite.firstViolation?_eq_none_iff]
    refine ⟨htiming, rfl, fun test htest => ?_⟩
    obtain rfl := List.mem_singleton.1 htest
    refine ⟨htiming, fun operation hoperation => ?_⟩
    obtain rfl := List.mem_singleton.1 hoperation
    exact htiming
  obtain ⟨hdecode, hread⟩ := decode_undoes_encode.1 longestSuite (by decide)
  exact ⟨by decide, hvalid, hdecode, hread hvalid⟩

end RunRecord
