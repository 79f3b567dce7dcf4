import RunRecord.Proofs.Json.Cut
import RunRecord.Proofs.Report.Presentation

/-!
# Proofs/Report/Truncation — no part of a report is taken for a report

A document is not written at one stroke, so a reader may meet the beginning of one, or a shorter one
in front of what is left of a longer one.  Neither is taken for a report.

Every member that a node writes is familiar to its record (`Json.Shape.Familiar`), so its reader is
firm on its document: wherever that is cut, the reader misses the closing brace and complains about
nothing else.  What stands behind the closing brace is never read, so it is refused unless it is
white space.

Being firm is proved for readers in general; what is particular to a report is that all of its
members are known to their records, so the reader never passes over a value it does not know.  Where
it does, in documents of others, a cut may show as another error than a missing end.  The failure
count is the one number in a report, and a number that is cut is a shorter number: it is steady
only, not firm.
-/

namespace RunRecord

open Json

/-! ## Nodes

What is shown of a node is assembled from its members, as its reader is.  A list has elements of one
kind, so it is enough to look at one of them. -/

/-- A string that is cut has no closing quote. -/
theorem firmOn_string (s : String) : textValue.FirmOn (Json.string s).tree :=
  (firm_textFor .text).firmOn _

/-- An instant that is cut is a string that is. -/
theorem Instant.firmOn_toJson (t : Instant) : instantValue.FirmOn t.toJson.tree :=
  firm_instantValue.firmOn _

/-- A count that is cut is still a count, so only what stands behind it tells. -/
theorem steadyOn_ofNat (n : Nat) : countValue.SteadyOn (Json.ofNat n).tree :=
  fun p q _ _ => steady_countValue p q

theorem OperationKind.firmOn_name (kind : OperationKind) :
    OperationKind.reader.FirmOn (Json.string kind.name).tree := firmOn_choiceValue _ _ _

/-- A list that is cut lacks its closing bracket, or one of its elements is cut. -/
theorem firmOn_array {β : Type} {item : Reader β} (hexact : item.IsExact) {f : β → Json}
    (hitem : ∀ y, item.FirmOn (f y).tree) (ys : List β) :
    (listValue item).FirmOn (Json.array (ys.map f)).tree := by
  rw [tree, trees_eq_map, List.map_map]
  refine Reader.SteadyOn.listValue hexact fun v hv => ?_
  obtain ⟨y, -, rfl⟩ := List.mem_map.1 hv
  exact (hitem y).steadyOn

/-- Wherever a failure is cut, its reader misses the end. -/
theorem Failure.firmOn_toJson (failure : Failure) :
    Failure.shape.reader.FirmOn failure.toJson.tree :=
  Shape.firmOn_object Failure.fits.orderly <|
    .required (firmOn_string failure.message).steadyOn <|
    .required (firmOn_string failure.kind).steadyOn .nil

theorem Operation.firmOn_toJson (operation : Operation) :
    Operation.shape.reader.FirmOn operation.toJson.tree := by
  have hfamiliar : Shape.Familiar Operation.shape.members _ :=
    .required (firmOn_string operation.name).steadyOn <|
    .required operation.timing.start.firmOn_toJson.steadyOn <|
    .ofOption Instant.toJson operation.timing.stop Instant.firmOn_toJson (isCut_error rfl) <|
    .always (firmOn_string operation.timing.time).steadyOn <|
    .always (firmOn_string operation.result).steadyOn <|
    .ofOption Json.string operation.message firmOn_string (isCut_error rfl) <|
    .required operation.kind.firmOn_name.steadyOn .nil
  simpa only [Operation.toJson, Timing.jsonMembers, List.append_assoc, List.append_nil]
    using Shape.firmOn_object Operation.fits.orderly hfamiliar

theorem Step.firmOn_toJson (step : Step) : Step.shape.reader.FirmOn step.toJson.tree := by
  have hfamiliar : Shape.Familiar Step.shape.members _ :=
    .writtenUnless (step.name == "") (firmOn_string step.name).steadyOn <|
    .writtenUnless step.operations.isEmpty (firmOn_array Operation.fits.orderly.isExact
      Operation.firmOn_toJson step.operations).steadyOn .nil
  simpa only [Step.toJson, List.append_assoc, List.append_nil]
    using Shape.firmOn_object Step.fits.orderly hfamiliar

theorem Test.firmOn_toJson (test : Test) : Test.shape.reader.FirmOn test.toJson.tree := by
  have hflag : ∀ b, booleanValue.SteadyOn (Json.boolean b).tree := fun b =>
    (firm_booleanValue.firmOn _).steadyOn
  have hfamiliar : Shape.Familiar Test.shape.members _ :=
    .required (firmOn_string test.name).steadyOn <|
    .required test.timing.start.firmOn_toJson.steadyOn <|
    .ofOption Instant.toJson test.timing.stop Instant.firmOn_toJson (isCut_error rfl) <|
    .always (firmOn_string test.timing.time).steadyOn <|
    .ofOption Failure.toJson test.failure Failure.firmOn_toJson (isCut_error rfl) <|
    .writtenUnless test.steps.isEmpty
      (firmOn_array Step.fits.orderly.isExact Step.firmOn_toJson test.steps).steadyOn <|
    .writtenUnless (!test.concurrent) (hflag test.concurrent) <|
    .writtenUnless (test.scope == "") (firmOn_string test.scope).steadyOn <|
    .writtenUnless (!test.skip) (hflag test.skip) <|
    .writtenUnless (!test.skipDelete) (hflag test.skipDelete) .nil
  simpa only [Test.toJson, Timing.jsonMembers, List.append_assoc, List.append_nil]
    using Shape.firmOn_object Test.fits.orderly hfamiliar

/-- **Wherever a suite is cut, its reader misses the end.** -/
theorem Suite.firmOn_toJson (suite : Suite) : Suite.shape.reader.FirmOn suite.toJson.tree := by
  have hfamiliar : Shape.Familiar Suite.shape.members _ :=
    .required (firmOn_string suite.name).steadyOn <|
    .required suite.timing.start.firmOn_toJson.steadyOn <|
    .ofOption Instant.toJson suite.timing.stop Instant.firmOn_toJson (isCut_error rfl) <|
    .always (firmOn_string suite.timing.time).steadyOn <|
    .always (firmOn_array Test.fits.orderly.isExact Test.firmOn_toJson suite.tests).steadyOn <|
    .always (steadyOn_ofNat suite.failures) .nil
  simpa only [Suite.toJson, Timing.jsonMembers, List.append_assoc, List.cons_append,
    List.nil_append, List.append_nil] using Shape.firmOn_object Suite.fits.orderly hfamiliar

/-! ## Documents

A document begins with a brace and ends with its closing brace.  So no proper part of it holds the
whole value, and nothing but white space may follow it. -/

/-- A document of a suite begins with a value and ends with it. -/
theorem Suite.run_encode (suite : Suite) (h : suite.failures < wordSize) :
    Suite.shape.reader.run (suite.encode .json) = .ok (suite, []) := by
  have hrun := suite.reads_toJson h .indented 0 [] [] spaces_nil delimited_nil
  rwa [List.nil_append, List.append_nil] at hrun

/-- The document of a suite presents the tree of its value. -/
theorem Suite.presents_encode (suite : Suite) : Presents (suite.encode .json) suite.toJson.tree :=
  presents_render .indented _

/-- **No part of a report is taken for a report**, nor is a report with more behind it.  The first
is told as a missing end, the second as superfluous characters; the two are told apart by the
category of the error. -/
theorem read_truncated (suite : Suite) (h : suite.failures < wordSize) :
    (∀ part, part <+: suite.encode .json → part ≠ suite.encode .json →
      ∃ e, Suite.read part = .error (.unreadable e) ∧ e.cause.category = .cut) ∧
    ∀ rest : Bytes, (∃ b ∈ rest, Reader.isSpace b = false) →
      ∃ e, Suite.read (suite.encode .json ++ rest) = .error (.unreadable e) ∧
        e.cause.category = .malformed := by
  have hrun := suite.run_encode h
  have hpresents := suite.presents_encode
  refine ⟨?_, fun rest hrest => ?_⟩
  · rintro part ⟨q, hq⟩ hne
    obtain ⟨r, hv, -⟩ := hpresents
    rw [← hq] at hrun hv hne
    have hq : q ≠ [] := by
      rintro rfl
      exact hne (List.append_nil part).symm
    obtain ⟨e, he, hcut⟩ := decode_of_firmAt (suite.firmOn_toJson part q r hv) hrun hq
    exact ⟨e, by rw [Suite.read, Suite.decode, he], hcut⟩
  · have htakes : Suite.shape.reader.Takes suite.toJson.tree suite := by
      obtain ⟨r, hv, -⟩ := hpresents
      exact Suite.fits.orderly.isExact.of_run hrun hv
    have hspace : rest.dropWhile Reader.isSpace ≠ [] := by
      rw [Ne, List.dropWhile_eq_nil_iff]
      obtain ⟨b, hb, hspace⟩ := hrest
      exact fun hall => by simp [hall b hb] at hspace
    obtain ⟨e, he, hmalformed⟩ := decode_append hpresents htakes rfl hspace
    exact ⟨e, by rw [Suite.read, Suite.decode, he], hmalformed⟩

/-- A report cut inside a character breaks off, and one with a second brace is malformed. -/
theorem longestSuite_truncated :
    longestSuite.failures < wordSize ∧
      (∃ e, Suite.read ((longestSuite.encode .json).takeWhile (· != 0xA9)) =
        .error (.unreadable e) ∧ e.cause.category = .cut) ∧
      ∃ e, Suite.read (longestSuite.encode .json ++ [0x20, 0x7D]) = .error (.unreadable e) ∧
        e.cause.category = .malformed := by
  obtain ⟨hcut, hoverlong⟩ := read_truncated longestSuite (by decide)
  exact ⟨by decide, hcut _ (List.takeWhile_prefix _) (by decide +kernel),
    hoverlong _ ⟨0x7D, by decide, by decide⟩⟩

end RunRecord
