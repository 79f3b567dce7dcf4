import RunRecord.Proofs.Report.XmlReader
import RunRecord.Proofs.Xml.Processor
import RunRecord.Report.JsonReader
import RunRecord.Report.Recorder

/-!
# Proofs/Report/XmlProcessor — what a conforming processor reads of an XML report

The writer leaves tabs and line ends as they stand, and a conforming processor does not: from the
document of a suite it reads the suite **normalized**, in whose values each tab and each line end is
a space, and in whose messages each line end is a line feed.  So it reads what was recorded exactly
where there is nothing of that kind to normalize (`processor_reads`).

The processor is stated for any document and in the order that XML prescribes: line ends first, then
the markup, then what stands in attribute values.  None of it is part of the program.  The theorem
says which reports are safe from it, in terms of their strings alone, so that somebody who records a
report can tell in advance.
-/

namespace RunRecord

open Xml

/-- **The suite as a processor reads it**: every value with spaces for tabs and line ends, every
message with line feeds for line ends. -/
def Suite.normalized (suite : Suite) : Suite := suite.mapStrings flat lineFeeds

/-- The suite that a processor reads in a document, from the tree that it makes of it. -/
def Suite.processed? (document : Bytes) : Option Suite :=
  (Xml.process document).bind Suite.ofContent?

namespace Suite

variable {suite : Suite}

/-- A suite of allowed characters is safe as it is, since only characters that are not allowed are
replaced. -/
theorem safe_eq_self
    (h : ∀ s ∈ suite.values ++ suite.messages, ∀ c ∈ s.toList, isAllowed c = true) :
    suite.safe = suite := by
  rw [List.forall_mem_append] at h
  have hsafe : suite.safe = suite.mapStrings Xml.safe Xml.safe := rfl
  rw [hsafe, mapStrings_eq_self_iff]
  exact ⟨fun s hs => safe_of_isAllowed (h.1 s hs), fun s hs => safe_of_isAllowed (h.2 s hs)⟩

/-- **A processor reads the suite normalized.**  The strings are changed one by one; no two of them
are mixed up. -/
theorem processed?_encode
    (h : ∀ s ∈ suite.values ++ suite.messages, ∀ c ∈ s.toList, isAllowed c = true) :
    processed? (suite.encode .xml) = some suite.normalized := by
  have hprocess : Xml.process (suite.encode .xml) = some (suite.normalized.toXml.content 0) := by
    rw [encode, text, process_render suite.isWritable, safeXml_eq, safe_eq_self h,
      Element.normalized, normalized, suite.toXml_mapStrings keeps_flat]
  rw [processed?, hprocess, Option.bind_some, ofContent?_toXml]

/-- There is nothing to normalize if no value has a tab or a line end in it, and no message a
carriage return. -/
theorem normalized_eq_self_iff :
    suite.normalized = suite ↔
      (∀ s ∈ suite.values, ∀ c ∈ s.toList, isBreak c = false) ∧
        ∀ s ∈ suite.messages, '\r' ∉ s.toList := by
  simp only [normalized, mapStrings_eq_self_iff, flat_eq_self_iff, lineFeeds_eq_self_iff]

end Suite

/-- **A conforming processor reads a suite normalized**, and so reads it as it was recorded exactly
if no value has a tab or a line end in it, and no message a carriage return. -/
theorem processor_reads {suite : Suite}
    (h : ∀ s ∈ suite.values ++ suite.messages, ∀ c ∈ s.toList, isAllowed c = true) :
    Suite.processed? (suite.encode .xml) = some suite.normalized ∧
      (Suite.processed? (suite.encode .xml) = some suite ↔
        (∀ s ∈ suite.values, ∀ c ∈ s.toList, isBreak c = false) ∧
          ∀ s ∈ suite.messages, '\r' ∉ s.toList) := by
  rw [Suite.processed?_encode h]
  refine ⟨rfl, ?_⟩
  rw [Option.some.injEq]
  exact Suite.normalized_eq_self_iff

/-- An open suite with a test whose failure is told in two lines. -/
def twoLineSuite : Suite :=
  (Suite.begin "s" blankInstant).addTest
    ((Test.begin "t" false "" false false blankInstant).attachFailure
      { message := "a\nb", kind := "E" })

theorem isAllowed_twoLineSuite :
    ∀ s ∈ twoLineSuite.values ++ twoLineSuite.messages, ∀ c ∈ s.toList, isAllowed c = true := by
  have hall : (twoLineSuite.values ++ twoLineSuite.messages).all
      (fun s => s.toList.all isAllowed) = true := by decide
  exact fun s hs => List.all_eq_true.1 (List.all_eq_true.1 hall s hs)

/-- The two lines are read as one. -/
theorem twoLineSuite_processed :
    (∀ s ∈ twoLineSuite.values ++ twoLineSuite.messages, ∀ c ∈ s.toList, isAllowed c = true) ∧
      ∃ suite, Suite.processed? (twoLineSuite.encode .xml) = some suite ∧
        suite.tests.map (·.failure) = [some { message := "a b", kind := "E" }] :=
  ⟨isAllowed_twoLineSuite, _, (processor_reads isAllowed_twoLineSuite).1, by decide⟩

/-- **Not every suite of allowed characters is read as it was recorded.**  The suite with a failure
told in two lines is not. -/
theorem not_all_processed :
    ¬ ∀ suite : Suite,
      (∀ s ∈ suite.values ++ suite.messages, ∀ c ∈ s.toList, isAllowed c = true) →
        Suite.processed? (suite.encode .xml) = some suite := by
  intro hall
  have h := isAllowed_twoLineSuite
  have hread := (Suite.processed?_encode h).symm.trans (hall twoLineSuite h)
  have hkept := (Suite.normalized_eq_self_iff.1 (Option.some.inj hread)).1 "a\nb" (by decide)
  exact absurd (hkept '\n' (by decide)) (by decide)

end RunRecord
