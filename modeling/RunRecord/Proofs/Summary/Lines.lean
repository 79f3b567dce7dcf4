import RunRecord.Proofs.Elapsed.Rounding
import RunRecord.Proofs.Report.Acceptance
import RunRecord.Proofs.Summary

/-!
# Proofs/Summary/Lines — how many lines a table takes

A table has a **line** for each test, and two more.  Names and failures are shown as they are
recorded, so a line feed in one of them breaks the line it stands in; nothing else can, since the
times of an accepted report are written in digits (`Timing.Consistent.breaks_time`).  What is
printed then has as many lines more as there are line feeds in the texts shown.

The header, a row for each test and the footer are one entry each, and an empty line goes before
them.  So a table that keeps to its lines has three more than tests, and every line feed in a name,
a kind or a message of a failure adds one.
-/

namespace RunRecord

/-! ## Lines of a text

Lines are counted by line feeds.  A text that is printed with a line feed behind it ends one line
more than it has breaks. -/

namespace Text

/-- The lines of a text: what stands before, between and behind its line feeds. -/
def lines (s : String) : List String := (s.toList.splitOn '\n').map String.ofList

/-- The lines that a text ends, each with a line feed. -/
def endedLines (s : String) : List String := (lines s).dropLast

/-- How often a text breaks a line. -/
def breaks (s : String) : Nat := s.toList.count '\n'

theorem breaks_append (s t : String) : breaks (s ++ t) = breaks s + breaks t := by
  rw [breaks, String.toList_append, List.count_append, breaks, breaks]

theorem breaks_eq_zero_iff {s : String} : breaks s = 0 ↔ '\n' ∉ s.toList := List.count_eq_zero

/-- A text has a line more than it has breaks. -/
theorem length_lines (s : String) : (lines s).length = breaks s + 1 := by
  rw [lines, List.length_map, breaks]
  induction s.toList with
  | nil => rfl
  | cons c cs ih =>
    rw [List.splitOn_cons_eq_if_modifyHead, List.count_cons]
    split
    · rw [List.length_cons, ih]
    · rw [List.length_modifyHead, ih, Nat.add_zero]

theorem lines_of_notMem {s : String} (h : '\n' ∉ s.toList) : lines s = [s] := by
  rw [lines, List.splitOn_eq_singleton h, List.map_singleton, String.ofList_toList]

/-- The lines of a text and of what is behind its line feed. -/
theorem lines_append_break (s t : String) : lines (s ++ "\n" ++ t) = lines s ++ lines t := by
  have hbreak : "\n".toList = ['\n'] := rfl
  rw [lines, String.toList_append, String.toList_append, hbreak, List.append_assoc,
    List.singleton_append, List.splitOn_append_cons_self, List.map_append, lines, lines]

/-- **Texts that are printed line by line** take the lines that they have themselves. -/
theorem endedLines_join (texts : List String) :
    endedLines (String.join (texts.map (· ++ "\n"))) = texts.flatMap lines := by
  have hlines : lines (String.join (texts.map (· ++ "\n"))) = texts.flatMap lines ++ [""] := by
    induction texts with
    | nil => rfl
    | cons s texts ih =>
      rw [List.map_cons, String.join_cons, lines_append_break, ih, List.flatMap_cons,
        List.append_assoc]
  rw [endedLines, hlines, List.dropLast_concat]

theorem breaks_padRight (width : Nat) (s : String) : breaks (padRight width s) = breaks s := by
  rw [padRight, breaks_append, breaks, breaks, String.toList_ofList, List.count_replicate]
  rfl

theorem breaks_padLeft (width : Nat) (s : String) : breaks (padLeft width s) = breaks s := by
  rw [padLeft, breaks_append, breaks, breaks, String.toList_ofList, List.count_replicate]
  exact Nat.zero_add _

/-- A number is written in digits. -/
theorem breaks_repr (n : Nat) : breaks n.repr = 0 := by
  rw [breaks_eq_zero_iff, Nat.toList_repr]
  intro h
  exact absurd (Nat.isDigit_of_mem_toDigits (by decide) (by decide) h) (by decide)

/-- Texts have as many lines more than there are texts as they have breaks. -/
theorem length_flatMap_lines (texts : List String) :
    (texts.flatMap lines).length = texts.length + (texts.map breaks).sum := by
  induction texts with
  | nil => rfl
  | cons s texts ih =>
    rw [List.flatMap_cons, List.length_append, length_lines, ih, List.map_cons, List.sum_cons,
      List.length_cons]
    omega

theorem flatMap_lines_of_notMem {texts : List String} (h : ∀ s ∈ texts, '\n' ∉ s.toList) :
    texts.flatMap lines = texts := by
  induction texts with
  | nil => rfl
  | cons s texts ih =>
    obtain ⟨hs, htexts⟩ := List.forall_mem_cons.1 h
    rw [List.flatMap_cons, lines_of_notMem hs, ih htexts, List.singleton_append]

theorem sum_breaks_eq_zero_iff {texts : List String} :
    (texts.map breaks).sum = 0 ↔ ∀ s ∈ texts, '\n' ∉ s.toList := by
  rw [List.sum_eq_zero_iff_forall_eq_nat, List.forall_mem_map]
  exact forall₂_congr fun _ _ => breaks_eq_zero_iff

end Text

open Text

/-! ## Times -/

/-- An elapsed time is written in digits, with a point and perhaps a sign. -/
theorem breaks_elapsed (start stop : Instant) : breaks (elapsed start stop) = 0 := by
  rw [breaks_eq_zero_iff, elapsed, String.toList_ofList]
  let d := Elapsed.decimals (start.span stop)
  have hwhole : '\n' ∉ d.whole := fun h => absurd (d.isDigit_of_mem_whole _ h) (by decide)
  have hfraction : '\n' ∉ d.fraction := fun h =>
    absurd (d.isDigit_of_mem_fraction _ h) (by decide)
  rw [d.text_eq]
  cases d.negative <;> simp [hwhole, hfraction]

/-- A consistent timing has a time without line breaks. -/
theorem Timing.Consistent.breaks_time {t : Timing} (h : t.Consistent) : breaks t.time = 0 := by
  unfold Consistent at h
  split at h
  · rw [h]
    rfl
  · rw [h.2]
    exact breaks_elapsed _ _

theorem breaks_durationText (time : String) : breaks (durationText time) = breaks time := by
  unfold durationText
  split
  · next h =>
    rw [h]
    rfl
  · exact breaks_append time "s"

/-! ## Rows

A row shows the name of its test and, if it failed, the kind and the message of the failure.  Names
of steps and operations are not shown in it. -/

/-- The texts of a test that its row shows as they are. -/
def Test.shownTexts (test : Test) : List String :=
  test.name :: (test.failure.map fun failure => [failure.kind, failure.message]).getD []

/-- The texts of a suite that its table shows as they are. -/
def Suite.shownTexts (suite : Suite) : List String :=
  suite.name :: suite.tests.flatMap Test.shownTexts

theorem Failure.breaks_detail_eq (failure : Failure) :
    breaks failure.detail = breaks failure.kind + breaks failure.message := by
  have hopen : breaks "  (" = 0 := rfl
  have hcolon : breaks ": " = 0 := rfl
  have hclose : breaks ")" = 0 := rfl
  change breaks ("  (" ++ failure.kind ++ ": " ++ failure.message ++ ")") = _
  rw [breaks_append, breaks_append, breaks_append, breaks_append, hopen, hcolon, hclose]
  omega

theorem Status.breaks_cell (status : Status) : breaks status.cell = 0 := by
  cases status <;> decide

/-- **A row breaks where its test's texts do.**  Its time has no line break, and the rest of it is
fixed. -/
theorem Row.breaks_plain_ofTest {test : Test} (h : test.timing.Consistent) :
    breaks (Row.ofTest test).plain = (test.shownTexts.map breaks).sum := by
  have hlead : breaks "  - " = 0 := rfl
  have hbar : breaks " | " = 0 := rfl
  have hbody : breaks (Row.ofTest test).body = breaks test.name := by
    rw [ofTest, breaks_append, breaks_append, breaks_padRight, breaks_padLeft, breaks_durationText,
      h.breaks_time, hbar]
    rfl
  have hdetail : breaks ((Row.ofTest test).detail.getD "")
      = (((test.failure.map fun failure => [failure.kind, failure.message]).getD []).map
          breaks).sum := by
    rw [ofTest]
    cases test.failure with
    | none => rfl
    | some failure => exact failure.breaks_detail_eq.trans (by simp)
  have hcell : breaks (Row.ofTest test).status.cell = 0 := (Row.ofTest test).status.breaks_cell
  rw [plain, assemble, breaks_append, breaks_append, breaks_append, breaks_append, hlead,
    hbar, hbody, hcell, hdetail, Test.shownTexts, List.map_cons, List.sum_cons]
  omega

/-! ## The table -/

namespace Suite

variable {suite : Suite}

theorem breaks_header (suite : Suite) : breaks suite.header = breaks suite.name := by
  have hlead : breaks "--- " = 0 := rfl
  have htrail : breaks " ---" = 0 := rfl
  change breaks ("--- " ++ suite.name ++ " ---") = _
  rw [breaks_append, breaks_append, hlead, htrail, Nat.zero_add, Nat.add_zero]

theorem Consistent.breaks_footer (h : suite.Consistent) : breaks suite.footer = 0 := by
  have htests : breaks " tests, " = 0 := rfl
  have hfailed : breaks " failed, total " = 0 := rfl
  change breaks (suite.tests.length.repr ++ " tests, " ++ suite.failedCount.repr ++
    " failed, total " ++ durationText suite.timing.time) = 0
  rw [breaks_append, breaks_append, breaks_append, breaks_append, breaks_repr, breaks_repr, htests,
    hfailed, breaks_durationText, h.1.breaks_time]

/-- **A table breaks where its texts do.**  The header shows the name of the suite, each row the
texts of its test, and the footer numbers. -/
theorem Consistent.sum_breaks (h : suite.Consistent) :
    (suite.summaryLines.map breaks).sum = (suite.shownTexts.map breaks).sum := by
  have hrows : (suite.rows.map Row.plain).map breaks
      = suite.tests.map fun test => (test.shownTexts.map breaks).sum := by
    rw [rows, List.map_map, List.map_map]
    exact List.map_congr_left fun test htest => Row.breaks_plain_ofTest (h.2.2 test htest).1
  rw [summaryLines, shownTexts, List.map_cons, List.map_cons, List.sum_cons, List.sum_cons,
    breaks_header, List.map_append, List.sum_append, hrows, List.map_singleton,
    List.sum_singleton, h.breaks_footer, Nat.add_zero, List.map_flatMap, List.flatMap_def,
    List.sum_flatten, List.map_map]
  rfl

theorem length_summaryLines (suite : Suite) :
    suite.summaryLines.length = suite.tests.length + 2 := by
  simp [summaryLines, rows]

/-- Without colours, the lines that are printed are those of the lines of the table. -/
theorem endedLines_printSummary (suite : Suite) :
    endedLines (suite.printSummary false) = "" :: suite.summaryLines.flatMap lines := by
  have hprinted : suite.printSummary false
      = String.join (("" :: suite.summaryLines).map (· ++ "\n")) := by
    rw [printSummary, suite.printedLines_false, List.map_cons, String.join_cons]
    rfl
  rw [hprinted, endedLines_join]
  rfl

theorem Consistent.length_endedLines (h : suite.Consistent) :
    (endedLines (suite.printSummary false)).length
      = suite.tests.length + 3 + (suite.shownTexts.map breaks).sum := by
  rw [endedLines_printSummary, List.length_cons, length_flatMap_lines, h.sum_breaks,
    length_summaryLines]
  omega

theorem Consistent.summaryLines_iff (h : suite.Consistent) :
    (∀ line ∈ suite.summaryLines, '\n' ∉ line.toList) ↔
      ∀ text ∈ suite.shownTexts, '\n' ∉ text.toList := by
  rw [← sum_breaks_eq_zero_iff, h.sum_breaks, sum_breaks_eq_zero_iff]

end Suite

/-- **A table takes a line for each test and three more, and as many more as there are line breaks
in the texts it shows.**  So it has one line for each test exactly if none of these texts has a line
break. -/
theorem length_endedLines_printSummary {document : Bytes} {suite : Suite}
    (h : Suite.read document = .ok suite) :
    suite.summaryLines.length = suite.tests.length + 2 ∧
      (endedLines (suite.printSummary false)).length
        = suite.tests.length + 3 + (suite.shownTexts.map breaks).sum ∧
      ((∀ line ∈ suite.summaryLines, '\n' ∉ line.toList) ↔
        ∀ text ∈ suite.shownTexts, '\n' ∉ text.toList) ∧
      (endedLines (suite.printSummary false) = "" :: suite.summaryLines ↔
        ∀ text ∈ suite.shownTexts, '\n' ∉ text.toList) := by
  have hconsistent := (Suite.read_eq_ok_iff.1 h).2
  have hlength := hconsistent.length_endedLines
  refine ⟨suite.length_summaryLines, hlength, hconsistent.summaryLines_iff, fun heq => ?_,
    fun htexts => ?_⟩
  · rw [heq, List.length_cons, Suite.length_summaryLines] at hlength
    exact sum_breaks_eq_zero_iff.1 (by omega)
  · rw [Suite.endedLines_printSummary,
      flatMap_lines_of_notMem (hconsistent.summaryLines_iff.2 htexts)]

/-- An open suite with a test that failed for a reason told in two lines. -/
def twoLineReason : Suite :=
  (Suite.begin "s" firstInstant).addTest
    ((Test.begin "t" false "" false false firstInstant).attachFailure
      { message := "expected 1\nfound 2", kind := "E" })

theorem twoLineReason_read : Suite.read (twoLineReason.encode .json) = .ok twoLineReason :=
  Suite.read_encode_ok (by decide) rfl

/-- The reason breaks the row of its test, so the table of one test takes five lines. -/
theorem twoLineReason_breaks :
    Suite.read (twoLineReason.encode .json) = .ok twoLineReason ∧
      (¬ ∀ line ∈ twoLineReason.summaryLines, '\n' ∉ line.toList) ∧
      (endedLines (twoLineReason.printSummary false)).length = 5 := by
  obtain ⟨-, hlength, hlines, -⟩ := length_endedLines_printSummary twoLineReason_read
  exact ⟨twoLineReason_read, fun h => absurd (hlines.1 h) (by decide), hlength⟩

/-- **Not every table has one line for each test.**  The suite with a reason told in two lines has
not. -/
theorem not_all_rows_are_lines :
    (¬ ∀ (document : Bytes) (suite : Suite), Suite.read document = .ok suite →
      ∀ line ∈ suite.summaryLines, '\n' ∉ line.toList) ∧
    ¬ ∀ (document : Bytes) (suite : Suite), Suite.read document = .ok suite →
      (endedLines (suite.printSummary false)).length = suite.tests.length + 3 := by
  have hconsistent := (Suite.read_eq_ok_iff.1 twoLineReason_read).2
  refine ⟨fun hall => ?_, fun hall => ?_⟩
  · exact absurd (hconsistent.summaryLines_iff.1 (hall _ _ twoLineReason_read)) (by decide)
  · exact absurd (hconsistent.length_endedLines.symm.trans (hall _ _ twoLineReason_read))
      (by decide)

end RunRecord
