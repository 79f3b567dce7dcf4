import Mathlib.Data.List.Forall2
import RunRecord.Proofs.Terminal
import RunRecord.Summary

/-!
# Proofs/Summary — the table in colours and without

In colours the header, the footer, and the status and the detail of each row are painted.  Whatever
stands behind a painted text starts with a blank, a line break or an escape, so no sequence that a
name or a message leaves open reaches across (`Row.strip_render`, `strip_table`).

Nothing is asked of the texts of a report: they may hold sequences of their own, begun, whole or
broken off, and they are removed with the others or stay, but in the same way in both tables.
-/

namespace RunRecord

open Terminal

/-! ## Rows

A row is written twice in the program, once as plain text and once in colours.  Both are taken apart
into the same cells here. -/

theorem Failure.breaks_detail (failure : Failure) : Breaks failure.detail.toList := by
  simp only [detail, String.toList_append, List.append_assoc]
  exact breaks_cons (by decide) _

/-- The detail of a test starts with a blank. -/
theorem Row.breaks_detail_ofTest (test : Test) :
    ∀ detail ∈ (Row.ofTest test).detail, Breaks detail.toList := by
  intro detail hdetail
  obtain ⟨failure, -, rfl⟩ := Option.map_eq_some_iff.1 hdetail
  exact failure.breaks_detail

/-- Without colours a row is printed as plain text: what is painted is left as it is. -/
theorem Row.render_false (row : Row) : row.render false = row.plain := by
  rw [render, plain]
  cases row.detail <;> rfl

/-- **A row shows the same in colours.**  Its detail, if there is one, begins with a blank, so
nothing is carried on into it. -/
theorem Row.strip_render (row : Row) (h : ∀ detail ∈ row.detail, Breaks detail.toList)
    (colours : Bool) : strip (row.render colours).toList = strip row.plain.toList := by
  have hdetail : ∀ colours, strip ((row.detail.map (paint colours [.red])).getD "").toList
      = strip (row.detail.getD "").toList ∧
        Breaks ((row.detail.map (paint colours [.red])).getD "").toList := by
    intro colours
    cases hrow : row.detail with
    | none => exact ⟨rfl, nofun⟩
    | some detail => exact ⟨strip_paint _ _ _, breaks_paint (h detail hrow)⟩
  have hrender : ∀ colours, strip (row.render colours).toList =
      "  - ".toList ++ (strip row.status.cell.toList ++
        (strip (" | " ++ row.body).toList ++ strip (row.detail.getD "").toList)) := by
    intro colours
    obtain ⟨hstrip, hbreaks⟩ := hdetail colours
    have hbody : Breaks ((" | " ++ row.body).toList ++
        ((row.detail.map (paint colours [.red])).getD "").toList) := by
      rw [String.toList_append]
      exact breaks_cons (by decide) _
    have hlead : escape ∉ "  - ".toList := by decide
    rw [render, assemble, String.append_assoc, String.append_assoc, String.append_assoc,
      String.toList_append, String.toList_append, ← String.append_assoc, String.toList_append,
      strip_append_of_notMem hlead, strip_append _ hbody, strip_append _ hbreaks, strip_paint,
      hstrip]
  rw [← row.render_false, hrender, hrender]

/-! ## The table -/

/-- **Lines that show the same make tables that show the same**, since a line break carries on no
sequence. -/
theorem strip_table {lines lines' : List String}
    (h : List.Forall₂ (fun s t => strip s.toList = strip t.toList) lines lines') :
    strip ("\n" ++ String.join (lines.map (· ++ "\n"))).toList
      = strip ("\n" ++ String.join (lines'.map (· ++ "\n"))).toList := by
  have hbreak : escape ∉ "\n".toList := by decide
  have hcons : ∀ (s : String) (lines : List String),
      strip ("\n" ++ String.join ((s :: lines).map (· ++ "\n"))).toList = "\n".toList ++
        (strip s.toList ++ strip ("\n" ++ String.join (lines.map (· ++ "\n"))).toList) := by
    intro s lines
    have hseam : Breaks ("\n" ++ String.join (lines.map (· ++ "\n"))).toList := by
      rw [String.toList_append]
      exact breaks_cons (by decide) _
    rw [List.map_cons, String.join_cons, String.append_assoc, String.toList_append,
      strip_append_of_notMem hbreak, String.toList_append, strip_append _ hseam]
  induction h with
  | nil => rfl
  | cons hline _ ih => rw [hcons, hcons, hline, ih]

/-- Every line shows the same in colours. -/
theorem Suite.strip_printedLines (suite : Suite) (colours : Bool) :
    List.Forall₂ (fun s t => strip s.toList = strip t.toList) (suite.printedLines colours)
      suite.summaryLines := by
  have hrows : List.Forall₂ (fun s t => strip s.toList = strip t.toList)
      (suite.rows.map (Row.render colours)) (suite.rows.map Row.plain) := by
    rw [List.forall₂_map_left_iff, List.forall₂_map_right_iff, List.forall₂_same]
    intro row hrow
    obtain ⟨test, -, rfl⟩ := List.mem_map.1 hrow
    exact Row.strip_render _ (Row.breaks_detail_ofTest test) colours
  exact .cons (strip_paint _ _ _) (List.rel_append hrows (.cons (strip_paint _ _ _) .nil))

/-- Without colours the printed lines are the plain ones. -/
theorem Suite.printedLines_false (suite : Suite) :
    suite.printedLines false = suite.summaryLines := by
  have hrows : suite.rows.map (Row.render false) = suite.rows.map Row.plain :=
    List.map_congr_left fun row _ => row.render_false
  rw [printedLines, summaryLines, hrows]
  rfl

/-- **The table shows the same in colours and without.**  Without colours it is printed line by line
as it is; in colours it is that table but for control sequences, whatever sequences are in the
names and the messages themselves. -/
theorem colours_show_same_text (suite : Suite) :
    let table := "\n" ++ String.join (suite.summaryLines.map (· ++ "\n"))
    suite.printSummary false = table ∧
      strip (suite.printSummary true).toList = strip table.toList := by
  refine ⟨?_, strip_table (suite.strip_printedLines true)⟩
  rw [Suite.printSummary, suite.printedLines_false]

end RunRecord
