import Mathlib.Data.List.Forall2
import RunRecord.Keyed
import RunRecord.Proofs.Toml.Layout

/-!
# Proofs/Toml/Document — the table of a document of settings

The pairs of a document of settings are put into one table at its root, from where they are read
back by their keys.  Nothing can be in the way: each key has one part and is set once, and strings
have no range to exceed (`DocumentSets.read_eq`).

Tables in general can be opened by headers, nested and extended, and there are rules on what may be
set where.  A document of settings uses none of that, and this is what has to be shown: that its
lines are seen as pairs at the root, and that each new pair finds its key free.
-/

namespace RunRecord.Toml

/-! ## Lines -/

/-- **The pairs of some lines are their entries**, and there are no more lines than equals signs. -/
theorem LinesSet.exists_pairs {cs : List Char} {entries : List (String × String)}
    (h : LinesSet cs entries) :
    ∃ pairs, List.Forall₂ Pair.Gives pairs entries ∧ entries.length ≤ equalsIn (tokens cs) ∧
      ∀ fuel soFar, linesFrom (fuel + 1 + entries.length) soFar (tokens cs)
        = some (soFar.reverse ++ pairs.map Line.pair) := by
  induction h with
  | @last line entries hline =>
    obtain ⟨pairs, hgives, hpairs⟩ := hline.exists_pairs
    obtain ⟨hle, hfrom⟩ := hpairs [] [] (by simp [Stops]) (by rw [tokens_nil]; rfl)
    rw [List.append_nil] at hle hfrom
    refine ⟨pairs, hgives, hle, fun fuel soFar => ?_⟩
    rw [hfrom, linesFrom, trivia]
    · simp
    all_goals simp
  | @more line br rest entries others hline hbr _ ih =>
    obtain ⟨pairs, hgives, hpairs⟩ := hline.exists_pairs
    obtain ⟨more, hmore, hleMore, hfromMore⟩ := ih
    have hafter : lineEnd (tokens (br ++ rest)) = some (tokens rest) := by
      rw [hbr.tokens_eq]
      rfl
    obtain ⟨hle, hfrom⟩ := hpairs (br ++ rest) (tokens rest) (hbr.stops rest) hafter
    refine ⟨pairs ++ more, List.rel_append hgives hmore, ?_, fun fuel soFar => ?_⟩
    · rw [List.length_append]
      omega
    · have hfuel : fuel + 1 + (entries ++ others).length
          = fuel + 1 + others.length + entries.length := by
        rw [List.length_append]
        omega
      rw [hfuel, hfrom, hfromMore]
      simp

/-- **A document that sets keys to basic strings**, each of them once; a byte order mark may stand
in front. -/
structure DocumentSets (document : List Char) (entries : List (String × String)) : Prop where
  nodup : (entries.map Prod.fst).Nodup
  lines : ∃ lines, LinesSet lines entries ∧ (document = lines ∨ document = '\uFEFF' :: lines)

/-- **Every choice of texts for different keys** is what some document sets.  Each key is set on a
line of its own. -/
theorem exists_documentSets {entries : List (String × String)}
    (h : (entries.map Prod.fst).Nodup) : ∃ document, DocumentSets document entries := by
  suffices hlines : ∃ lines, LinesSet lines entries by
    obtain ⟨lines, hlines⟩ := hlines
    exact ⟨lines, h, lines, hlines, .inl rfl⟩
  clear h
  induction entries with
  | nil => exact ⟨_, .last (.blank (nofun : IsGap []) .none)⟩
  | cons entry entries ih =>
    obtain ⟨rest, hrest⟩ := ih
    obtain ⟨key, hkey⟩ := exists_basicString entry.1.toList
    obtain ⟨body, hbody⟩ := exists_basicString entry.2.toList
    have hgap : IsGap [] := nofun
    have hline := LineSets.setting hgap (.basic hkey) hgap hgap hbody hgap .none
    rw [String.ofList_toList, String.ofList_toList] at hline
    exact ⟨_, .more hline .lineFeed hrest⟩

theorem Outline.ofLines_pairs (pairs : List Pair) :
    Outline.ofLines (pairs.map Line.pair) = { pairs, blocks := [] } := by
  induction pairs with
  | nil => rfl
  | cons pair pairs ih =>
    change Outline.cons (.pair pair) (Outline.ofLines (pairs.map Line.pair)) = _
    rw [ih]
    rfl

/-- **The outline of a document of settings** has their pairs and no headers.  There is fuel for
each token, and that is enough, since every setting has an equals sign of its own. -/
theorem DocumentSets.exists_pairs {document : List Char} {entries : List (String × String)}
    (h : DocumentSets document entries) :
    ∃ pairs, List.Forall₂ Pair.Gives pairs entries ∧
      outline? document = some { pairs, blocks := [] } := by
  obtain ⟨cs, hcs, hdocument⟩ := h.lines
  obtain ⟨pairs, hgives, hle, hfrom⟩ := hcs.exists_pairs
  have hlines : lines? document = some (pairs.map Line.pair) := by
    have htext : (if document.head? = some '\uFEFF' then document.drop 1 else document) = cs := by
      rcases hdocument with rfl | rfl
      · exact if_neg (hcs.head?_ne)
      · rfl
    have hcount : equalsIn (tokens cs) ≤ (tokens cs).length := List.count_le_length
    obtain ⟨fuel, hfuel⟩ := Nat.exists_eq_add_of_le (Nat.le_trans hle hcount)
    have hfuel' : (tokens cs).length + 1 = fuel + 1 + entries.length := by omega
    rw [lines?, htext, hfuel']
    exact hfrom fuel []
  refine ⟨pairs, hgives, ?_⟩
  rw [outline?, hlines, Option.map_some, Outline.ofLines_pairs]

/-! ## The table

A table keeps its keys in the order in which they were set, and looks them up from the front.  As
each key is set once, the order of the lines does not matter to what is looked up. -/

/-- The table with some keys, each of which leads to a string. -/
def Table.ofEntries (entries : List (String × String)) : Table :=
  .mk .header (entries.map fun entry => (entry.1, .scalar (.string entry.2)))

theorem Table.get?_ofEntries (entries : List (String × String)) (key : String) :
    (Table.ofEntries entries).get? key = (entries.lookup key).map (.scalar ∘ .string) := by
  change (entries.map fun entry => (entry.1, Item.scalar (.string entry.2))).lookup key = _
  induction entries with
  | nil => rfl
  | cons entry entries ih =>
    rw [List.map_cons, List.lookup_cons, List.lookup_cons, ih]
    cases key == entry.1 <;> rfl

/-- A key that is new is put at the end. -/
theorem Table.define_ofEntries {entries : List (String × String)} {entry : String × String}
    (h : entry.1 ∉ entries.map Prod.fst) :
    (Table.ofEntries entries).define [] entry.1 (.scalar (.string entry.2))
      = .ok (Table.ofEntries (entries ++ [entry])) := by
  have hnew : (Table.ofEntries entries).get? entry.1 = none := by
    rw [Table.get?_ofEntries, Keyed.lookup_eq_none_iff.2 h, Option.map_none]
  have hadd : (Table.ofEntries entries).insert? entry.1 (.scalar (.string entry.2))
      = some (Table.ofEntries (entries ++ [entry])) := by
    rw [Table.insert?, Table.put, hnew]
    simp [Table.ofEntries, Table.origin, Table.entries]
  change orMalformed ((Table.ofEntries entries).insert? entry.1 (.scalar (.string entry.2))) = _
  rw [hadd]
  rfl

/-- **Pairs of settings are put behind the others.**  They are put there in their order, as no key
of them is among those before. -/
theorem withPairs_eq {pairs : List Pair} {entries : List (String × String)}
    (h : List.Forall₂ Pair.Gives pairs entries) (before : List (String × String))
    (hnodup : ((before ++ entries).map Prod.fst).Nodup) :
    Layout.withPairs (.ofEntries before) pairs = .ok (.ofEntries (before ++ entries)) := by
  induction h generalizing before with
  | nil =>
    rw [Layout.withPairs, List.append_nil]
    rfl
  | @cons pair entry pairs entries hpair _ ih =>
    obtain ⟨key, value, rfl, hkey, hvalue⟩ := hpair
    have hnew : entry.1 ∉ before.map Prod.fst := by
      intro hmem
      rw [List.map_append] at hnodup
      exact (List.nodup_append.1 hnodup).2.2 _ hmem _ List.mem_cons_self rfl
    have haddress : Key.address { first := key, more := [] }
        = .ok { path := [], name := entry.1 } := by
      rw [Key.address, hkey]
      rfl
    have hitem : (Layout.plain value).item = .ok (.scalar (.string entry.2)) := by
      rw [Layout.item, hvalue]
      rfl
    rw [Layout.withPairs, haddress, hitem]
    simp only [bind, Except.bind, Table.define_ofEntries hnew]
    rw [ih]
    · simp
    · simpa using hnodup

/-- Strings have no range to exceed. -/
theorem pairsInRange {pairs : List Pair} {entries : List (String × String)}
    (h : List.Forall₂ Pair.Gives pairs entries) : Layout.pairsInRange pairs = true := by
  induction h with
  | nil => rfl
  | cons hpair _ ih =>
    obtain ⟨key, value, rfl, -, hvalue⟩ := hpair
    rw [Layout.pairsInRange, ih, Layout.isInRange, hvalue]
    rfl

/-- **A document of settings is read as what it sets**, with or without a byte order mark, whatever
its gaps, comments and blank lines. -/
theorem DocumentSets.read_eq {document : List Char} {entries : List (String × String)}
    (h : DocumentSets document entries) : Toml.read document = .ok (.ofEntries entries) := by
  obtain ⟨pairs, hgives, houtline⟩ := h.exists_pairs
  have htable : Outline.table { pairs, blocks := [] } = .ok (.ofEntries entries) := by
    have hempty : Table.empty .header = .ofEntries [] := rfl
    rw [Outline.table, hempty, withPairs_eq hgives [] h.nodup]
    rfl
  rw [Toml.read, houtline]
  simp only [orMalformed, bind, Except.bind, htable]
  exact if_pos (Bool.and_eq_true_iff.2 ⟨pairsInRange hgives, rfl⟩)

end RunRecord.Toml
