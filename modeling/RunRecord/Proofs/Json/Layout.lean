import RunRecord.Proofs.Json.Spelling
import RunRecord.Proofs.Text.Utf8

/-!
# Proofs/Json/Layout — what is written is JSON, and its layout is white space

A value has **lexemes** of its own, which do not depend on the layout (`Json.lexemes`).  Three facts
about them settle what is written.

**Any text of a value is cut into them** (`lexemes?_write`), so the layouts differ in white space
only.  **Put together they are the value** (`foldlM_lexemes`), so what is written is read back by a
reader of plain JSON (`read_render`).  **The text is laid out by the lexemes alone**
(`render_eq_laidOut`): the white space between two of them is told by the two and by how many
brackets are open.

The three facts are about any value and not about reports, and the first two together are what a
statement on a written document needs: it is JSON, of this value, by a reader that has nothing to do
with the one of the program.  The third says how the document looks to a person.
-/

namespace RunRecord.Json

/-! ## The lexemes of a value

A value is written as its lexemes in order.  Elements and members after the first bring their comma
along. -/

mutual

/-- The lexemes that a value is written as. -/
def lexemes : Json → List Lexeme
  | .null => [.word ['n', 'u', 'l', 'l']]
  | .boolean true => [.word ['t', 'r', 'u', 'e']]
  | .boolean false => [.word ['f', 'a', 'l', 's', 'e']]
  | .number significand exponent => [.word (numberText significand exponent)]
  | .string s => [.string (escaped s)]
  | .array [] => [.mark '[', .mark ']']
  | .array (v :: vs) => .mark '[' :: (lexemes v ++ (elementLexemes vs ++ [.mark ']']))
  | .object [] => [.mark '\x7b', .mark '\x7d']
  | .object (m :: ms) => .mark '\x7b' :: (memberLexemes m ++ (membersLexemes ms ++ [.mark '\x7d']))

/-- The lexemes of elements after the first. -/
def elementLexemes : List Json → List Lexeme
  | [] => []
  | v :: vs => .mark ',' :: (lexemes v ++ elementLexemes vs)

/-- The lexemes of a member. -/
def memberLexemes : String × Json → List Lexeme
  | (key, v) => .string (escaped key) :: .mark ':' :: lexemes v

/-- The lexemes of members after the first. -/
def membersLexemes : List (String × Json) → List Lexeme
  | [] => []
  | m :: ms => .mark ',' :: (memberLexemes m ++ membersLexemes ms)

end

/-! ## Any text of a value is cut into its lexemes

What the induction carries is where a word ends: a number or a literal is cut off only by what
stands behind it, and the writer puts a mark or white space there. -/

section Cutting

variable (layout : Layout) (depth : Nat) {r : List Char}

/-- A line break and its indentation are white space between lexemes. -/
theorem isGap_of_mem_newline {c : Char} (h : c ∈ layout.newline depth) : isGap c = true := by
  cases layout with
  | compact => cases h
  | indented =>
    rcases List.mem_cons.1 h with rfl | h
    · rfl
    · exact List.eq_of_mem_replicate h ▸ rfl

/-- White space in front of lexemes adds none. -/
theorem lexemes?_newline (r : List Char) :
    lexemes? (layout.newline depth ++ r) = lexemes? r :=
  lexemes?_gaps (fun _ => isGap_of_mem_newline layout depth) r

/-- A colon is one lexeme, whatever blank is behind it. -/
theorem lexemes?_colon (r : List Char) :
    lexemes? (layout.colon ++ r) = (lexemes? r).map (.mark ':' :: ·) := by
  cases layout with
  | compact => exact lexemes?_mark (by decide) r
  | indented =>
    rw [Layout.colon, List.cons_append, lexemes?_mark (by decide), List.cons_append,
      lexemes?_gap rfl, List.nil_append]

/-- A word ends before a line break, and before a mark where there is none. -/
theorem endsWord_newline_cons {c : Char} (h : isWordChar c = false) :
    EndsWord (layout.newline depth ++ c :: r) := by
  cases layout with
  | compact => exact endsWord_cons h r
  | indented => exact endsWord_cons rfl _

/-- A word ends before the rest of an array. -/
theorem endsWord_writeElements (vs : List Json) (hr : EndsWord r) :
    EndsWord (writeElements layout depth vs ++ r) := by
  cases vs with
  | nil => exact hr
  | cons v vs => exact endsWord_cons rfl _

/-- A word ends before the rest of an object. -/
theorem endsWord_writeMembers (ms : List (String × Json)) (hr : EndsWord r) :
    EndsWord (writeMembers layout depth ms ++ r) := by
  cases ms with
  | nil => exact hr
  | cons m ms => exact endsWord_cons rfl _

end Cutting

mutual

/-- **The text of a value is cut into the lexemes of the value**, in either layout.  Elements and
members are treated in the same recursion. -/
theorem lexemes?_write (layout : Layout) (depth : Nat) (v : Json) {r : List Char}
    (hr : EndsWord r) :
    lexemes? (write layout depth v ++ r) = (lexemes? r).map (v.lexemes ++ ·) := by
  match v with
  | .null =>
    rw [write]
    exact lexemes?_word (List.cons_ne_nil _ _) (List.all_eq_true.1 rfl) hr
  | .boolean true =>
    rw [write]
    exact lexemes?_word (List.cons_ne_nil _ _) (List.all_eq_true.1 rfl) hr
  | .boolean false =>
    rw [write]
    exact lexemes?_word (List.cons_ne_nil _ _) (List.all_eq_true.1 rfl) hr
  | .number significand exponent =>
    obtain ⟨c, cs, hcs, -⟩ := exists_numberText_eq_cons significand exponent
    rw [write]
    exact lexemes?_word (hcs ▸ List.cons_ne_nil c cs) (fun _ => isWordChar_of_mem_numberText) hr
  | .string s => exact lexemes?_quoted s r
  | .array [] =>
    rw [write, List.cons_append, lexemes?_mark (by decide), List.cons_append,
      lexemes?_mark (by decide), Option.map_map]
    rfl
  | .array (v :: vs) =>
    have hend : EndsWord (layout.newline depth ++ ']' :: r) :=
      endsWord_newline_cons layout depth rfl
    simp only [write, List.cons_append, List.append_assoc, List.nil_append]
    rw [lexemes?_mark (by decide), lexemes?_newline,
      lexemes?_write layout (depth + 1) v (endsWord_writeElements layout (depth + 1) vs hend),
      lexemes?_writeElements layout (depth + 1) vs hend, lexemes?_newline,
      lexemes?_mark (by decide)]
    simp only [Option.map_map, Function.comp_def, lexemes, List.cons_append, List.append_assoc,
      List.nil_append]
  | .object [] =>
    rw [write, List.cons_append, lexemes?_mark (by decide), List.cons_append,
      lexemes?_mark (by decide), Option.map_map]
    rfl
  | .object (m :: ms) =>
    have hend : EndsWord (layout.newline depth ++ '\x7d' :: r) :=
      endsWord_newline_cons layout depth rfl
    simp only [write, List.cons_append, List.append_assoc, List.nil_append]
    rw [lexemes?_mark (by decide), lexemes?_newline,
      lexemes?_writeMember layout (depth + 1) m (endsWord_writeMembers layout (depth + 1) ms hend),
      lexemes?_writeMembers layout (depth + 1) ms hend, lexemes?_newline,
      lexemes?_mark (by decide)]
    simp only [Option.map_map, Function.comp_def, lexemes, List.cons_append, List.append_assoc,
      List.nil_append]

/-- So is the rest of an array. -/
theorem lexemes?_writeElements (layout : Layout) (depth : Nat) (vs : List Json) {r : List Char}
    (hr : EndsWord r) :
    lexemes? (writeElements layout depth vs ++ r)
      = (lexemes? r).map (elementLexemes vs ++ ·) := by
  match vs with
  | [] => cases h : lexemes? r <;> simp [writeElements, elementLexemes, h]
  | v :: vs =>
    simp only [writeElements, List.cons_append, List.append_assoc]
    rw [lexemes?_mark (by decide), lexemes?_newline,
      lexemes?_write layout depth v (endsWord_writeElements layout depth vs hr),
      lexemes?_writeElements layout depth vs hr]
    simp only [Option.map_map, Function.comp_def, elementLexemes, List.cons_append,
      List.append_assoc]

/-- So is a member. -/
theorem lexemes?_writeMember (layout : Layout) (depth : Nat) (m : String × Json) {r : List Char}
    (hr : EndsWord r) :
    lexemes? (writeMember layout depth m ++ r) = (lexemes? r).map (memberLexemes m ++ ·) := by
  match m with
  | (key, v) =>
    simp only [writeMember, List.append_assoc]
    rw [lexemes?_quoted, lexemes?_colon, lexemes?_write layout depth v hr]
    simp only [Option.map_map, Function.comp_def, memberLexemes, List.cons_append]

/-- So is the rest of an object. -/
theorem lexemes?_writeMembers (layout : Layout) (depth : Nat) (ms : List (String × Json))
    {r : List Char} (hr : EndsWord r) :
    lexemes? (writeMembers layout depth ms ++ r)
      = (lexemes? r).map (membersLexemes ms ++ ·) := by
  match ms with
  | [] => cases h : lexemes? r <;> simp [writeMembers, membersLexemes, h]
  | m :: ms =>
    simp only [writeMembers, List.cons_append, List.append_assoc]
    rw [lexemes?_mark (by decide), lexemes?_newline,
      lexemes?_writeMember layout depth m (endsWord_writeMembers layout depth ms hr),
      lexemes?_writeMembers layout depth ms hr]
    simp only [Option.map_map, Function.comp_def, membersLexemes, List.cons_append,
      List.append_assoc]

end

/-- **The document of a value has the lexemes of the value.**  In particular they do not depend on
the layout, and so the layouts differ in white space only. -/
theorem lexemes?_render (layout : Layout) (v : Json) :
    lexemes? (v.render layout) = some v.lexemes := by
  have h := lexemes?_write layout 0 v (r := []) (fun _ h => by cases h)
  rw [List.append_nil, lexemes?_nil, Option.map_some, List.append_nil] at h
  exact h

/-! ## The lexemes of a value make the value -/

/-- The first element of an array begins as any value does. -/
theorem advance_firstElement {l : Lexeme} (h : l ≠ .mark ']') (outer : List OpenValue) :
    advance (.firstElement, outer) l = beginValue (.array [] :: outer) l := by
  rw [advance, if_neg h]

/-- A value does not start with a closing bracket. -/
theorem exists_lexemes_eq_cons (v : Json) :
    ∃ l ls, v.lexemes = l :: ls ∧ l ≠ .mark ']' := by
  match v with
  | .null | .boolean true | .boolean false | .number _ _ | .string _ | .array [] | .array (_ :: _)
  | .object [] | .object (_ :: _) => exact ⟨_, _, rfl, by simp⟩

mutual

/-- **The lexemes of a value complete that value**, wherever a value may stand.  The induction is on
the value; of the members of an object the first begins as any other does. -/
theorem foldlM_lexemes (v : Json) (outer : List OpenValue) (r : List Lexeme) :
    (v.lexemes ++ r).foldlM advance (.value, outer) = r.foldlM advance (complete v outer) := by
  match v with
  | .null => rfl
  | .boolean true => rfl
  | .boolean false => rfl
  | .number significand exponent =>
    rw [lexemes, List.cons_append, List.foldlM_cons, advance, beginValue, scalar?_number]
    · rfl
    all_goals exact fun h => by cases h
  | .string s =>
    rw [lexemes, List.cons_append, List.foldlM_cons, advance, beginValue, scalar?_string]
    · rfl
    all_goals exact fun h => by cases h
  | .array [] => rfl
  | .array (v :: vs) =>
    obtain ⟨l, ls, hl, hclose⟩ := exists_lexemes_eq_cons v
    have hfirst (ls' : List Lexeme) : (v.lexemes ++ ls').foldlM advance (.firstElement, outer)
        = (v.lexemes ++ ls').foldlM advance (.value, .array [] :: outer) := by
      rw [hl, List.cons_append, List.foldlM_cons, List.foldlM_cons,
        advance_firstElement hclose outer]
      rfl
    simp only [lexemes, List.cons_append, List.append_assoc, List.nil_append]
    rw [List.foldlM_cons, advance, beginValue, Option.bind_eq_bind, Option.bind_some, hfirst,
      foldlM_lexemes v, complete, foldlM_elementLexemes vs, List.foldlM_cons]
    rfl
  | .object [] => rfl
  | .object ((key, v) :: ms) =>
    simp only [lexemes, List.cons_append, List.append_assoc, List.nil_append]
    have hfirst (ls : List Lexeme) :
        (memberLexemes (key, v) ++ ls).foldlM advance (.firstKey, outer)
          = (memberLexemes (key, v) ++ ls).foldlM advance (.key [], outer) := rfl
    rw [List.foldlM_cons, advance, beginValue, Option.bind_eq_bind, Option.bind_some, hfirst,
      foldlM_memberLexemes (key, v), foldlM_membersLexemes ms, List.foldlM_cons]
    rfl

/-- The rest of an array is added to the elements before it. -/
theorem foldlM_elementLexemes (vs before : List Json) (outer : List OpenValue) (r : List Lexeme) :
    (elementLexemes vs ++ r).foldlM advance (.behindElement before, outer)
      = r.foldlM advance (.behindElement (before ++ vs), outer) := by
  match vs with
  | [] => rw [elementLexemes, List.nil_append, List.append_nil]
  | v :: vs =>
    simp only [elementLexemes, List.cons_append, List.append_assoc]
    rw [List.foldlM_cons, advance, if_pos rfl, Option.bind_eq_bind, Option.bind_some,
      foldlM_lexemes v, complete, foldlM_elementLexemes vs, List.append_assoc]
    rfl

/-- A member is added to those before it. -/
theorem foldlM_memberLexemes (m : String × Json) (before : List (String × Json))
    (outer : List OpenValue) (r : List Lexeme) :
    (memberLexemes m ++ r).foldlM advance (.key before, outer)
      = r.foldlM advance (.behindMember (before ++ [m]), outer) := by
  match m with
  | (key, v) =>
    have hkey : beginMember before outer (.string (escaped key))
        = some (.colon before key, outer) := by
      rw [beginMember, escaped, unescaped?_escaped, Option.map_some, String.ofList_toList]
    rw [memberLexemes, List.cons_append, List.foldlM_cons, advance, hkey, Option.bind_eq_bind,
      Option.bind_some, List.cons_append, List.foldlM_cons, advance, if_pos rfl,
      Option.bind_eq_bind, Option.bind_some, foldlM_lexemes v, complete]

/-- The rest of an object is added to the members before it. -/
theorem foldlM_membersLexemes (ms before : List (String × Json)) (outer : List OpenValue)
    (r : List Lexeme) :
    (membersLexemes ms ++ r).foldlM advance (.behindMember before, outer)
      = r.foldlM advance (.behindMember (before ++ ms), outer) := by
  match ms with
  | [] => rw [membersLexemes, List.nil_append, List.append_nil]
  | m :: ms =>
    simp only [membersLexemes, List.cons_append, List.append_assoc]
    rw [List.foldlM_cons, advance, if_pos rfl, Option.bind_eq_bind, Option.bind_some,
      foldlM_memberLexemes m, foldlM_membersLexemes ms, List.append_assoc]
    rfl

end

/-- The lexemes of a value are put together to it. -/
theorem assemble?_lexemes (v : Json) : assemble? v.lexemes = some v := by
  have h := foldlM_lexemes v [] []
  rw [List.append_nil] at h
  rw [assemble?, h]
  rfl

/-- **Every value is read back by a reader of plain JSON**, whatever its layout. -/
theorem read_render (layout : Layout) (v : Json) :
    read (Utf8.encode (v.render layout)) = some v := by
  rw [read, Utf8.decode?, Utf8.decode_encode]
  simp only [Option.bind_eq_bind, Option.bind_some, lexemes?_render, assemble?_lexemes]

/-- A trailing comma is not JSON, and neither is a superfluous zero, half a surrogate pair, or one
value behind another. -/
example : read (Utf8.encode "[1,]".toList) = none := by cbv

example : read (Utf8.encode "[01]".toList) = none := by cbv

example : read (Utf8.encode "[\"\\ud83d\"]".toList) = none := by cbv

example : read (Utf8.encode "[] 2".toList) = none := by cbv

/-! ## White space

Nothing of the layout is left to chance: given the lexemes there is only one way to lay them out.
In the compact layout all gaps are empty. -/

/-- The text of a lexeme. -/
def Lexeme.spelling : Lexeme → List Char
  | .mark c => [c]
  | .string body => '"' :: (body ++ ['"'])
  | .word text => text

/-- Whether a lexeme opens an array or an object. -/
def Lexeme.opens (l : Lexeme) : Bool := l = .mark '[' || l = .mark '\x7b'

/-- Whether a lexeme closes an array or an object. -/
def Lexeme.closes (l : Lexeme) : Bool := l = .mark ']' || l = .mark '\x7d'

/-- What a lexeme stands behind. -/
inductive Behind where
  | opening
  | comma
  | colon
  /-- The start of the document, or anything that completes a key or a value. -/
  | other

/-- What stands behind a lexeme stands behind this. -/
def Lexeme.leaves (l : Lexeme) : Behind :=
  if l.opens then .opening else if l = .mark ',' then .comma else if l = .mark ':' then .colon
  else .other

/-- How many brackets are open behind a lexeme, from how many were before it. -/
def Lexeme.nested (l : Lexeme) (depth : Nat) : Nat :=
  if l.opens then depth + 1 else if l.closes then depth - 1 else depth

/-- A line break and the indentation behind it: two spaces for every open bracket. -/
def indentation (depth : Nat) : List Char := '\n' :: List.replicate (2 * depth) ' '

/-- The white space in front of a closing bracket, unless it stands right behind its opening
bracket: a line break, one step less deep. -/
def Layout.closingGap : Layout → (depth : Nat) → Behind → List Char
  | .indented, depth, .other => indentation (depth - 1)
  | _, _, _ => []

/-- The white space in front of anything else: elements and members start a line, and a value is one
blank behind its colon. -/
def Layout.innerGap : Layout → (depth : Nat) → Behind → List Char
  | .indented, depth, .opening => indentation depth
  | .indented, depth, .comma => indentation depth
  | .indented, _, .colon => [' ']
  | _, _, _ => []

/-- **The white space in front of a lexeme.**  It depends on what stands before the lexeme and on
how many brackets are open, and on nothing else. -/
def Layout.gap (layout : Layout) (depth : Nat) (behind : Behind) (l : Lexeme) : List Char :=
  if l.closes then layout.closingGap depth behind else layout.innerGap depth behind

/-- Lexemes with the white space between them, from a place within a document on. -/
def laidOut (layout : Layout) (depth : Nat) (behind : Behind) : List Lexeme → List Char
  | [] => []
  | l :: ls =>
    layout.gap depth behind l ++ (l.spelling ++ laidOut layout (l.nested depth) l.leaves ls)

/-- Without white space the lexemes stand side by side. -/
theorem laidOut_compact (depth : Nat) (behind : Behind) (ls : List Lexeme) :
    laidOut .compact depth behind ls = ls.flatMap Lexeme.spelling := by
  induction ls generalizing depth behind with
  | nil => rfl
  | cons l ls ih =>
    have hgap : Layout.compact.gap depth behind l = [] := by
      unfold Layout.gap
      split <;> rfl
    rw [laidOut, hgap, ih, List.nil_append, List.flatMap_cons]

section LaidOut

variable (layout : Layout) (depth : Nat) (behind : Behind) (r : List Lexeme)

/-- A value behind an opening bracket starts a line. -/
theorem innerGap_opening : layout.innerGap depth .opening = layout.newline depth := by
  cases layout <;> rfl

/-- A value behind a comma starts a line. -/
theorem innerGap_comma : layout.innerGap depth .comma = layout.newline depth := by
  cases layout <;> rfl

/-- Nothing stands before what follows neither of them. -/
theorem innerGap_other : layout.innerGap depth .other = [] := by
  cases layout <;> rfl

/-- A colon has its gap behind it. -/
theorem colon_eq : layout.colon = ':' :: layout.innerGap depth .colon := by
  cases layout <;> rfl

/-- What is one lexeme leaves the depth as it is. -/
theorem laidOut_scalar {l : Lexeme} (hcloses : l.closes = false) (hnested : l.nested depth = depth)
    (hleaves : l.leaves = .other) :
    laidOut layout depth behind (l :: r)
      = layout.innerGap depth behind ++ (l.spelling ++ laidOut layout depth .other r) := by
  rw [laidOut, Layout.gap, if_neg (by simp [hcloses]), hnested, hleaves]

/-- An opening bracket is one step deeper inside. -/
theorem laidOut_opening {c : Char} (h : (Lexeme.mark c).opens = true)
    (hcloses : (Lexeme.mark c).closes = false) :
    laidOut layout depth behind (.mark c :: r)
      = layout.innerGap depth behind ++ c :: laidOut layout (depth + 1) .opening r := by
  rw [laidOut, Layout.gap, if_neg (by simp [hcloses]), Lexeme.nested, if_pos h, Lexeme.leaves,
    if_pos h]
  rfl

/-- A closing bracket is one step back, on a line of its own unless nothing is inside. -/
theorem laidOut_closing {c : Char} (h : (Lexeme.mark c).closes = true)
    (hnested : (Lexeme.mark c).nested (depth + 1) = depth)
    (hleaves : (Lexeme.mark c).leaves = .other) :
    laidOut layout (depth + 1) behind (.mark c :: r)
      = layout.closingGap (depth + 1) behind ++ c :: laidOut layout depth .other r := by
  rw [laidOut, Layout.gap, if_pos h, hnested, hleaves]
  rfl

/-- An empty array or object is written without a line break. -/
theorem closingGap_opening : layout.closingGap depth .opening = [] := by
  cases layout <;> rfl

/-- A closing bracket behind a value starts a line. -/
theorem closingGap_other : layout.closingGap (depth + 1) .other = layout.newline depth := by
  cases layout <;> rfl

/-- No white space stands before a comma. -/
theorem laidOut_comma :
    laidOut layout depth .other (.mark ',' :: r) = ',' :: laidOut layout depth .comma r := by
  rw [laidOut, Layout.gap, if_neg (by decide), innerGap_other]
  rfl

/-- No white space stands before a colon. -/
theorem laidOut_colon :
    laidOut layout depth .other (.mark ':' :: r) = ':' :: laidOut layout depth .colon r := by
  rw [laidOut, Layout.gap, if_neg (by decide), innerGap_other]
  rfl

end LaidOut

mutual

/-- **A value is laid out by its lexemes**, wherever it stands.  Elements, members and what follows
them are treated in the same recursion. -/
theorem laidOut_lexemes (layout : Layout) (depth : Nat) (behind : Behind) (v : Json)
    (r : List Lexeme) :
    laidOut layout depth behind (v.lexemes ++ r)
      = layout.innerGap depth behind ++
          (write layout depth v ++ laidOut layout depth .other r) := by
  match v with
  | .null | .boolean true | .boolean false | .number _ _ | .string _ =>
    exact laidOut_scalar layout depth behind r rfl rfl rfl
  | .array [] =>
    rw [lexemes, List.cons_append, laidOut_opening _ _ _ _ rfl rfl, List.cons_append,
      laidOut_closing _ _ _ _ rfl rfl rfl, closingGap_opening]
    rfl
  | .array (v :: vs) =>
    simp only [lexemes, write, List.cons_append, List.append_assoc, List.nil_append]
    rw [laidOut_opening _ _ _ _ rfl rfl, laidOut_lexemes layout (depth + 1) .opening v,
      laidOut_elementLexemes layout (depth + 1) vs, laidOut_closing _ _ _ _ rfl rfl rfl,
      innerGap_opening, closingGap_other]
  | .object [] =>
    rw [lexemes, List.cons_append, laidOut_opening _ _ _ _ rfl rfl, List.cons_append,
      laidOut_closing _ _ _ _ rfl rfl rfl, closingGap_opening]
    rfl
  | .object (m :: ms) =>
    simp only [lexemes, write, List.cons_append, List.append_assoc, List.nil_append]
    rw [laidOut_opening _ _ _ _ rfl rfl, laidOut_memberLexemes layout (depth + 1) .opening m,
      laidOut_membersLexemes layout (depth + 1) ms, laidOut_closing _ _ _ _ rfl rfl rfl,
      innerGap_opening, closingGap_other]

/-- So is the rest of an array. -/
theorem laidOut_elementLexemes (layout : Layout) (depth : Nat) (vs : List Json)
    (r : List Lexeme) :
    laidOut layout depth .other (elementLexemes vs ++ r)
      = writeElements layout depth vs ++ laidOut layout depth .other r := by
  match vs with
  | [] => rfl
  | v :: vs =>
    simp only [elementLexemes, writeElements, List.cons_append, List.append_assoc]
    rw [laidOut_comma, laidOut_lexemes layout depth .comma v,
      laidOut_elementLexemes layout depth vs, innerGap_comma]

/-- So is a member. -/
theorem laidOut_memberLexemes (layout : Layout) (depth : Nat) (behind : Behind)
    (m : String × Json) (r : List Lexeme) :
    laidOut layout depth behind (memberLexemes m ++ r)
      = layout.innerGap depth behind ++
          (writeMember layout depth m ++ laidOut layout depth .other r) := by
  match m with
  | (key, v) =>
    simp only [memberLexemes, writeMember, List.cons_append, List.append_assoc]
    rw [laidOut_scalar layout depth behind _ rfl rfl rfl, laidOut_colon,
      laidOut_lexemes layout depth .colon v, colon_eq layout depth]
    simp only [Lexeme.spelling, quoted, escaped, List.cons_append, List.append_assoc,
      List.nil_append]

/-- So is the rest of an object. -/
theorem laidOut_membersLexemes (layout : Layout) (depth : Nat) (ms : List (String × Json))
    (r : List Lexeme) :
    laidOut layout depth .other (membersLexemes ms ++ r)
      = writeMembers layout depth ms ++ laidOut layout depth .other r := by
  match ms with
  | [] => rfl
  | m :: ms =>
    simp only [membersLexemes, writeMembers, List.cons_append, List.append_assoc]
    rw [laidOut_comma, laidOut_memberLexemes layout depth .comma m,
      laidOut_membersLexemes layout depth ms, innerGap_comma]

end

/-- **The document of a value is laid out by its lexemes.**  So the two layouts of a value differ in
the gaps only, and each gap is told by what it stands between. -/
theorem render_eq_laidOut (layout : Layout) (v : Json) :
    v.render layout = laidOut layout 0 .other v.lexemes := by
  have h := laidOut_lexemes layout 0 .other v []
  rw [List.append_nil, innerGap_other, List.nil_append] at h
  rw [h, laidOut, List.append_nil, render]

/-- Nothing follows the closing brace of an object. -/
theorem getLast?_render_object (layout : Layout) (ms : List (String × Json)) :
    ((Json.object ms).render layout).getLast? = some '\x7d' := by
  cases ms with
  | nil => rfl
  | cons m ms =>
    rw [render, write, ← List.cons_append]
    exact List.getLast?_concat

end RunRecord.Json
