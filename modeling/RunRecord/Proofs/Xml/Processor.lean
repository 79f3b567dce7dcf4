import RunRecord.Proofs.Xml.Strings
import RunRecord.Text.Digits
import RunRecord.Toml.Text

/-!
# Proofs/Xml/Processor — what an application gets from an XML processor

Before anything else a processor makes every **line end** a line feed; and in an attribute value it
puts a space in the place of each tab and line end that stands there literally, while what a
reference stands for is kept.  It works on **literal** values, as they are spelled in the document:
`literal?` lets `read` find them, and only then are references expanded.  What a processor makes of
a written element is the element **normalized** (`process_render`).

Two passes over the text of a document are described alike: the one that makes line ends line feeds,
and one that spells the document out so that the plain reader finds literal values in it.  Either
**passes over markup** (`Passes`): it leaves the tags alone and changes the strings between them.
So either makes of the document of a tree the document of another tree, and reading it needs no new
argument.
-/

namespace RunRecord.Xml

/-! ## Line ends -/

/-- A text with its line ends made line feeds; `behind` says whether a carriage return has just gone
before it. -/
def lineEndsFrom (behind : Bool) : List Char → List Char
  | [] => []
  | c :: cs =>
    if c = '\r' then '\n' :: lineEndsFrom true cs
    else if c = '\n' ∧ behind = true then lineEndsFrom false cs
    else c :: lineEndsFrom false cs

/-- A text with each CR LF and each other CR made a line feed. -/
def lineEnds (cs : List Char) : List Char := lineEndsFrom false cs

/-! ## References

An attribute value is not simply unescaped.  White space that is there literally becomes a space,
and a line feed given by a reference stays a line feed, so literal values are needed to tell the two
apart. -/

/-- The character that a reference stands for: its code point is given, or it is an entity.  Code
points are decimal or hexadecimal. -/
def reference? : List Char → Option Char
  | '#' :: 'x' :: ds => if ds = [] then none else (Toml.hexChar? ds).filter isAllowed
  | '#' :: ds =>
    let n := Digits.value ds
    if ds ≠ [] ∧ ds.all Digits.isDigit ∧ n.isValidChar then
      (some (Char.ofNat n)).filter isAllowed
    else none
  | name => entity? name

/-- A text with its references expanded; `pending` is the name of a reference that is being read. -/
def expand (pending : Option (List Char)) : List Char → Option (List Char)
  | [] => if pending = none then some [] else none
  | c :: cs =>
    match pending with
    | none => if c = '&' then expand (some []) cs else (expand none cs).map (c :: ·)
    | some name =>
      if c = ';' then (reference? name).bind fun d => (expand none cs).map (d :: ·)
      else expand (some (name ++ [c])) cs

/-- Whether a character is a tab or ends a line. -/
def isBreak (c : Char) : Bool := c == '\t' || c == '\n' || c == '\r'

/-- A tab or a line end as a space. -/
def spaceChar (c : Char) : Char := if isBreak c then ' ' else c

/-- The value of an attribute, from its literal value. -/
def attributeValue? (s : String) : Option String :=
  (expand none (s.toList.map spaceChar)).map String.ofList

/-- Character data, from how it is spelled. -/
def characterData? (s : String) : Option String := (expand none s.toList).map String.ofList

/-! ## Documents -/

namespace Content

mutual

/-- Content with its literal values replaced by what they stand for. -/
def expanded? : Content → Option Content
  | .data text => (characterData? text).map .data
  | .element name attributes contents => do
    let attributes ← attributes.mapM fun a => (attributeValue? a.2).map fun v => (a.1, v)
    let contents ← allExpanded? contents
    some (.element name attributes contents)

/-- Contents one by one. -/
def allExpanded? : List Content → Option (List Content)
  | [] => some []
  | c :: cs => do
    let c ← expanded? c
    let cs ← allExpanded? cs
    some (c :: cs)

end

end Content

/-- A text in which each ampersand is written as a reference to itself. -/
def spellOut (cs : List Char) : List Char :=
  cs.flatMap fun c => if c = '&' then ['&', 'a', 'm', 'p', ';'] else [c]

/-- The root element with literal values: what is read of a text that has been spelled out is how
the text itself is spelled.  Spelling out makes each reference a text. -/
def literal? (cs : List Char) : Option Content := read (Utf8.encode (spellOut cs))

/-- **What a processor makes of a document**: its root element, with line ends made line feeds,
references expanded and attribute values normalized. -/
def process (document : Bytes) : Option Content := do
  let cs ← Utf8.decode? document
  let content ← literal? (lineEnds cs)
  content.expanded?

/-! ## Strings -/

/-- A string with its line ends made line feeds. -/
def lineFeeds (s : String) : String := String.ofList (lineEnds s.toList)

/-- A string with its tabs and line ends made spaces. -/
def spaces (s : String) : String := String.ofList (s.toList.map spaceChar)

/-- A string as it is spelled. -/
def spelling (s : String) : String := String.ofList (escape s)

/-- A string in the value of an attribute: line ends and tabs are spaces. -/
def flat (s : String) : String := spaces (lineFeeds s)

theorem expand_cons {c : Char} (h : c ≠ '&') (cs : List Char) :
    expand none (c :: cs) = (expand none cs).map (c :: ·) := by
  simp only [expand, h, if_false]

/-- **An escaped character is expanded to that character.**  The entity that it was written as is a
reference like any other. -/
theorem expand_escapeChar (c : Char) (cs : List Char) :
    expand none (escapeChar c ++ cs) = (expand none cs).map (c :: ·) := by
  induction c using markup_cases with
  | lt | gt | amp | apos | quot => rfl
  | plain c hc =>
    rw [escapeChar_of_not_mem hc]
    simp only [markup, List.mem_cons, List.not_mem_nil, or_false, not_or] at hc
    exact expand_cons hc.2.2.1 cs

/-- An escaped text is expanded to that text. -/
theorem expand_escape (s : String) : expand none (escape s) = some s.toList := by
  rw [escape]
  induction s.toList with
  | nil => rfl
  | cons c cs ih => rw [List.flatMap_cons, expand_escapeChar, ih, Option.map_some]

/-! ## Passing over markup

What is asked of a pass concerns single characters of markup and whole strings.  Tags, attributes
and elements follow by the structure of what is written. -/

/-- A function on texts that **passes over markup**: it leaves what holds neither a carriage return
nor a reference, and makes of a string that is written before a quote or a tag another one. -/
structure Passes (pass : List Char → List Char) (f : String → String) : Prop where
  plain : ∀ {cs : List Char}, (∀ c ∈ cs, c ≠ '\r' ∧ c ≠ '&') → ∀ r, pass (cs ++ r) = cs ++ pass r
  escape : ∀ (s : String) {c : Char}, c = '"' ∨ c = '<' → ∀ r,
    pass (escape s ++ c :: r) = escape (f s) ++ c :: pass r

theorem isPlain_name {name : String} (h : isName name = true) :
    ∀ c ∈ name.toList, c ≠ '\r' ∧ c ≠ '&' := by
  simp only [isName, Bool.and_eq_true, List.all_eq_true] at h
  intro c hc
  refine ⟨?_, ?_⟩ <;> rintro rfl <;> exact absurd (h.2 _ hc) (by decide)

theorem isPlain_newline (depth : Nat) : ∀ c ∈ newline depth, c ≠ '\r' ∧ c ≠ '&' :=
  forall_mem_newline (by decide) (by decide) depth

namespace Passes

variable {pass : List Char → List Char} {f : String → String} {name : String}
  {as : List (String × String)}

theorem cons (h : Passes pass f) {c : Char} (hc : c ≠ '\r' ∧ c ≠ '&') (r : List Char) :
    pass (c :: r) = c :: pass r :=
  h.plain (List.forall_mem_singleton.2 hc) r

/-- A pass changes the values of attributes and leaves their names. -/
theorem attributes (h : Passes pass f) (has : ∀ a ∈ as, isName a.1 = true) (r : List Char) :
    pass (as.flatMap writeAttribute ++ r)
      = (Element.mapValues f as).flatMap writeAttribute ++ pass r := by
  induction as with
  | nil => rfl
  | cons a as ih =>
    rw [List.forall_mem_cons] at has
    have hwrite : (a :: as).flatMap writeAttribute ++ r
        = ' ' :: (a.1.toList ++ '=' :: '"' ::
            (Xml.escape a.2 ++ '"' :: (as.flatMap writeAttribute ++ r))) := by
      simp [writeAttribute]
    rw [hwrite, h.cons (by decide), h.plain (isPlain_name has.1), h.cons (by decide),
      h.cons (by decide), h.escape _ (.inl rfl), ih has.2]
    simp [Element.mapValues, writeAttribute]

theorem openTag (h : Passes pass f) (htag : IsTag name as) (r : List Char) :
    pass (Xml.openTag name as ++ r) = Xml.openTag name (Element.mapValues f as) ++ pass r := by
  rw [Xml.openTag, List.cons_append, List.append_assoc, h.cons (by decide),
    h.plain (isPlain_name htag.name), h.attributes htag.keys, Xml.openTag, List.cons_append,
    List.append_assoc]

theorem closeTag (h : Passes pass f) (hname : isName name = true) (r : List Char) :
    pass (Xml.closeTag name ++ r) = Xml.closeTag name ++ pass r := by
  refine h.plain (fun c hc => ?_) r
  simp only [Xml.closeTag, List.mem_cons, List.mem_append, List.not_mem_nil, or_false] at hc
  rcases hc with rfl | rfl | hc | rfl
  · decide
  · decide
  · exact isPlain_name hname c hc
  · decide

/-- A pass changes a text between its tags. -/
theorem body (h : Passes pass f) (body : String) (hname : isName name = true) (r : List Char) :
    pass (Xml.escape body ++ (Xml.closeTag name ++ r))
      = Xml.escape (f body) ++ (Xml.closeTag name ++ pass r) := by
  have htag : Xml.closeTag name ++ r = '<' :: ('/' :: (name.toList ++ ['>']) ++ r) := rfl
  have hlt : '<' ≠ '\r' ∧ '<' ≠ '&' := by decide
  rw [htag, h.escape body (.inr rfl), ← h.cons hlt, ← htag, h.closeTag hname]

mutual

/-- **A written element is passed over**, and its strings are changed.  By induction on the element;
its tags, its text and its children are passed over in turn. -/
theorem write (h : Passes pass f) (depth : Nat) {e : Element} (he : e.IsWritable)
    (r : List Char) :
    pass (Xml.write depth e ++ r) = Xml.write depth (e.mapText f) ++ pass r := by
  match e, he with
  | .leaf name as, .leaf htag _ =>
    have hend : ['/', '>'] ++ r = '/' :: '>' :: r := rfl
    rw [Xml.write, List.append_assoc, hend, h.openTag htag, h.cons (by decide), h.cons (by decide),
      Element.mapText, Xml.write, List.append_assoc]
    rfl
  | .text name as body, .text htag _ _ =>
    rw [Xml.write, List.append_assoc, List.cons_append, h.openTag htag, h.cons (by decide),
      List.append_assoc, h.body body htag.name, Element.mapText, Xml.write]
    simp only [List.append_assoc, List.cons_append]
  | .node name as children, .node htag _ hchildren =>
    rw [Xml.write, List.append_assoc, List.cons_append, h.openTag htag, h.cons (by decide),
      List.append_assoc, List.append_assoc, h.writeAll (depth + 1) hchildren,
      h.plain (isPlain_newline depth), h.closeTag htag.name, Element.mapText, Xml.write]
    simp only [List.append_assoc, List.cons_append]
termination_by sizeOf e

theorem writeAll (h : Passes pass f) (depth : Nat) {es : List Element}
    (hes : ∀ e ∈ es, e.IsWritable) (r : List Char) :
    pass (Xml.writeAll depth es ++ r)
      = Xml.writeAll depth (es.map (Element.mapText f)) ++ pass r := by
  match es with
  | [] => rw [List.map_nil, Xml.writeAll, List.nil_append, List.nil_append]
  | e :: es =>
    rw [List.forall_mem_cons] at hes
    rw [List.map_cons, Xml.writeAll, Xml.writeAll, List.append_assoc, List.append_assoc,
      h.plain (isPlain_newline depth), h.write depth hes.1, h.writeAll depth hes.2,
      List.append_assoc, List.append_assoc]
termination_by sizeOf es

end

end Passes

/-! ### The two passes

A line end may consist of two characters, so the pass has to remember a carriage return.  It never
has to across a string, as a quote or a tag stands behind each. -/

theorem lineEndsFrom_cons {c : Char} (hc : c ≠ '\r' ∧ c ≠ '\n') (behind : Bool)
    (cs : List Char) : lineEndsFrom behind (c :: cs) = c :: lineEndsFrom false cs := by
  rw [lineEndsFrom, if_neg hc.1, if_neg fun h => hc.2 h.1]

theorem lineEndsFrom_append {cs : List Char} (hcs : ∀ c ∈ cs, c ≠ '\r' ∧ c ≠ '\n') (hne : cs ≠ [])
    (behind : Bool) (r : List Char) :
    lineEndsFrom behind (cs ++ r) = cs ++ lineEndsFrom false r := by
  induction cs generalizing behind with
  | nil => exact absurd rfl hne
  | cons c cs ih =>
    rw [List.forall_mem_cons] at hcs
    rw [List.cons_append, List.cons_append, lineEndsFrom_cons hcs.1]
    rcases eq_or_ne cs [] with rfl | hne
    · rfl
    · rw [ih hcs.2 hne]

/-- An escaped character that does not end a line is of such characters. -/
theorem ne_of_mem_escapeChar_of_ne {c d : Char} (hc : c ≠ '\r' ∧ c ≠ '\n')
    (h : d ∈ escapeChar c) : d ≠ '\r' ∧ d ≠ '\n' := by
  have hall : (escapeChar c).all (fun d => d ≠ '\r' ∧ d ≠ '\n') = true := by
    induction c using markup_cases with
    | lt | gt | amp | apos | quot => rfl
    | plain c hmem =>
      rw [escapeChar_of_not_mem hmem]
      simp [hc]
  exact of_decide_eq_true (List.all_eq_true.1 hall d h)

theorem escapeChar_ne_nil (c : Char) : escapeChar c ≠ [] := by
  induction c using markup_cases with
  | lt | gt | amp | apos | quot => exact List.cons_ne_nil _ _
  | plain c hc =>
    rw [escapeChar_of_not_mem hc]
    exact List.cons_ne_nil c []

/-- Line ends are the same in an escaped text. -/
theorem lineEndsFrom_escape (cs : List Char) {c : Char} (hc : c ≠ '\r' ∧ c ≠ '\n')
    (behind : Bool) (r : List Char) :
    lineEndsFrom behind (cs.flatMap escapeChar ++ c :: r)
      = (lineEndsFrom behind cs).flatMap escapeChar ++ c :: lineEndsFrom false r := by
  induction cs generalizing behind with
  | nil => exact lineEndsFrom_cons hc behind r
  | cons d ds ih =>
    rw [List.flatMap_cons, List.append_assoc]
    by_cases hreturn : d = '\r'
    · subst hreturn
      exact congrArg ('\n' :: ·) (ih true)
    by_cases hfeed : d = '\n'
    · subst hfeed
      cases behind with
      | false => exact congrArg ('\n' :: ·) (ih false)
      | true => exact ih false
    rw [lineEndsFrom_append (fun e he => ne_of_mem_escapeChar_of_ne ⟨hreturn, hfeed⟩ he)
      (escapeChar_ne_nil d), ih, lineEndsFrom_cons ⟨hreturn, hfeed⟩, List.flatMap_cons,
      List.append_assoc]

/-- **The pass for line ends passes over markup.**  Markup has no carriage return, and a quote or a
bracket stands behind each string. -/
theorem passes_lineEnds : Passes lineEnds lineFeeds where
  plain {cs} hcs r := by
    induction cs with
    | nil => rfl
    | cons c cs ih =>
      rw [List.forall_mem_cons] at hcs
      have hcons : lineEndsFrom false (c :: (cs ++ r)) = c :: lineEndsFrom false (cs ++ r) := by
        simp [lineEndsFrom, hcs.1.1]
      exact hcons.trans (congrArg (c :: ·) (ih hcs.2))
  escape s c hc r := by
    have hends : c ≠ '\r' ∧ c ≠ '\n' := by
      rcases hc with rfl | rfl <;> decide
    rw [lineEnds, escape, lineEndsFrom_escape s.toList hends, escape, lineFeeds,
      String.toList_ofList]
    rfl

theorem spellOut_append (cs ds : List Char) : spellOut (cs ++ ds) = spellOut cs ++ spellOut ds :=
  List.flatMap_append

theorem spellOut_of_plain {cs : List Char} (hcs : ∀ c ∈ cs, c ≠ '&') : spellOut cs = cs := by
  induction cs with
  | nil => rfl
  | cons c cs ih =>
    rw [List.forall_mem_cons] at hcs
    have hcons : spellOut (c :: cs) = [c] ++ spellOut cs := by
      rw [spellOut, List.flatMap_cons, if_neg hcs.1]
      rfl
    rw [hcons, ih hcs.2]
    rfl

/-- What has been escaped is spelled out by escaping it again. -/
theorem spellOut_escapeChar (c : Char) :
    spellOut (escapeChar c) = (escapeChar c).flatMap escapeChar := by
  induction c using markup_cases with
  | lt | gt | amp | apos | quot => rfl
  | plain c hc =>
    rw [escapeChar_of_not_mem hc, List.flatMap_singleton, escapeChar_of_not_mem hc]
    simp only [markup, List.mem_cons, List.not_mem_nil, or_false, not_or] at hc
    exact spellOut_of_plain (List.forall_mem_singleton.2 hc.2.2.1)

theorem spellOut_escape (s : String) : spellOut (escape s) = escape (spelling s) := by
  rw [spelling, escape, escape, String.toList_ofList]
  induction s.toList with
  | nil => rfl
  | cons c cs ih =>
    rw [List.flatMap_cons, spellOut_append, spellOut_escapeChar, ih, List.flatMap_append]

/-- **The pass that spells out passes over markup**, too.  Markup has no ampersand, and what an
ampersand opens in a string is spelled out with it. -/
theorem passes_spellOut : Passes spellOut spelling where
  plain hcs r := by rw [spellOut_append, spellOut_of_plain fun c hc => (hcs c hc).2]
  escape s c hc r := by
    have hplain : spellOut (c :: r) = c :: spellOut r := by
      rcases hc with rfl | rfl <;> rfl
    rw [spellOut_append, hplain, spellOut_escape]

/-! ## Written elements -/

theorem spaceChar_of_isBreak_eq_false {c : Char} (h : isBreak c = false) : spaceChar c = c := by
  rw [spaceChar, h]
  rfl

/-- Tabs and line ends are escaped as they stand. -/
theorem map_spaceChar_escapeChar (c : Char) :
    (escapeChar c).map spaceChar = escapeChar (spaceChar c) := by
  induction c using markup_cases with
  | lt | gt | amp | apos | quot => rfl
  | plain c hc =>
    rw [escapeChar_of_not_mem hc, List.map_singleton]
    cases hbreak : isBreak c with
    | true =>
      rw [spaceChar, hbreak]
      rfl
    | false => rw [spaceChar_of_isBreak_eq_false hbreak, escapeChar_of_not_mem hc]

theorem map_spaceChar_escape (s : String) : (escape s).map spaceChar = escape (spaces s) := by
  rw [spaces, escape, escape, String.toList_ofList]
  induction s.toList with
  | nil => rfl
  | cons c cs ih =>
    rw [List.flatMap_cons, List.map_append, map_spaceChar_escapeChar, ih, List.map_cons,
      List.flatMap_cons]

/-- The literal value of an attribute becomes its value with spaces. -/
theorem attributeValue?_spelling (s : String) :
    attributeValue? (spelling s) = some (spaces s) := by
  rw [attributeValue?, spelling, String.toList_ofList, map_spaceChar_escape, expand_escape,
    Option.map_some, String.ofList_toList]

/-- What references stand for is kept as it is. -/
example : attributeValue? "a\tb&#9;&#xA;&lt;" = some "a b\t\n<" := by decide

/-- The spelling of a text becomes the text. -/
theorem characterData?_spelling (s : String) : characterData? (spelling s) = some s := by
  rw [characterData?, spelling, String.toList_ofList, expand_escape, Option.map_some,
    String.ofList_toList]

theorem spelling_eq_empty_iff {s : String} : spelling s = "" ↔ s = "" := by
  refine ⟨fun h => ?_, by rintro rfl; rfl⟩
  have hexpand := characterData?_spelling s
  rw [h] at hexpand
  exact (Option.some.inj hexpand).symm

/-- White space that lays out a document is left as it is. -/
theorem expanded?_indent (depth : Nat) : (indent depth).expanded? = some (indent depth) := by
  have hexpand : ∀ cs : List Char, (∀ c ∈ cs, c ≠ '\r' ∧ c ≠ '&') → expand none cs = some cs := by
    intro cs hcs
    induction cs with
    | nil => rfl
    | cons c cs ih =>
      rw [List.forall_mem_cons] at hcs
      rw [expand_cons hcs.1.2, ih hcs.2, Option.map_some]
  rw [indent, Content.expanded?, characterData?, String.toList_ofList,
    hexpand _ (isPlain_newline depth)]
  rfl

/-- Attributes with literal values are expanded one by one. -/
theorem mapM_attributeValue? (as : List (String × String)) :
    (Element.mapValues spelling as).mapM
        (fun a => (attributeValue? a.2).map fun v => (a.1, v))
      = some (Element.mapValues spaces as) := by
  induction as with
  | nil => rfl
  | cons a as ih =>
    rw [mapValues_cons, List.mapM_cons, ih]
    simp [attributeValue?_spelling]

mutual

/-- **The literal values of an element are expanded**, with spaces in the attributes. -/
theorem expanded?_content (depth : Nat) (e : Element) :
    ((e.mapText spelling).content depth).expanded?
      = some ((e.mapStrings spaces id).content depth) := by
  match e with
  | .leaf name as =>
    simp [Element.mapText, Element.mapStrings, Element.content, Content.expanded?,
      Content.allExpanded?, mapM_attributeValue?]
  | .text name as body =>
    by_cases hbody : body = "" <;>
      simp [Element.mapText, Element.mapStrings, Element.content, Content.expanded?,
        Content.allExpanded?, mapM_attributeValue?, spelling_eq_empty_iff, characterData?_spelling,
        hbody]
  | .node name as children =>
    rw [Element.mapText, Element.mapStrings, Element.content, Element.content, Content.expanded?,
      mapM_attributeValue?, allExpanded?_contents (depth + 1) children [indent depth]]
    simp [Content.allExpanded?, expanded?_indent]
termination_by sizeOf e

theorem allExpanded?_contents (depth : Nat) (es : List Element) (cs : List Content) :
    Content.allExpanded? (Element.contents depth (es.map (Element.mapText spelling)) ++ cs)
      = (Content.allExpanded? cs).map
          (Element.contents depth (es.map (Element.mapStrings spaces id)) ++ ·) := by
  match es with
  | [] => simp [Element.contents]
  | e :: es =>
    simp only [List.map_cons, Element.contents, List.cons_append, Content.allExpanded?,
      expanded?_indent, expanded?_content depth e, allExpanded?_contents depth es cs]
    cases Content.allExpanded? cs <;> rfl
termination_by sizeOf es

end

theorem isAllowed_lineFeeds (s : String) (hs : ∀ c ∈ s.toList, isAllowed c = true) :
    ∀ c ∈ (lineFeeds s).toList, isAllowed c = true := by
  have hends : ∀ (cs : List Char) (behind : Bool), (∀ c ∈ cs, isAllowed c = true) →
      ∀ c ∈ lineEndsFrom behind cs, isAllowed c = true := by
    intro cs behind hcs
    fun_induction lineEndsFrom behind cs with
    | case1 => exact hcs
    | case2 behind cs ih =>
      rw [List.forall_mem_cons] at hcs ⊢
      exact ⟨by decide, ih hcs.2⟩
    | case3 behind c cs _ _ ih =>
      rw [List.forall_mem_cons] at hcs
      exact ih hcs.2
    | case4 behind c cs _ _ ih =>
      rw [List.forall_mem_cons] at hcs ⊢
      exact ⟨hcs.1, ih hcs.2⟩
  rw [lineFeeds, String.toList_ofList]
  exact hends s.toList false hs

theorem isAllowed_spelling (s : String) (hs : ∀ c ∈ s.toList, isAllowed c = true) :
    ∀ c ∈ (spelling s).toList, isAllowed c = true := by
  intro c hc
  rw [spelling, String.toList_ofList] at hc
  exact isAllowed_of_mem_escape hs hc

/-- **What a processor makes of an element.**  Line ends are made line feeds first, and then spaces
in attribute values. -/
def Element.normalized (e : Element) : Element := e.mapStrings flat lineFeeds

/-- **A processor makes of a written element the element normalized.**  The line ends come first and
the spelling second, and each pass leaves the document of another tree. -/
theorem process_render {e : Element} (he : e.IsWritable) :
    process (Utf8.encode (render e)) = some (e.normalized.content 0) := by
  have hdecode : Utf8.decode? (Utf8.encode (render e)) = some (render e) := by
    rw [Utf8.decode?, Utf8.decode_encode]
  have hpass {pass f} (h : Passes pass f) (hnil : pass [] = []) {e : Element}
      (he : e.IsWritable) : pass (render e) = render (e.mapText f) := by
    have hwrite := h.write 0 he []
    rwa [List.append_nil, hnil, List.append_nil] at hwrite
  have hlines : (e.mapText lineFeeds).IsWritable := he.mapText isAllowed_lineFeeds
  have hliteral : literal? (lineEnds (render e))
      = some (((e.mapText lineFeeds).mapText spelling).content 0) := by
    rw [hpass passes_lineEnds rfl he, literal?, hpass passes_spellOut rfl hlines,
      read_render (hlines.mapText isAllowed_spelling)]
  rw [process, hdecode]
  simp only [Option.bind_eq_bind, Option.bind_some, hliteral, expanded?_content]
  rw [Element.mapStrings_mapText, Element.normalized]
  rfl

/-! ## Strings that are kept -/

theorem not_mem_lineEndsFrom (cs : List Char) (behind : Bool) : '\r' ∉ lineEndsFrom behind cs := by
  fun_induction lineEndsFrom behind cs with
  | case1 => exact List.not_mem_nil
  | case2 behind cs ih => exact List.not_mem_cons_of_ne_of_not_mem (by decide) ih
  | case3 behind c cs _ _ ih => exact ih
  | case4 behind c cs hne _ ih => exact List.not_mem_cons_of_ne_of_not_mem (Ne.symm hne) ih

theorem lineEnds_eq_self {cs : List Char} (h : '\r' ∉ cs) : lineEnds cs = cs := by
  rw [lineEnds]
  induction cs with
  | nil => rfl
  | cons c cs ih =>
    rw [List.mem_cons, not_or] at h
    simp [lineEndsFrom, Ne.symm h.1, ih h.2]

/-- **Line ends are kept where no carriage return is among them.**  Line feeds are kept in any case.
-/
theorem lineFeeds_eq_self_iff {s : String} : lineFeeds s = s ↔ '\r' ∉ s.toList := by
  refine ⟨fun h => ?_, fun h => ?_⟩
  · rw [← h, lineFeeds, String.toList_ofList]
    exact not_mem_lineEndsFrom _ _
  · rw [lineFeeds, lineEnds_eq_self h, String.ofList_toList]

/-- What has become a space is no tab and ends no line. -/
theorem isBreak_spaceChar (c : Char) : isBreak (spaceChar c) = false := by
  rw [spaceChar]
  split
  · decide
  · next h => exact Bool.eq_false_iff.2 h

/-- **The value of an attribute is kept where no tab and no line end is in it.** -/
theorem flat_eq_self_iff {s : String} : flat s = s ↔ ∀ c ∈ s.toList, isBreak c = false := by
  refine ⟨fun h c hc => ?_, fun h => ?_⟩
  · rw [← h, flat, spaces, String.toList_ofList] at hc
    obtain ⟨d, -, rfl⟩ := List.mem_map.1 hc
    exact isBreak_spaceChar d
  · have hreturn : '\r' ∉ s.toList := fun hmem => absurd (h _ hmem) (by decide)
    have hmap : s.toList.map spaceChar = s.toList :=
      (List.map_congr_left fun c hc => spaceChar_of_isBreak_eq_false (h c hc)).trans (List.map_id _)
    rw [flat, lineFeeds_eq_self_iff.2 hreturn, spaces, hmap, String.ofList_toList]

theorem keeps_flat : Keeps flat where
  graphic hs := flat_eq_self_iff.2 fun c hc => by
    have hgraphic := hs c hc
    cases hbreak : isBreak c with
    | false => rfl
    | true =>
      simp only [isBreak, Bool.or_eq_true, beq_iff_eq] at hbreak
      rcases hbreak with (rfl | rfl) | rfl <;> exact absurd hgraphic (by decide)
  empty_iff := by
    intro s
    have hends : lineEnds s.toList = [] ↔ s.toList = [] := by
      cases s.toList with
      | nil => exact iff_of_true rfl rfl
      | cons c cs =>
        rw [lineEnds, lineEndsFrom]
        split
        · exact iff_of_false (List.cons_ne_nil _ _) (List.cons_ne_nil _ _)
        · simp
    rw [← String.toList_eq_nil_iff, flat, spaces, String.toList_ofList, List.map_eq_nil_iff,
      lineFeeds, String.toList_ofList, hends, String.toList_eq_nil_iff]

end RunRecord.Xml
