import RunRecord.Proofs.Text.Utf8
import RunRecord.Proofs.Xml.Reader
import RunRecord.Xml.Printer

/-!
# Proofs/Xml/RoundTrip — a written tree is read back

Markup and character data cannot be confused: in a value or a text the writer leaves no `<`, no `>`
and no quote, and each `&` opens one of the five entities.  So each token is read off the front of
what follows it, and the element tree comes back with the line breaks that lay it out as character
data between its elements (`read_render`).

The induction is over the element and is carried by a statement on what follows it: whatever stands
behind a written element, parsing goes on behind it with the element added.  The stack of open
elements and what has been read of the innermost are arbitrary, so children are covered by the same
statement as the root.
-/

namespace RunRecord.Xml

/-! ## Escapes

There are five characters to be escaped.  Each is treated once, by the case distinction
`markup_cases`, and all the others stand for themselves. -/

/-- The characters that are written as entities. -/
def markup : List Char := ['<', '>', '&', '\'', '"']

/-- Every other character stands for itself. -/
theorem escapeChar_of_not_mem {c : Char} (h : c ∉ markup) : escapeChar c = [c] := by
  simp only [markup, List.mem_cons, List.not_mem_nil, or_false, not_or] at h
  simp only [escapeChar, h, if_false]

/-- A character is one of the five, or stands for itself. -/
theorem markup_cases {p : Char → Prop} (lt : p '<') (gt : p '>') (amp : p '&') (apos : p '\'')
    (quot : p '"') (plain : ∀ c ∉ markup, p c) (c : Char) : p c := by
  by_cases hc : c ∈ markup
  · simp only [markup, List.mem_cons, List.not_mem_nil, or_false] at hc
    rcases hc with rfl | rfl | rfl | rfl | rfl
    · exact lt
    · exact gt
    · exact amp
    · exact apos
    · exact quot
  · exact plain c hc

/-- Escaped text holds no markup. -/
theorem ne_of_mem_escapeChar {c d : Char} (h : d ∈ escapeChar c) :
    d ≠ '<' ∧ d ≠ '>' ∧ d ≠ '"' := by
  have hall : (escapeChar c).all (fun d => d ≠ '<' ∧ d ≠ '>' ∧ d ≠ '"') = true := by
    induction c using markup_cases with
    | lt | gt | amp | apos | quot => rfl
    | plain c hc =>
      rw [escapeChar_of_not_mem hc]
      simp only [markup, List.mem_cons, List.not_mem_nil, or_false, not_or] at hc
      simp [hc]
  exact of_decide_eq_true (List.all_eq_true.1 hall d h)

/-- Escaped text holds no quote and no bracket of a tag. -/
theorem ne_of_mem_escape {s : String} {d : Char} (h : d ∈ escape s) :
    d ≠ '<' ∧ d ≠ '>' ∧ d ≠ '"' := by
  obtain ⟨c, -, hd⟩ := List.mem_flatMap.1 h
  exact ne_of_mem_escapeChar hd

theorem isAllowed_of_mem_escapeChar {c d : Char} (hc : isAllowed c = true)
    (h : d ∈ escapeChar c) : isAllowed d = true := by
  have hall : (escapeChar c).all isAllowed = true := by
    induction c using markup_cases with
    | lt | gt | amp | apos | quot => rfl
    | plain c hmem =>
      rw [escapeChar_of_not_mem hmem, List.all_cons, hc]
      rfl
  exact List.all_eq_true.1 hall d h

/-- A character that opens no reference stands for itself, and so do all of a text without an
ampersand. -/
theorem resolve_cons {c : Char} (hlt : c ≠ '<') (hamp : c ≠ '&') (cs : List Char) :
    resolve none (c :: cs) = (resolve none cs).map (c :: ·) := by
  simp only [resolve, hlt, hamp, if_false]

/-- **An escaped character is resolved to that character.**  What follows is resolved as it would be
without it. -/
theorem resolve_escapeChar (c : Char) (cs : List Char) :
    resolve none (escapeChar c ++ cs) = (resolve none cs).map (c :: ·) := by
  induction c using markup_cases with
  | lt | gt | amp | apos | quot => rfl
  | plain c hc =>
    rw [escapeChar_of_not_mem hc]
    simp only [markup, List.mem_cons, List.not_mem_nil, or_false, not_or] at hc
    exact resolve_cons hc.1 hc.2.2.1 cs

/-- An escaped text is resolved to that text. -/
theorem resolve_escape (s : String) : resolve none (escape s) = some s.toList := by
  rw [escape]
  induction s.toList with
  | nil => rfl
  | cons c cs ih => rw [List.flatMap_cons, resolve_escapeChar, ih, Option.map_some]

/-! ## Names and tags

A name is read as far as it goes, so it has to be followed by something that is no part of a name.
All that the writer puts there is an equals sign, a blank or the end of the tag. -/

/-- Whether a text is a name. -/
def isName (s : String) : Bool := s.toList.head?.any isNameStart && s.toList.all isNameChar

/-- What may stand behind a name: a character that does not carry it on. -/
def EndsName (r : List Char) : Prop := r.head?.any isNameChar = false

/-- A name is read from its characters. -/
theorem name?_append {s : String} (hs : isName s = true) {r : List Char} (hr : EndsName r) :
    name? (s.toList ++ r) = some (s, r) := by
  simp only [isName, Bool.and_eq_true, List.all_eq_true] at hs
  obtain ⟨hstart, hchars⟩ := hs
  have hhead : ((s.toList ++ r).head?.any isNameStart) = true := by
    rw [List.head?_append]
    cases hcs : s.toList.head? with
    | none => rw [hcs] at hstart; cases hstart
    | some c => rwa [hcs] at hstart
  have hdrop : r.dropWhile isNameChar = r := by
    cases r with
    | nil => rfl
    | cons c r => exact List.dropWhile_cons_of_neg (by simpa [EndsName] using hr)
  have htake : r.takeWhile isNameChar = [] := by
    cases r with
    | nil => rfl
    | cons c r => exact List.takeWhile_cons_of_neg (by simpa [EndsName] using hr)
  rw [name?, if_pos hhead, List.takeWhile_append_of_pos hchars, List.dropWhile_append_of_pos hchars,
    hdrop, htake, List.append_nil, String.ofList_toList]

/-- A value is read from its quotes. -/
theorem value?_escape (s : String) (r : List Char) :
    value? ('"' :: (escape s ++ '"' :: r)) = some (s, r) := by
  have hplain : ∀ c ∈ escape s, (c != '"') = true := fun c hc => by
    simpa using (ne_of_mem_escape hc).2.2
  have hdrop : (escape s ++ '"' :: r).dropWhile (· != '"') = '"' :: r := by
    rw [List.dropWhile_append_of_pos hplain, List.dropWhile_cons_of_neg (by simp)]
  have htake : (escape s ++ '"' :: r).takeWhile (· != '"') = escape s := by
    rw [List.takeWhile_append_of_pos hplain, List.takeWhile_cons_of_neg (by simp), List.append_nil]
  simp only [value?, hdrop, htake, resolve_escape, Option.map_some, String.ofList_toList]

/-- An attribute is read from its name and its quoted value. -/
theorem attribute?_write {a : String × String} (ha : isName a.1 = true) (r : List Char) :
    attribute? (a.1.toList ++ '=' :: '"' :: (escape a.2 ++ '"' :: r)) = some (a, r) := by
  have hequals : equals? ('=' :: '"' :: (escape a.2 ++ '"' :: r))
      = some ('"' :: (escape a.2 ++ '"' :: r)) := rfl
  have hname : name? (a.1.toList ++ '=' :: '"' :: (escape a.2 ++ '"' :: r))
      = some (a.1, '=' :: '"' :: (escape a.2 ++ '"' :: r)) := name?_append ha rfl
  simp only [attribute?, hname, hequals, value?_escape, Option.bind_eq_bind, Option.bind_some]

/-- A name starts with no white space. -/
theorem dropWhile_isSpace_name {s : String} (hs : isName s = true) (r : List Char) :
    (s.toList ++ r).dropWhile isSpace = s.toList ++ r := by
  simp only [isName, Bool.and_eq_true] at hs
  cases hcs : s.toList with
  | nil => rw [hcs] at hs; exact absurd hs.1 (by decide)
  | cons c cs =>
    rw [hcs, List.head?_cons, Option.any_some] at hs
    refine List.dropWhile_cons_of_neg fun hspace => ?_
    simp only [isSpace, Bool.or_eq_true, beq_iff_eq] at hspace
    rcases hspace with ((rfl | rfl) | rfl) | rfl <;> exact absurd hs.1 (by decide)

/-- What may stand behind the attributes of a tag: its end. -/
def EndsTag (r : List Char) : Prop := ∃ t, r = '>' :: t ∨ r = '/' :: '>' :: t

theorem EndsTag.endsName {r : List Char} (h : EndsTag r) : EndsName r := by
  obtain ⟨t, rfl | rfl⟩ := h <;> rfl

/-- **Attributes are read back**, up to the end of their tag, in their order and with their values
unescaped. -/
theorem attributes_write {as : List (String × String)} (has : ∀ a ∈ as, isName a.1 = true)
    {r : List Char} (hr : EndsTag r) : attributes (as.flatMap writeAttribute ++ r) = (as, r) := by
  induction as with
  | nil =>
    obtain ⟨t, rfl | rfl⟩ := hr <;> rw [List.flatMap_nil, List.nil_append, attributes] <;> rfl
  | cons a as ih =>
    have ha := has a List.mem_cons_self
    have hrest := ih fun b hb => has b (List.mem_cons_of_mem _ hb)
    have hwrite : (a :: as).flatMap writeAttribute ++ r
        = ' ' :: (a.1.toList ++ '=' :: '"' ::
            (escape a.2 ++ '"' :: (as.flatMap writeAttribute ++ r))) := by
      simp [writeAttribute]
    have hspace : (' ' :: (a.1.toList ++ '=' :: '"' ::
          (escape a.2 ++ '"' :: (as.flatMap writeAttribute ++ r)))).dropWhile isSpace
        = a.1.toList ++ '=' :: '"' :: (escape a.2 ++ '"' :: (as.flatMap writeAttribute ++ r)) := by
      rw [List.dropWhile_cons_of_pos (by decide), dropWhile_isSpace_name ha]
    rw [hwrite, attributes]
    split
    · split
      · next hnone => rw [hspace, attribute?_write ha] at hnone; cases hnone
      · next hsome =>
        rw [hspace, attribute?_write ha] at hsome
        cases hsome
        rw [hrest]
    · next hne => exact absurd rfl hne

/-- What a tag is made of: a name, and attributes with distinct names. -/
structure IsTag (name : String) (attributes : List (String × String)) : Prop where
  name : isName name = true
  keys : ∀ a ∈ attributes, isName a.1 = true
  nodup : (attributes.map Prod.fst).Nodup

section Tags

variable {name : String} {as : List (String × String)}

/-- A tag that starts with a name is no end tag. -/
theorem tag?_openTag (h : IsTag name as) {r : List Char} (hr : EndsTag r) :
    tag? (name.toList ++ (as.flatMap writeAttribute ++ r)) = tagEnd? name as r := by
  have hends : EndsName (as.flatMap writeAttribute ++ r) := by
    cases as with
    | nil => exact hr.endsName
    | cons a as => rfl
  have hstart : startTag? (name.toList ++ (as.flatMap writeAttribute ++ r))
      = tagEnd? name as r := by
    simp only [startTag?, name?_append h.name hends, Option.bind_eq_bind, Option.bind_some,
      attributes_write h.keys hr]
    exact if_pos h.nodup
  have hslash : ∀ cs, name.toList ++ (as.flatMap writeAttribute ++ r) = '/' :: cs → False :=
    fun cs hcs => by
      have hn := h.name
      rw [isName] at hn
      cases hchars : name.toList with
      | nil => rw [hchars] at hn; cases hn
      | cons c ds =>
        rw [hchars, List.cons_append] at hcs
        rw [hchars, (List.cons.inj hcs).1] at hn
        cases hn
  rw [tag?, hstart]
  exact hslash

theorem endTag?_closeTag (h : isName name = true) (r : List Char) :
    endTag? (name.toList ++ '>' :: r) = some (.stop name, r) := by
  have hname : name? (name.toList ++ '>' :: r) = some (name, '>' :: r) := name?_append h rfl
  simp only [endTag?, hname, Option.bind_eq_bind, Option.bind_some]
  rfl

end Tags

/-! ## Tokens put together

Cutting into tokens and putting them together are treated as one step, for a tag or a text in front
of what follows. -/

/-- The content that the tokens of a text make. -/
def parse (contents : List Content) (frames : List Frame) (cs : List Char) :
    Option (List Content) :=
  (tokens? cs).bind (assemble contents frames)

section Parse

variable {name : String} {as : List (String × String)} {contents : List Content}
  {frames : List Frame}

theorem parse_tag {token : Token} {cs r : List Char} (h : tag? cs = some (token, r)) :
    parse contents frames ('<' :: cs)
      = (tokens? r).bind fun tokens => assemble contents frames (token :: tokens) := by
  rw [parse, tokens?, if_pos rfl]
  split
  · next hnone => rw [h] at hnone; cases hnone
  · next hsome =>
    rw [h] at hsome
    cases hsome
    rw [Option.bind_map]
    rfl

/-- A start tag opens an element. -/
theorem parse_start (h : IsTag name as) (r : List Char) :
    parse contents frames (openTag name as ++ '>' :: r)
      = parse [] ({ name, attributes := as, before := contents } :: frames) r := by
  have htag : tag? (name.toList ++ (as.flatMap writeAttribute ++ '>' :: r))
      = some (.start name as, r) := by
    rw [tag?_openTag h ⟨r, .inl rfl⟩, tagEnd?]
  rw [openTag, List.cons_append, List.append_assoc, parse_tag htag]
  rfl

/-- An empty-element tag is a whole element. -/
theorem parse_empty (h : IsTag name as) (r : List Char) :
    parse contents frames (openTag name as ++ '/' :: '>' :: r)
      = parse (contents ++ [.element name as []]) frames r := by
  have htag : tag? (name.toList ++ (as.flatMap writeAttribute ++ '/' :: '>' :: r))
      = some (.empty name as, r) := by
    rw [tag?_openTag h ⟨r, .inr rfl⟩, tagEnd?]
  rw [openTag, List.cons_append, List.append_assoc, parse_tag htag]
  rfl

/-- An end tag closes the element that it names. -/
theorem parse_stop (h : isName name = true) {before : List Content}
    (hcontents : Content.areUnmixed contents = true) (r : List Char) :
    parse contents ({ name, attributes := as, before } :: frames) (closeTag name ++ r)
      = parse (before ++ [.element name as contents]) frames r := by
  have htag : tag? ('/' :: (name.toList ++ '>' :: r)) = some (.stop name, r) :=
    endTag?_closeTag h r
  rw [closeTag, List.cons_append, List.cons_append, List.append_assoc, List.singleton_append,
    parse_tag htag, parse]
  refine congrArg (Option.bind (tokens? r)) (funext fun tokens => ?_)
  rw [assemble, if_pos ⟨rfl, hcontents⟩]

/-- Character data reaches up to the next tag. -/
theorem parse_data {text : String} {cs : List Char} (hne : cs ≠ [])
    (hplain : ∀ c ∈ cs, c ≠ '<' ∧ c ≠ '>') (htext : resolve none cs = some text.toList)
    (r : List Char) :
    parse contents frames (cs ++ '<' :: r)
      = parse (contents ++ [.data text]) frames ('<' :: r) := by
  obtain ⟨c, ds, rfl⟩ := List.exists_cons_of_ne_nil hne
  have hds : ∀ d ∈ ds, (d != '<') = true := fun d hd => by
    simpa using (hplain d (List.mem_cons_of_mem _ hd)).1
  have hmark : ¬ [']', ']', '>'] <:+: c :: ds := fun hpart =>
    (hplain '>' (hpart.subset (by decide))).2 rfl
  have hdata : data? (c :: ds) = some (.data text) := by
    rw [data?, if_neg hmark, htext, Option.map_some, Function.comp_apply, String.ofList_toList]
  rw [parse, List.cons_append, tokens?, if_neg (hplain c List.mem_cons_self).1,
    List.takeWhile_append_of_pos hds, List.dropWhile_append_of_pos hds,
    List.takeWhile_cons_of_neg (by simp), List.dropWhile_cons_of_neg (by simp), List.append_nil,
    hdata, Option.bind_some, Option.bind_map]
  rfl

end Parse

/-! ## Elements -/

/-- The line break and the indent that stand before an element. -/
def indent (depth : Nat) : Content := .data (String.ofList (newline depth))

namespace Element

mutual

/-- An element as content at a depth of nesting, with the white space that lays it out. -/
def content (depth : Nat) : Element → Content
  | .leaf name attributes => .element name attributes []
  | .text name attributes body =>
    .element name attributes (if body = "" then [] else [.data body])
  | .node name attributes children =>
    .element name attributes (contents (depth + 1) children ++ [indent depth])

/-- Elements as content, each behind its line break. -/
def contents (depth : Nat) : List Element → List Content
  | [] => []
  | e :: es => indent depth :: content depth e :: contents depth es

end

/-- **An element that can be written**: every tag is one, and every string is of allowed
characters. -/
inductive IsWritable : Element → Prop
  | leaf {name : String} {as : List (String × String)} :
    IsTag name as → (∀ a ∈ as, ∀ c ∈ a.2.toList, isAllowed c = true) → IsWritable (.leaf name as)
  | text {name : String} {as : List (String × String)} {body : String} :
    IsTag name as → (∀ a ∈ as, ∀ c ∈ a.2.toList, isAllowed c = true) →
      (∀ c ∈ body.toList, isAllowed c = true) → IsWritable (.text name as body)
  | node {name : String} {as : List (String × String)} {children : List Element} :
    IsTag name as → (∀ a ∈ as, ∀ c ∈ a.2.toList, isAllowed c = true) →
      (∀ e ∈ children, IsWritable e) → IsWritable (.node name as children)

end Element

/-- Line breaks and spaces are all that lays out a document. -/
theorem forall_mem_newline {p : Char → Prop} (hfeed : p '\n') (hspace : p ' ') (depth : Nat) :
    ∀ c ∈ newline depth, p c := by
  intro c hc
  rcases List.mem_cons.1 hc with rfl | hc
  · exact hfeed
  · rwa [List.eq_of_mem_replicate hc]

/-- A line break with its indent is character data. -/
theorem parse_indent (depth : Nat) {contents : List Content} {frames : List Frame}
    (r : List Char) :
    parse contents frames (newline depth ++ '<' :: r)
      = parse (contents ++ [indent depth]) frames ('<' :: r) := by
  have hspaces : ∀ count, resolve none (List.replicate count ' ')
      = some (List.replicate count ' ') := fun count => by
    induction count with
    | zero => rfl
    | succ count ih =>
      rw [List.replicate_succ, resolve_cons (by decide) (by decide), ih, Option.map_some]
  have hresolve : resolve none (newline depth) = some (String.ofList (newline depth)).toList := by
    rw [String.toList_ofList, newline, resolve_cons (by decide) (by decide), hspaces,
      Option.map_some]
  have hplain : ∀ c ∈ newline depth, c ≠ '<' ∧ c ≠ '>' :=
    forall_mem_newline (by decide) (by decide) depth
  exact parse_data (List.cons_ne_nil _ _) hplain hresolve r

/-- An element starts with a tag. -/
theorem exists_write_eq (depth : Nat) (e : Element) : ∃ cs, write depth e = '<' :: cs := by
  cases e <;> rw [write, openTag] <;> exact ⟨_, rfl⟩

theorem isBlank_indent (depth : Nat) : (indent depth).isBlank = true := by
  rw [indent, Content.isBlank, String.toList_ofList, newline, List.all_cons]
  simp [isSpace]

/-- What lies between the tags of a parent: elements and white space. -/
theorem isElement_or_isBlank_of_mem_contents {depth : Nat} {es : List Element} {c : Content}
    (h : c ∈ Element.contents depth es) : (c.isElement || c.isBlank) = true := by
  induction es with
  | nil => cases h
  | cons e es ih =>
    rw [Element.contents, List.mem_cons, List.mem_cons] at h
    rcases h with rfl | rfl | h
    · rw [isBlank_indent, Bool.or_true]
    · cases e <;> rfl
    · exact ih h

theorem areUnmixed_contents (depth : Nat) (es : List Element) :
    Content.areUnmixed (Element.contents (depth + 1) es ++ [indent depth]) = true := by
  rw [Content.areUnmixed, Bool.or_eq_true, List.all_eq_true]
  refine .inr fun c hc => ?_
  rcases List.mem_append.1 hc with hc | hc
  · exact isElement_or_isBlank_of_mem_contents hc
  · obtain rfl := List.mem_singleton.1 hc
    rw [isBlank_indent, Bool.or_true]

/-- A text between its tags. -/
theorem parse_body {contents : List Content} {frames : List Frame} (body : String)
    (r : List Char) :
    parse contents frames (escape body ++ '<' :: r)
      = parse (contents ++ if body = "" then [] else [.data body]) frames ('<' :: r) := by
  by_cases hbody : body = ""
  · subst hbody
    rw [if_pos rfl, List.append_nil]
    rfl
  · rw [if_neg hbody]
    have hne : escape body ≠ [] := fun hnil => by
      have hresolve := resolve_escape body
      rw [hnil] at hresolve
      exact hbody (String.toList_eq_nil_iff.1 (Option.some.inj hresolve).symm)
    exact parse_data hne (fun c hc => ⟨(ne_of_mem_escape hc).1, (ne_of_mem_escape hc).2.1⟩)
      (resolve_escape body) r

mutual

/-- **An element is read off the front of what follows it.**  Its children are read by the same
induction, each behind its line break. -/
theorem parse_write (depth : Nat) {e : Element} (he : e.IsWritable) (contents : List Content)
    (frames : List Frame) (r : List Char) :
    parse contents frames (write depth e ++ r)
      = parse (contents ++ [e.content depth]) frames r := by
  match e, he with
  | .leaf name as, .leaf htag _ =>
    rw [write, List.append_assoc, Element.content]
    exact parse_empty htag r
  | .text name as body, .text htag _ _ =>
    have hunmixed : Content.areUnmixed (if body = "" then [] else [.data body]) = true := by
      split <;> rfl
    rw [write, List.append_assoc, List.cons_append, parse_start htag, List.append_assoc, closeTag,
      List.cons_append, parse_body, List.nil_append, ← List.cons_append, ← closeTag,
      parse_stop htag.name hunmixed, Element.content]
  | .node name as children, .node htag _ hchildren =>
    rw [write, List.append_assoc, List.cons_append, parse_start htag, List.append_assoc,
      List.append_assoc, parse_writeAll (depth + 1) hchildren, List.nil_append, closeTag,
      List.cons_append, parse_indent, ← List.cons_append, ← closeTag,
      parse_stop htag.name (areUnmixed_contents depth children), Element.content]
termination_by sizeOf e

/-- Elements are read one by one. -/
theorem parse_writeAll (depth : Nat) {es : List Element} (hes : ∀ e ∈ es, e.IsWritable)
    (contents : List Content) (frames : List Frame) (r : List Char) :
    parse contents frames (writeAll depth es ++ r)
      = parse (contents ++ Element.contents depth es) frames r := by
  match es with
  | [] => rw [writeAll, Element.contents, List.nil_append, List.append_nil]
  | e :: es =>
    have he := hes e List.mem_cons_self
    obtain ⟨cs, hcs⟩ := exists_write_eq depth e
    have hwrite : newline depth ++ write depth e ++ writeAll depth es ++ r
        = newline depth ++ '<' :: (cs ++ (writeAll depth es ++ r)) := by
      rw [hcs]
      simp only [List.append_assoc, List.cons_append]
    rw [writeAll, hwrite, parse_indent, ← List.cons_append, ← hcs, parse_write depth he,
      parse_writeAll depth fun d hd => hes d (List.mem_cons_of_mem _ hd), Element.contents,
      List.append_assoc, List.append_assoc]
    rfl
termination_by sizeOf es

end

/-! ## Allowed characters

The writer adds nothing to the strings but names, entities and white space, all of which are
allowed. -/

theorem isAllowed_of_isNameChar {c : Char} (h : isNameChar c = true) : isAllowed c = true := by
  have hranges : ∀ r ∈ nameStartRanges ++ nameRestRanges,
      0x20 ≤ r.1 ∧ r.2 ≤ 0xD7FF ∨ 0xE000 ≤ r.1 ∧ r.2 ≤ 0xFFFD ∨ 0x10000 ≤ r.1 := by decide
  obtain ⟨r, hr, hc⟩ := List.any_eq_true.1 h
  have hbounds := hranges r hr
  simp only [Bool.and_eq_true, decide_eq_true_eq] at hc
  simp only [isAllowed, Bool.or_eq_true, Bool.and_eq_true, decide_eq_true_eq, beq_iff_eq]
  omega

theorem isAllowed_of_mem_name {s : String} (hs : isName s = true) {c : Char}
    (hc : c ∈ s.toList) : isAllowed c = true := by
  simp only [isName, Bool.and_eq_true, List.all_eq_true] at hs
  exact isAllowed_of_isNameChar (hs.2 c hc)

theorem isAllowed_of_mem_escape {s : String} (hs : ∀ c ∈ s.toList, isAllowed c = true) {d : Char}
    (hd : d ∈ escape s) : isAllowed d = true := by
  obtain ⟨c, hc, hd⟩ := List.mem_flatMap.1 hd
  exact isAllowed_of_mem_escapeChar (hs c hc) hd

theorem isAllowed_of_mem_newline {depth : Nat} {c : Char} (hc : c ∈ newline depth) :
    isAllowed c = true := by
  have hall : ∀ c ∈ newline depth, isAllowed c = true :=
    forall_mem_newline (by decide) (by decide) depth
  exact hall c hc

theorem isAllowed_of_mem_openTag {name : String} {as : List (String × String)}
    (htag : IsTag name as) (has : ∀ a ∈ as, ∀ c ∈ a.2.toList, isAllowed c = true) {c : Char}
    (hc : c ∈ openTag name as) : isAllowed c = true := by
  rcases List.mem_cons.1 hc with rfl | hc
  · decide
  rcases List.mem_append.1 hc with hc | hc
  · exact isAllowed_of_mem_name htag.name hc
  obtain ⟨a, ha, hc⟩ := List.mem_flatMap.1 hc
  simp only [writeAttribute, List.mem_cons, List.mem_append, List.not_mem_nil, or_false] at hc
  rcases hc with rfl | hc | rfl | rfl | hc | rfl
  · decide
  · exact isAllowed_of_mem_name (htag.keys a ha) hc
  · decide
  · decide
  · exact isAllowed_of_mem_escape (has a ha) hc
  · decide

theorem isAllowed_of_mem_closeTag {name : String} (h : isName name = true) {c : Char}
    (hc : c ∈ closeTag name) : isAllowed c = true := by
  simp only [closeTag, List.mem_cons, List.mem_append, List.not_mem_nil, or_false] at hc
  rcases hc with rfl | rfl | hc | rfl
  · decide
  · decide
  · exact isAllowed_of_mem_name h hc
  · decide

mutual

/-- **What can be written is written in allowed characters.**  Its own characters are in its
strings; all the others are those of names, entities and layout. -/
theorem isAllowed_of_mem_write {depth : Nat} {e : Element} (he : e.IsWritable) {c : Char}
    (hc : c ∈ write depth e) : isAllowed c = true := by
  match e, he with
  | .leaf name as, .leaf htag has =>
    rw [write, List.mem_append] at hc
    rcases hc with hc | hc
    · exact isAllowed_of_mem_openTag htag has hc
    · exact List.all_eq_true.1 (by rfl : ['/', '>'].all isAllowed = true) c hc
  | .text name as body, .text htag has hbody =>
    rw [write, List.mem_append, List.mem_cons, List.mem_append] at hc
    rcases hc with hc | rfl | hc | hc
    · exact isAllowed_of_mem_openTag htag has hc
    · decide
    · exact isAllowed_of_mem_escape hbody hc
    · exact isAllowed_of_mem_closeTag htag.name hc
  | .node name as children, .node htag has hchildren =>
    rw [write, List.mem_append, List.mem_cons, List.mem_append, List.mem_append] at hc
    rcases hc with hc | rfl | (hc | hc) | hc
    · exact isAllowed_of_mem_openTag htag has hc
    · decide
    · exact isAllowed_of_mem_writeAll hchildren hc
    · exact isAllowed_of_mem_newline hc
    · exact isAllowed_of_mem_closeTag htag.name hc
termination_by sizeOf e

/-- So are elements written one after another. -/
theorem isAllowed_of_mem_writeAll {depth : Nat} {es : List Element}
    (hes : ∀ e ∈ es, e.IsWritable) {c : Char} (hc : c ∈ writeAll depth es) :
    isAllowed c = true := by
  match es with
  | [] => cases hc
  | e :: es =>
    rw [writeAll, List.mem_append, List.mem_append] at hc
    rcases hc with (hc | hc) | hc
    · exact isAllowed_of_mem_newline hc
    · exact isAllowed_of_mem_write (hes e List.mem_cons_self) hc
    · exact isAllowed_of_mem_writeAll (fun d hd => hes d (List.mem_cons_of_mem _ hd)) hc
termination_by sizeOf es

end

/-! ## Documents -/

/-- **The reader gets a written element back**, with the white space between its children. -/
theorem read_render {e : Element} (he : e.IsWritable) :
    read (Utf8.encode (render e)) = some (e.content 0) := by
  have hdecode : Utf8.decode? (Utf8.encode (render e)) = some (render e) := by
    rw [Utf8.decode?, Utf8.decode_encode]
  have hallowed : (render e).all isAllowed = true :=
    List.all_eq_true.2 fun c hc => isAllowed_of_mem_write he hc
  have hparse : parse [] [] (render e) = some [e.content 0] := by
    have hwrite := parse_write 0 he [] [] []
    rw [List.append_nil] at hwrite
    rw [render, hwrite, parse, tokens?]
    rfl
  have hroot : root? [e.content 0] = some (e.content 0) := by cases e <;> rfl
  simp only [read, hdecode, Option.bind_eq_bind, Option.bind_some, hallowed, if_true]
  rw [← Option.bind_assoc]
  change (parse [] [] (render e)).bind root? = _
  rw [hparse, Option.bind_some, hroot]

end RunRecord.Xml
