import RunRecord.Proofs.Xml.RoundTrip

/-!
# Proofs/Xml/Strings — a tree with other strings in it

The strings of a tree are its attribute values and its texts.  A function that **keeps** the empty
string and all strings of graphic characters can change nothing that a report says in words of its
own: numbers, instants and names of kinds.

Two functions are needed for two kinds of strings, since making a tree safe treats both alike, but
reading it does not.  Everything that a report does with its strings is a case of `mapStrings`, so
that what follows for the document has to be proved only once.
-/

namespace RunRecord.Xml

/-! ## Functions on strings

A function that is to be applied to all strings of a tree must not change the tree's shape.  The
only thing there that depends on a string is whether an optional attribute is empty. -/

/-- Whether a character is visible and from the ASCII range. -/
def isGraphic (c : Char) : Bool := 0x21 ≤ c.toNat && c.toNat ≤ 0x7E

theorem isAllowed_of_isGraphic {c : Char} (h : isGraphic c = true) : isAllowed c = true := by
  simp only [isGraphic, Bool.and_eq_true, decide_eq_true_eq] at h
  simp only [isAllowed, Bool.or_eq_true, Bool.and_eq_true, decide_eq_true_eq, beq_iff_eq]
  omega

/-- A function that **keeps** the empty string, and no other one becomes empty, and that keeps all
strings of graphic characters. -/
structure Keeps (f : String → String) : Prop where
  graphic : ∀ {s : String}, (∀ c ∈ s.toList, isGraphic c = true) → f s = s
  empty_iff : ∀ {s : String}, f s = "" ↔ s = ""

/-- Whether a string is empty is not changed. -/
theorem Keeps.beq_empty {f : String → String} (h : Keeps f) (s : String) :
    (f s == "") = (s == "") := by
  rw [Bool.eq_iff_iff, beq_iff_eq, beq_iff_eq, h.empty_iff]

/-- **Making strings safe keeps what is written in graphic characters.**  Such characters are all
allowed, and no string becomes empty by replacing characters. -/
theorem keeps_safe : Keeps safe where
  graphic hs := safe_of_isAllowed fun c hc => isAllowed_of_isGraphic (hs c hc)
  empty_iff := by
    intro s
    rw [← String.toList_eq_nil_iff, safe, String.toList_ofList, List.map_eq_nil_iff,
      String.toList_eq_nil_iff]

/-! ## Attributes

Attributes are changed in their values only, so their names, and with them whether a tag is one,
stay as they are. -/

@[simp] theorem mapValues_append (f : String → String) (as bs : List (String × String)) :
    Element.mapValues f (as ++ bs) = Element.mapValues f as ++ Element.mapValues f bs :=
  List.map_append

@[simp] theorem mapValues_cons (f : String → String) (a : String × String)
    (as : List (String × String)) :
    Element.mapValues f (a :: as) = (a.1, f a.2) :: Element.mapValues f as := rfl

@[simp] theorem mapValues_nil (f : String → String) : Element.mapValues f [] = [] := rfl

theorem mapValues_mapValues (f g : String → String) (as : List (String × String)) :
    Element.mapValues f (Element.mapValues g as) = Element.mapValues (f ∘ g) as := List.map_map

theorem IsTag.mapValues {name : String} {as : List (String × String)} (h : IsTag name as)
    (f : String → String) : IsTag name (Element.mapValues f as) where
  name := h.name
  keys a ha := by
    obtain ⟨b, hb, rfl⟩ := List.mem_map.1 ha
    exact h.keys b hb
  nodup := by
    have hkeys : (Element.mapValues f as).map Prod.fst = as.map Prod.fst := by
      rw [Element.mapValues, List.map_map]
      rfl
    rw [hkeys]
    exact h.nodup

/-! ## Trees -/

namespace Element

/-- Applies a function to every attribute value of a tree and another one to every text. -/
def mapStrings (f g : String → String) : Element → Element
  | .leaf name attributes => .leaf name (mapValues f attributes)
  | .text name attributes body => .text name (mapValues f attributes) (g body)
  | .node name attributes children =>
    .node name (mapValues f attributes) (children.map fun child => mapStrings f g child)

/-- One function for both kinds is the function on all strings. -/
theorem mapStrings_self (f : String → String) (e : Element) : e.mapStrings f f = e.mapText f := by
  match e with
  | .leaf name as => rw [mapStrings, mapText]
  | .text name as body => rw [mapStrings, mapText]
  | .node name as children =>
    rw [mapStrings, mapText]
    exact congrArg _ (List.map_congr_left fun e he => mapStrings_self f e)
termination_by sizeOf e

/-- To change strings twice is to change them once by both functions. -/
theorem mapStrings_mapText (f g h : String → String) (e : Element) :
    (e.mapText h).mapStrings f g = e.mapStrings (f ∘ h) (g ∘ h) := by
  match e with
  | .leaf name as => rw [mapText, mapStrings, mapStrings, mapValues_mapValues]
  | .text name as body => rw [mapText, mapStrings, mapStrings, mapValues_mapValues]; rfl
  | .node name as children =>
    rw [mapText, mapStrings, mapStrings, mapValues_mapValues, List.map_map]
    exact congrArg _ (List.map_congr_left fun e he => mapStrings_mapText f g h e)
termination_by sizeOf e

theorem mapStrings_ofChildren (f g : String → String) (name : String)
    (as : List (String × String)) (children : List Element) :
    (ofChildren name as children).mapStrings f g
      = ofChildren name (mapValues f as) (children.map (mapStrings f g)) := by
  cases children <;> simp [ofChildren, mapStrings]

/-- A tree can be written with other strings in it, if they are of allowed characters. -/
theorem IsWritable.mapText {f : String → String}
    (hf : ∀ s, (∀ c ∈ s.toList, isAllowed c = true) → ∀ c ∈ (f s).toList, isAllowed c = true)
    {e : Element} (he : e.IsWritable) : (e.mapText f).IsWritable := by
  have hvalues {as : List (String × String)}
      (has : ∀ a ∈ as, ∀ c ∈ a.2.toList, isAllowed c = true) :
      ∀ a ∈ mapValues f as, ∀ c ∈ a.2.toList, isAllowed c = true := by
    intro a ha
    obtain ⟨b, hb, rfl⟩ := List.mem_map.1 ha
    exact hf b.2 (has b hb)
  induction he with
  | leaf htag has =>
    rw [Element.mapText]
    exact .leaf (htag.mapValues f) (hvalues has)
  | text htag has hbody =>
    rw [Element.mapText]
    exact .text (htag.mapValues f) (hvalues has) (hf _ hbody)
  | node htag has _ ih =>
    rw [Element.mapText]
    refine .node (htag.mapValues f) (hvalues has) fun e he => ?_
    obtain ⟨d, hd, rfl⟩ := List.mem_map.1 he
    exact ih d hd

end Element

end RunRecord.Xml
