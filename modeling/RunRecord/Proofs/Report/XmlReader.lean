import RunRecord.Proofs.Report.Strings

/-!
# Proofs/Report/XmlReader — an XML report says what was recorded

The XML document of a suite is read by a reader that knows nothing of reports (`Xml.read`), and what
it returns is the element tree of the suite **made safe**: the suite with every string in it made
safe, and nothing else changed.  A suite is read off that tree again (`Suite.ofContent?`), so what a
string holds can neither forge nor hide a part of the report.

The reader of reports is written for this purpose and follows the format from the outside: it looks
for attributes and elements by their names, and fails where one that it needs is missing.  That a
suite comes back from it shows that every node can be told by its element, and every optional part
by its absence.
-/

namespace RunRecord

open Xml

/-! ## Safe reports

Making a suite safe changes its strings and nothing else.  Instants, flags and counts have no
characters that XML does not allow. -/

/-- A timing with its time made safe. -/
def Timing.safe (t : Timing) : Timing := { t with time := Xml.safe t.time }

/-- A failure with its strings made safe. -/
def Failure.safe (failure : Failure) : Failure :=
  { message := Xml.safe failure.message, kind := Xml.safe failure.kind }

/-- An operation with its strings made safe. -/
def Operation.safe (operation : Operation) : Operation :=
  { operation with
    name := Xml.safe operation.name
    timing := operation.timing.safe
    result := Xml.safe operation.result
    message := operation.message.map Xml.safe }

/-- A step with its strings made safe. -/
def Step.safe (step : Step) : Step :=
  { name := Xml.safe step.name, operations := step.operations.map Operation.safe }

/-- A test with its strings made safe. -/
def Test.safe (test : Test) : Test :=
  { test with
    name := Xml.safe test.name
    timing := test.timing.safe
    failure := test.failure.map Failure.safe
    steps := test.steps.map Step.safe
    scope := Xml.safe test.scope }

/-- **A suite with every string in it made safe.**  Instants, kinds, flags and the failure count
have nothing that would have to be replaced. -/
def Suite.safe (suite : Suite) : Suite :=
  { suite with
    name := Xml.safe suite.name
    timing := suite.timing.safe
    tests := suite.tests.map Test.safe }

/-- **The tree of a document is that of the suite made safe.**  So to make the strings safe before
or after the tree is built is the same. -/
theorem Suite.safeXml_eq (suite : Suite) : suite.safeXml = suite.safe.toXml := by
  have hsafe : suite.safe = suite.mapStrings Xml.safe Xml.safe := rfl
  rw [hsafe, suite.toXml_mapStrings keeps_safe, Element.mapStrings_self, safeXml]

/-! ### They can be written

A tree can be written if its names are names, no tag has an attribute twice and every character is
allowed.  The names are known in advance, so the check of them is a computation; the characters are
allowed because the strings are safe. -/

namespace Xml

/-- A tag whose attributes are some of the declared ones, in their order. -/
theorem IsTag.of_sublist {name : String} {as : List (String × String)} {declared : List String}
    (hname : isName name = true) (h : (as.map Prod.fst).Sublist declared)
    (hdeclared : declared.Nodup) (hkeys : declared.all isName = true) : IsTag name as where
  name := hname
  keys a ha := List.all_eq_true.1 hkeys a.1 (h.subset (List.mem_map_of_mem ha))
  nodup := hdeclared.sublist h

/-- Values that are made safe hold allowed characters only. -/
theorem isAllowed_of_mem_mapValues {as : List (String × String)} :
    ∀ a ∈ Element.mapValues safe as, ∀ c ∈ a.2.toList, isAllowed c = true := by
  intro a ha c hc
  obtain ⟨b, -, rfl⟩ := List.mem_map.1 ha
  exact isAllowed_of_mem_safe hc

/-- An element with these children can be written once made safe. -/
theorem Element.isWritable_ofChildren {name : String} {as : List (String × String)}
    {children : List Element} (h : IsTag name as)
    (hchildren : ∀ e ∈ children, (e.mapText safe).IsWritable) :
    ((ofChildren name as children).mapText safe).IsWritable := by
  rw [← mapStrings_self, mapStrings_ofChildren]
  unfold ofChildren
  split
  · exact .leaf (h.mapValues safe) isAllowed_of_mem_mapValues
  · refine .node (h.mapValues safe) isAllowed_of_mem_mapValues fun e he => ?_
    obtain ⟨d, hd, rfl⟩ := List.mem_map.1 he
    exact mapStrings_self safe d ▸ hchildren d hd

end Xml

theorem keys_attributeUnless (absent : Bool) (key value : String) :
    ((attributeUnless absent key value).map Prod.fst).Sublist [key] := by
  cases absent
  · exact List.Sublist.refl _
  · exact List.nil_sublist _

/-- The attributes of a timing are some of the three that it may have, in order. -/
theorem Timing.keys_attributes (t : Timing) :
    (t.attributes.map Prod.fst).Sublist ["startTime", "endTime", "time"] := by
  cases hstop : t.stop <;> simp [attributes, hstop]

theorem Failure.isWritable (failure : Failure) : (failure.toXml.mapText Xml.safe).IsWritable := by
  rw [toXml, Element.mapText]
  have hkeys : ([("message", failure.message), ("type", failure.kind)].map Prod.fst).Sublist
      ["message", "type"] := List.Sublist.refl _
  have htag : IsTag "failure" _ := .of_sublist (by decide) hkeys (by decide) (by decide)
  exact .leaf (htag.mapValues Xml.safe) isAllowed_of_mem_mapValues

theorem Operation.isWritable (operation : Operation) :
    (operation.toXml.mapText Xml.safe).IsWritable := by
  have hkeys : (([("name", operation.name)] ++ operation.timing.attributes ++
      [("result", operation.result), ("operationType", operation.kind.name)]).map Prod.fst).Sublist
      ["name", "startTime", "endTime", "time", "result", "operationType"] := by
    rw [List.map_append, List.map_append]
    exact ((List.Sublist.refl ["name"]).append operation.timing.keys_attributes).append
      (List.Sublist.refl _)
  refine Element.isWritable_ofChildren (.of_sublist (by decide) hkeys (by decide) (by decide)) ?_
  intro e he
  cases hmessage : operation.message with
  | none => rw [hmessage] at he; cases he
  | some message =>
    rw [hmessage] at he
    obtain rfl := List.mem_singleton.1 he
    have htag : IsTag "message" [] := .of_sublist (by decide) (List.Sublist.refl _) (by decide) rfl
    rw [Element.mapText]
    exact .text (htag.mapValues Xml.safe) isAllowed_of_mem_mapValues fun _ hc =>
      isAllowed_of_mem_safe hc

theorem Step.isWritable (step : Step) : (step.toXml.mapText Xml.safe).IsWritable := by
  have hkeys := keys_attributeUnless (step.name == "") "name" step.name
  refine Element.isWritable_ofChildren (.of_sublist (by decide) hkeys (by decide) (by decide)) ?_
  intro e he
  obtain ⟨operation, -, rfl⟩ := List.mem_map.1 he
  exact operation.isWritable

theorem Test.isWritable (test : Test) : (test.toXml.mapText Xml.safe).IsWritable := by
  have hkeys : (([("name", test.name)] ++ test.timing.attributes ++
      attributeUnless (!test.concurrent) "concurrent" "true" ++
      attributeUnless (test.scope == "") "namespace" test.scope ++
      attributeUnless (!test.skip) "skip" "true" ++
      attributeUnless (!test.skipDelete) "skipDelete" "true").map Prod.fst).Sublist
      ["name", "startTime", "endTime", "time", "concurrent", "namespace", "skip",
        "skipDelete"] := by
    simp only [List.map_append]
    exact (((((List.Sublist.refl ["name"]).append test.timing.keys_attributes).append
      (keys_attributeUnless _ _ _)).append (keys_attributeUnless _ _ _)).append
      (keys_attributeUnless _ _ _)).append (keys_attributeUnless _ _ _)
  refine Element.isWritable_ofChildren (.of_sublist (by decide) hkeys (by decide) (by decide)) ?_
  intro e he
  rcases List.mem_append.1 he with he | he
  · cases hfailure : test.failure with
    | none => rw [hfailure] at he; cases he
    | some failure =>
      rw [hfailure] at he
      obtain rfl := List.mem_singleton.1 he
      exact failure.isWritable
  · obtain ⟨step, -, rfl⟩ := List.mem_map.1 he
    exact step.isWritable

/-- **The tree of a document can be written**: its tags are tags, and it holds allowed characters
only. -/
theorem Suite.isWritable (suite : Suite) : suite.safeXml.IsWritable := by
  have hkeys : (([("name", suite.name)] ++ suite.timing.attributes ++
      [("failures", String.ofList (Digits.digits suite.failures))]).map Prod.fst).Sublist
      ["name", "startTime", "endTime", "time", "failures"] := by
    rw [List.map_append, List.map_append]
    exact ((List.Sublist.refl ["name"]).append suite.timing.keys_attributes).append
      (List.Sublist.refl _)
  have htag : IsTag "TestsReport" _ := .of_sublist (by decide) hkeys (by decide) (by decide)
  rw [safeXml, toXml, Element.mapText]
  refine .node (htag.mapValues Xml.safe) isAllowed_of_mem_mapValues fun e he => ?_
  obtain ⟨d, hd, rfl⟩ := List.mem_map.1 he
  obtain ⟨test, -, rfl⟩ := List.mem_map.1 hd
  exact test.isWritable

/-! ## Reports read off a tree

Each of these functions undoes one function of the writer, and they are put together in the same
way.  None of them is used by the program. -/

namespace Xml.Content

/-- The attributes and the content of an element with a given name. -/
def named? (name : String) : Content → Option (List (String × String) × List Content)
  | .element found attributes contents =>
    if found = name then some (attributes, contents) else none
  | .data _ => none

/-- The elements among contents. -/
def elements (contents : List Content) : List Content := contents.filter isElement

/-- The character data that contents are. -/
def text? : List Content → Option String
  | [] => some ""
  | [.data text] => some text
  | _ => none

end Xml.Content

/-- The instant that a text says. -/
def Instant.ofText? (s : String) : Option Instant := (Instant.read s.toList).toOption

/-- Whether a flag is set among attributes: it is left out, or it says so. -/
def flag? (attributes : List (String × String)) (key : String) : Option Bool :=
  match attributes.lookup key with
  | none => some false
  | some value => if value = "true" then some true else none

/-- The number that a run of digits says. -/
def count? (s : String) : Option Nat :=
  if s.toList ≠ [] ∧ s.toList.all Digits.isDigit then some (Digits.value s.toList) else none

/-- The timing that attributes say. -/
def Timing.ofAttributes? (attributes : List (String × String)) : Option Timing := do
  let start ← (attributes.lookup "startTime").bind Instant.ofText?
  let time ← attributes.lookup "time"
  match attributes.lookup "endTime" with
  | none => some { start, stop := none, time }
  | some stop => some { start, stop := some (← Instant.ofText? stop), time }

/-- The failure that an element says: its message and its type. -/
def Failure.ofContent? (content : Content) : Option Failure := do
  let (attributes, _) ← content.named? "failure"
  some { message := ← attributes.lookup "message", kind := ← attributes.lookup "type" }

/-- The operation that an element says, with its message, if an element inside says one. -/
def Operation.ofContent? (content : Content) : Option Operation := do
  let (attributes, contents) ← content.named? "results"
  let message ← match Content.elements contents with
    | [] => some none
    | [child] => do
      let (_, body) ← child.named? "message"
      (Content.text? body).map some
    | _ => none
  some {
    name := ← attributes.lookup "name"
    timing := ← Timing.ofAttributes? attributes
    result := ← attributes.lookup "result"
    message
    kind := ← (attributes.lookup "operationType").bind OperationKind.ofName? }

/-- The step that an element says. -/
def Step.ofContent? (content : Content) : Option Step := do
  let (attributes, contents) ← content.named? "steps"
  some {
    name := (attributes.lookup "name").getD ""
    operations := ← (Content.elements contents).mapM Operation.ofContent? }

/-- The test that an element says: a failure comes before the steps. -/
def Test.ofContent? (content : Content) : Option Test := do
  let (attributes, contents) ← content.named? "reports"
  let children := Content.elements contents
  let failure := children.head?.bind Failure.ofContent?
  some {
    name := ← attributes.lookup "name"
    timing := ← Timing.ofAttributes? attributes
    failure
    steps := ← (if failure.isSome then children.tail else children).mapM Step.ofContent?
    concurrent := ← flag? attributes "concurrent"
    scope := (attributes.lookup "namespace").getD ""
    skip := ← flag? attributes "skip"
    skipDelete := ← flag? attributes "skipDelete" }

/-- **The suite that an element says.**  It is the root of a document, so nothing is around it. -/
def Suite.ofContent? (content : Content) : Option Suite := do
  let (attributes, contents) ← content.named? "TestsReport"
  some {
    name := ← attributes.lookup "name"
    timing := ← Timing.ofAttributes? attributes
    tests := ← (Content.elements contents).mapM Test.ofContent?
    failures := ← (attributes.lookup "failures").bind count? }

/-! ### What is read off is what was written

An optional attribute that is missing must not be found under another name, which is why the lemmas
on looking up attributes keep the names of all that are declared. -/

section Contents

variable {α : Type} {read : Content → Option α} {write : α → Element}

/-- A list of children is read off one by one. -/
theorem mapM_map_eq_some {β : Type} {f : β → Option α} {g : α → β} (h : ∀ a, f (g a) = some a)
    (as : List α) : (as.map g).mapM f = some as := by
  induction as with
  | nil => rfl
  | cons a as ih => simp [h, ih]

theorem isElement_content (depth : Nat) (e : Element) : (e.content depth).isElement = true := by
  cases e <;> rfl

/-- Among the content of a parent the elements are its children. -/
theorem elements_contents (depth : Nat) (es : List Element) :
    Content.elements (Element.contents (depth + 1) es ++ [indent depth])
      = es.map (Element.content (depth + 1)) := by
  have hindent : ∀ depth, (indent depth).isElement = false := fun _ => rfl
  rw [Content.elements, List.filter_append]
  induction es with
  | nil => rfl
  | cons e es ih => simp_all [Element.contents, isElement_content]

/-- An element with children is read off as its attributes and its children. -/
theorem named?_ofChildren (depth : Nat) (name : String) (as : List (String × String))
    (children : List Element) :
    ∃ contents, ((Element.ofChildren name as children).content depth).named? name
      = some (as, contents) ∧
      Content.elements contents = children.map (Element.content (depth + 1)) := by
  cases children with
  | nil => exact ⟨[], by simp [Element.ofChildren, Element.content, Content.named?], rfl⟩
  | cons e es =>
    exact ⟨_, by simp [Element.ofChildren, Element.content, Content.named?],
      elements_contents depth (e :: es)⟩

end Contents

/-- The instant that the text of an instant says is that instant. -/
@[simp] theorem Instant.ofText?_toText (t : Instant) : Instant.ofText? t.toText = some t := by
  rw [ofText?, toText, String.toList_ofList, read_text]
  rfl

/-- A key is not found among attributes with other keys. -/
theorem lookup_eq_none {attributes : List (String × String)} {declared : List String}
    (h : (attributes.map Prod.fst).Sublist declared) {key : String} (hkey : key ∉ declared) :
    attributes.lookup key = none := by
  rw [List.lookup_eq_none_iff]
  intro a ha
  rw [bne_iff_ne]
  rintro rfl
  exact hkey (h.subset (List.mem_map_of_mem ha))

theorem lookup_attributeUnless_of_ne {key other : String} (h : other ≠ key) (absent : Bool)
    (value : String) : (attributeUnless absent key value).lookup other = none :=
  lookup_eq_none (keys_attributeUnless absent key value) (by simpa using h)

theorem lookup_attributeUnless_self (absent : Bool) (key value : String) :
    (attributeUnless absent key value).lookup key = if absent then none else some value := by
  cases absent <;> simp [attributeUnless]

/-- A key that a timing does not have is not found in it. -/
theorem Timing.lookup_attributes {t : Timing} {key : String}
    (h : key ∉ ["startTime", "endTime", "time"]) : t.attributes.lookup key = none :=
  lookup_eq_none t.keys_attributes h

/-- What is neither the name nor part of the timing is found behind them. -/
theorem Timing.lookup_behind (t : Timing) (name : String) (more : List (String × String))
    {key : String} (h : key ∉ ["name", "startTime", "endTime", "time"]) :
    ([("name", name)] ++ t.attributes ++ more).lookup key = more.lookup key := by
  rw [List.mem_cons, not_or] at h
  rw [List.lookup_append, List.lookup_append, lookup_attributes h.2,
    lookup_eq_none (List.Sublist.refl _) (by simpa using h.1)]
  rfl

/-- A timing is read off its attributes, among others. -/
theorem Timing.ofAttributes?_attributes (t : Timing) (name : String)
    {more : List (String × String)} (hmore : more.lookup "endTime" = none) :
    Timing.ofAttributes? ([("name", name)] ++ t.attributes ++ more) = some t := by
  obtain ⟨start, stop, time⟩ := t
  cases stop <;> simp [ofAttributes?, attributes, List.lookup_cons, hmore]

/-- A failure is read back from its element. -/
theorem Failure.ofContent?_toXml (failure : Failure) (depth : Nat) :
    Failure.ofContent? (failure.toXml.content depth) = some failure := by
  simp [ofContent?, toXml, Element.content, Content.named?, List.lookup_cons]

/-- An operation is read back from its element, with its message if it has one. -/
theorem Operation.ofContent?_toXml (operation : Operation) (depth : Nat) :
    Operation.ofContent? (operation.toXml.content depth) = some operation := by
  obtain ⟨name, timing, result, message, kind⟩ := operation
  obtain ⟨contents, hnamed, helements⟩ := named?_ofChildren depth "results"
    ([("name", name)] ++ timing.attributes ++ [("result", result), ("operationType", kind.name)])
    (message.map (Element.text "message" [])).toList
  have htiming : Timing.ofAttributes? ([("name", name)] ++ timing.attributes ++
      [("result", result), ("operationType", kind.name)]) = some timing :=
    timing.ofAttributes?_attributes name rfl
  have hresult : ([("name", name)] ++ timing.attributes ++
      [("result", result), ("operationType", kind.name)]).lookup "result" = some result :=
    timing.lookup_behind name _ (by decide)
  have hkind : ([("name", name)] ++ timing.attributes ++
      [("result", result), ("operationType", kind.name)]).lookup "operationType"
      = some kind.name := timing.lookup_behind name _ (by decide)
  rw [ofContent?, toXml, hnamed]
  simp only [Option.bind_eq_bind, Option.bind_some, helements, htiming, hresult, hkind]
  cases message with
  | none => simp
  | some message =>
    by_cases hmessage : message = "" <;>
      simp [Element.content, Content.named?, Content.text?, hmessage]

/-- A step is read back from its element, with its operations in order. -/
theorem Step.ofContent?_toXml (step : Step) (depth : Nat) :
    Step.ofContent? (step.toXml.content depth) = some step := by
  obtain ⟨name, operations⟩ := step
  obtain ⟨contents, hnamed, helements⟩ := named?_ofChildren depth "steps"
    (attributeUnless (name == "") "name" name) (operations.map Operation.toXml)
  have hoperations : ((operations.map Operation.toXml).map (Element.content (depth + 1))).mapM
      Operation.ofContent? = some operations := by
    rw [List.map_map]
    exact mapM_map_eq_some (fun o => o.ofContent?_toXml (depth + 1)) operations
  have hname : ((attributeUnless (name == "") "name" name).lookup "name").getD "" = name := by
    rw [lookup_attributeUnless_self]
    split
    · next h => exact (eq_of_beq h).symm
    · rfl
  rw [ofContent?, toXml, hnamed]
  simp only [Option.bind_eq_bind, Option.bind_some, helements, hoperations, hname]

/-- A flag is read off an attribute that is left out where the flag is not set. -/
theorem flag?_of_lookup {attributes : List (String × String)} {key : String} {flag : Bool}
    (h : attributes.lookup key = if !flag then none else some "true") :
    flag? attributes key = some flag := by
  rw [flag?, h]
  cases flag <;> rfl

/-- The attributes of a test behind its timing. -/
def Test.moreAttributes (test : Test) : List (String × String) :=
  attributeUnless (!test.concurrent) "concurrent" "true" ++
    (attributeUnless (test.scope == "") "namespace" test.scope ++
    (attributeUnless (!test.skip) "skip" "true" ++
    attributeUnless (!test.skipDelete) "skipDelete" "true"))

theorem Test.toXml_eq (test : Test) :
    test.toXml = .ofChildren "reports"
      ([("name", test.name)] ++ test.timing.attributes ++ test.moreAttributes)
      ((test.failure.map Failure.toXml).toList ++ test.steps.map Step.toXml) := by
  simp only [toXml, moreAttributes, List.append_assoc]

/-- Each flag of a test is read off its attributes, and so is its scope. -/
theorem Test.lookup_moreAttributes (test : Test) :
    flag? test.moreAttributes "concurrent" = some test.concurrent ∧
      (test.moreAttributes.lookup "namespace").getD "" = test.scope ∧
      flag? test.moreAttributes "skip" = some test.skip ∧
      flag? test.moreAttributes "skipDelete" = some test.skipDelete := by
  refine ⟨flag?_of_lookup ?_, ?_, flag?_of_lookup ?_, flag?_of_lookup ?_⟩
  case refine_2 =>
    by_cases hempty : test.scope = "" <;>
      simp [moreAttributes, List.lookup_append, lookup_attributeUnless_of_ne,
        lookup_attributeUnless_self, hempty]
  all_goals
    simp [moreAttributes, List.lookup_append, lookup_attributeUnless_of_ne,
      lookup_attributeUnless_self]

/-- No step is taken for a failure. -/
theorem head?_steps_failure (steps : List Step) (depth : Nat) :
    ((steps.map Step.toXml).map (Element.content depth)).head?.bind Failure.ofContent? = none := by
  cases steps with
  | nil => rfl
  | cons step steps =>
    obtain ⟨as, contents, hstep⟩ : ∃ as contents,
        step.toXml.content depth = .element "steps" as contents := by
      rw [Step.toXml, Element.ofChildren]
      split <;> exact ⟨_, _, rfl⟩
    simp [hstep, Failure.ofContent?, Content.named?]

/-- **A test is read back from its element.**  Its first child is a failure only if one was written.
-/
theorem Test.ofContent?_toXml (test : Test) (depth : Nat) :
    Test.ofContent? (test.toXml.content depth) = some test := by
  have hbehind : ∀ {key}, key ∉ ["name", "startTime", "endTime", "time"] → _ := fun hkey =>
    test.timing.lookup_behind test.name test.moreAttributes hkey
  obtain ⟨hconcurrent, hscope, hskip, hskipDelete⟩ := test.lookup_moreAttributes
  rw [flag?, ← hbehind (by decide), ← flag?] at hconcurrent hskip hskipDelete
  rw [← hbehind (by decide)] at hscope
  have hname : ([("name", test.name)] ++ test.timing.attributes ++ test.moreAttributes).lookup
      "name" = some test.name := rfl
  have htiming : Timing.ofAttributes? ([("name", test.name)] ++ test.timing.attributes ++
      test.moreAttributes) = some test.timing := by
    refine test.timing.ofAttributes?_attributes test.name ?_
    simp [moreAttributes, List.lookup_append, lookup_attributeUnless_of_ne]
  have hsteps : ((test.steps.map Step.toXml).map (Element.content (depth + 1))).mapM
      Step.ofContent? = some test.steps := by
    rw [List.map_map]
    exact mapM_map_eq_some (fun s => s.ofContent?_toXml (depth + 1)) test.steps
  obtain ⟨contents, hnamed, helements⟩ := named?_ofChildren depth "reports" _
    ((test.failure.map Failure.toXml).toList ++ test.steps.map Step.toXml)
  rw [ofContent?, toXml_eq, hnamed]
  simp only [Option.bind_eq_bind, Option.bind_some, helements, hname, htiming, hconcurrent,
    hscope, hskip, hskipDelete]
  obtain ⟨name, timing, failure, steps, concurrent, scope, skip, skipDelete⟩ := test
  cases failure with
  | none =>
    simp only [Option.map_none, Option.toList_none, List.nil_append, head?_steps_failure,
      Option.isSome_none, Bool.false_eq_true, if_false, hsteps, Option.bind_some]
  | some failure =>
    simp only [Option.map_some, Option.toList_some, List.singleton_append, List.map_cons,
      List.head?_cons, Option.bind_some, Failure.ofContent?_toXml, Option.isSome_some, if_true,
      List.tail_cons, hsteps]

/-- **A suite is read off its tree**, at whatever depth the tree is laid out. -/
theorem Suite.ofContent?_toXml (suite : Suite) (depth : Nat) :
    Suite.ofContent? (suite.toXml.content depth) = some suite := by
  obtain ⟨name, timing, tests, failures⟩ := suite
  have htiming : Timing.ofAttributes? ([("name", name)] ++ timing.attributes ++
      [("failures", String.ofList (Digits.digits failures))]) = some timing :=
    timing.ofAttributes?_attributes name rfl
  have hfailures : ([("name", name)] ++ timing.attributes ++
      [("failures", String.ofList (Digits.digits failures))]).lookup "failures"
      = some (String.ofList (Digits.digits failures)) := timing.lookup_behind name _ (by decide)
  have hcount : count? (String.ofList (Digits.digits failures)) = some failures := by
    have hdigits : (Digits.digits failures).all Digits.isDigit = true :=
      List.all_eq_true.2 fun _ hc => Digits.isDigit_of_mem_digits hc
    simp [count?, Digits.digits_ne_nil, hdigits]
  have htests : (Content.elements (Element.contents (depth + 1) (tests.map Test.toXml) ++
      [indent depth])).mapM Test.ofContent? = some tests := by
    rw [elements_contents, List.map_map]
    exact mapM_map_eq_some (fun t => t.ofContent?_toXml (depth + 1)) tests
  simp only [ofContent?, toXml, Element.content, Content.named?, if_true, Option.bind_eq_bind,
    Option.bind_some, htiming, htests, hfailures, hcount]
  rfl

/-! ## Documents -/

/-- **An XML document says what was recorded, and nothing else.**  It is made of allowed characters;
a reader of XML gets from it the tree of the suite made safe, from which that suite is read off; and
two suites have one document exactly if they are the same when made safe. -/
theorem xml_read_back :
    (∀ suite : Suite,
      (∀ c ∈ suite.text .xml, isAllowed c = true) ∧
      Utf8.decode? (suite.encode .xml) = some (suite.text .xml) ∧
      Xml.read (suite.encode .xml) = some (suite.safe.toXml.content 0) ∧
      Suite.ofContent? (suite.safe.toXml.content 0) = some suite.safe) ∧
    ∀ a b : Suite, a.encode .xml = b.encode .xml ↔ a.safe = b.safe := by
  have hread : ∀ suite : Suite,
      Xml.read (suite.encode .xml) = some (suite.safe.toXml.content 0) := fun suite => by
    rw [Suite.encode, Suite.text, read_render suite.isWritable, suite.safeXml_eq]
  refine ⟨fun suite => ⟨fun c hc => ?_, ?_, hread suite, suite.safe.ofContent?_toXml 0⟩,
    fun a b => ⟨fun h => ?_, fun h => ?_⟩⟩
  · exact isAllowed_of_mem_write suite.isWritable hc
  · rw [Suite.encode, Utf8.decode?, Utf8.decode_encode]
  · have hcontent : a.safe.toXml.content 0 = b.safe.toXml.content 0 :=
      Option.some.inj ((hread a).symm.trans (h ▸ hread b))
    have ha := a.safe.ofContent?_toXml 0
    rw [hcontent, b.safe.ofContent?_toXml] at ha
    exact (Option.some.inj ha).symm
  · simp only [Suite.encode, Suite.text, Suite.safeXml_eq, h]

/-- A suite whose strings look like markup, with characters that XML does not allow. -/
def markupSuite : Suite :=
  let t : Instant :=
    { day := -719529, second := 59, nano := 1500000000, day_range := by decide,
      second_lt := by decide, nano_lt := by decide }
  let timing : Timing := { start := t, stop := none, time := "\" endTime=\"" }
  let operation : Operation :=
    { name := "&amp;lt;", timing, result := "</results>",
      message := some "\x1b[31m]]>\r\n<message/>", kind := .assert }
  let test : Test :=
    { name := "\" skip=\"true", timing, failure := some { message := "<!--", kind := "'" },
      steps := [{ name := "", operations := [] }, { name := " ", operations := [operation] }],
      concurrent := true, scope := "\x00", skip := false, skipDelete := false }
  { name := "/></TestsReport>", timing, tests := [test], failures := 7 }

/-- The suite that looks like markup is read back. -/
theorem markupSuite_read_back :
    '<' ∈ markupSuite.text .xml ∧ isAllowed '<' = true ∧
      Xml.read (markupSuite.encode .xml) = some (markupSuite.safe.toXml.content 0) ∧
      Suite.ofContent? (markupSuite.safe.toXml.content 0) = some markupSuite.safe := by
  obtain ⟨hallowed, -, hread, hsuite⟩ := xml_read_back.1 markupSuite
  have hmem : '<' ∈ markupSuite.text .xml := by
    obtain ⟨cs, hcs⟩ := exists_write_eq 0 markupSuite.safeXml
    rw [Suite.text, render, hcs]
    exact List.mem_cons_self
  exact ⟨hmem, hallowed '<' hmem, hread, hsuite⟩

end RunRecord
