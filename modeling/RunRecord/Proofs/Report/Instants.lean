import RunRecord.Proofs.Recording.Run
import RunRecord.Proofs.Report.Formats

/-!
# Proofs/Report/Instants — the instants in the documents of a report

Instants stand under the keys `startTime` and `endTime`, in members of objects and in attributes of
elements.  What stands under these keys in a document, at any depth and in order, are its
**instant texts**.  Those of the documents of a suite are the texts of its instants in universal
time, in both formats (`Suite.instantTexts_toJson`, `Suite.instantTexts_toXml`): whatever a suite
was read from has left no trace.

That the texts are collected from the documents, and not from the functions that write them, is what
makes the statement one about the documents: a text under another key would be missed, and one at
another depth would be out of order.  Since both formats go through a report in the same order, the
two lists are the same.
-/

namespace RunRecord

open Xml (Content Element)

/-- The keys under which instants stand, in members and in attributes. -/
def instantKeys : List String := ["startTime", "endTime"]

/-- The texts of the instants of a timing: its start, and its end if it has one. -/
def Timing.texts (t : Timing) : List String :=
  t.start.toText :: (t.stop.map Instant.toText).toList

/-- The texts of the instants of a suite, in order. -/
def Suite.instantTexts (suite : Suite) : List String := suite.timings.flatMap Timing.texts

/-! ## Objects

An object shows the instants of its members in order, and a list those of its elements.  Strings
under other keys show none, whatever they look like. -/

namespace Json

/-- The text of a value that is a string. -/
def text? : Json → Option String
  | .string s => some s
  | _ => none

/-- **The texts under the keys of instants** in a value, at any depth and in order. -/
def instantTexts : Json → List String
  | .array elements => elements.flatMap fun v => v.instantTexts
  | .object members => members.flatMap fun m =>
    (if m.1 ∈ instantKeys then m.2.text?.toList else []) ++ m.2.instantTexts
  | _ => []
decreasing_by
  · have := List.sizeOf_lt_of_mem ‹_›
    simp only [array.sizeOf_spec]
    omega
  · have := List.sizeOf_lt_of_mem ‹_›
    obtain ⟨key, v⟩ := m
    simp only [object.sizeOf_spec, Prod.mk.sizeOf_spec] at this ⊢
    omega

/-- What a member of an object adds to its instant texts. -/
def memberTexts (m : String × Json) : List String :=
  (if m.1 ∈ instantKeys then m.2.text?.toList else []) ++ m.2.instantTexts

/-- An object shows what its members add. -/
@[simp] theorem instantTexts_object (ms : List (String × Json)) :
    (object ms).instantTexts = ms.flatMap memberTexts := by
  rw [instantTexts]
  rfl

/-- A list shows what its elements show. -/
@[simp] theorem instantTexts_array {α : Type} (as : List α) (f : α → Json) :
    (array (as.map f)).instantTexts = as.flatMap fun a => (f a).instantTexts := by
  rw [instantTexts, List.flatMap_map]

/-- A string alone shows no instant. -/
@[simp] theorem instantTexts_string (s : String) : (string s).instantTexts = [] := by
  rw [instantTexts]
  all_goals nofun

/-- Nor does a boolean. -/
@[simp] theorem instantTexts_boolean (b : Bool) : (boolean b).instantTexts = [] := by
  rw [instantTexts]
  all_goals nofun

/-- Nor does a count. -/
@[simp] theorem instantTexts_ofNat (n : Nat) : (ofNat n).instantTexts = [] := by
  rw [ofNat, instantTexts]
  all_goals nofun

variable {key : String}

/-- Under any other key there is only what is inside the value. -/
theorem memberTexts_of_notMem (h : key ∉ instantKeys) (v : Json) :
    memberTexts (key, v) = v.instantTexts := by
  rw [memberTexts, if_neg h, List.nil_append]

/-- A member that may be left out shows what its value shows. -/
theorem flatMap_memberUnless {absent : Bool} (h : key ∉ instantKeys) {v : Json}
    (hv : absent = true → v.instantTexts = []) :
    (memberUnless absent key v).flatMap memberTexts = v.instantTexts := by
  cases absent with
  | true => exact (hv rfl).symm
  | false => exact (List.flatMap_singleton _ _).trans (memberTexts_of_notMem h v)

/-- A member whose value shows nothing adds nothing. -/
theorem flatMap_memberUnless_eq_nil {absent : Bool} (h : key ∉ instantKeys) {v : Json}
    (hv : v.instantTexts = []) : (memberUnless absent key v).flatMap memberTexts = [] :=
  (flatMap_memberUnless h fun _ => hv).trans hv

/-- Nor does one that is written if there is one. -/
theorem flatMap_memberOf? {α : Type} (h : key ∉ instantKeys) {value : α → Json}
    (hv : ∀ a, (value a).instantTexts = []) (a : Option α) :
    (memberOf? key value a).flatMap memberTexts = [] := by
  cases a with
  | none => rfl
  | some a =>
    rw [memberOf?, List.flatMap_singleton, memberTexts_of_notMem h, hv]

end Json

open Json (memberTexts memberTexts_of_notMem flatMap_memberUnless flatMap_memberUnless_eq_nil
  flatMap_memberOf?)

/-- Under the keys of instants there are their texts. -/
theorem memberTexts_toJson {key : String} (h : key ∈ instantKeys) (t : Instant) :
    memberTexts (key, t.toJson) = [t.toText] := by
  rw [memberTexts, if_pos h, Instant.toJson, Json.instantTexts_string, List.append_nil, Json.text?,
    Option.toList_some]

/-- The members of a timing show its instants. -/
theorem Timing.flatMap_jsonMembers (t : Timing) :
    t.jsonMembers.flatMap memberTexts = t.texts := by
  have hstart := memberTexts_toJson (show "startTime" ∈ instantKeys by decide) t.start
  have hstop : (memberOf? "endTime" Instant.toJson t.stop).flatMap memberTexts
      = (t.stop.map Instant.toText).toList := by
    cases t.stop with
    | none => rfl
    | some stop =>
      exact (List.flatMap_singleton _ _).trans (memberTexts_toJson (by decide) stop)
  have htime := memberTexts_of_notMem (show "time" ∉ instantKeys by decide) (.string t.time)
  simp [jsonMembers, texts, hstart, hstop, htime]

/-- An operation shows the instants of its timing. -/
theorem Operation.instantTexts_toJson (operation : Operation) :
    operation.toJson.instantTexts = operation.timing.texts := by
  have hmessage := flatMap_memberOf? (show "message" ∉ instantKeys by decide)
    Json.instantTexts_string operation.message
  simp [toJson, Timing.flatMap_jsonMembers, hmessage, memberTexts_of_notMem, instantKeys]

/-- A list that is left out is empty. -/
theorem instantTexts_of_isEmpty {α : Type} (as : List α) (f : α → Json)
    (h : as.isEmpty = true) : (Json.array (as.map f)).instantTexts = [] := by
  rw [List.isEmpty_iff.1 h, Json.instantTexts_array, List.flatMap_nil]

/-- A step shows the instants of its operations. -/
theorem Step.instantTexts_toJson (step : Step) :
    step.toJson.instantTexts = step.timings.flatMap Timing.texts := by
  have hname : (memberUnless (step.name == "") "name" (.string step.name)).flatMap memberTexts
      = [] := flatMap_memberUnless_eq_nil (by decide) (Json.instantTexts_string _)
  have hresults := flatMap_memberUnless (show "results" ∉ instantKeys by decide)
    (instantTexts_of_isEmpty step.operations Operation.toJson)
  simp [toJson, timings, hname, hresults, Operation.instantTexts_toJson, List.flatMap_map]

/-- A failure shows none. -/
theorem Failure.instantTexts_toJson (failure : Failure) : failure.toJson.instantTexts = [] := by
  simp [toJson, memberTexts_of_notMem, instantKeys]

/-- A test shows its own instants first, then those of its operations. -/
theorem Test.instantTexts_toJson (test : Test) :
    test.toJson.instantTexts = test.timings.flatMap Timing.texts := by
  have hfailure := flatMap_memberOf? (show "failure" ∉ instantKeys by decide)
    Failure.instantTexts_toJson test.failure
  have hsteps := flatMap_memberUnless (show "steps" ∉ instantKeys by decide)
    (instantTexts_of_isEmpty test.steps Step.toJson)
  have hscope : (memberUnless (test.scope == "") "namespace" (.string test.scope)).flatMap
      memberTexts = [] := flatMap_memberUnless_eq_nil (by decide) (Json.instantTexts_string _)
  have hflag {key : String} (hkey : key ∉ instantKeys) (flag : Bool) :
      (memberUnless (!flag) key (.boolean flag)).flatMap memberTexts = [] :=
    flatMap_memberUnless_eq_nil hkey (Json.instantTexts_boolean flag)
  simp [toJson, timings, Timing.flatMap_jsonMembers, hfailure, hsteps, hscope, hflag,
    memberTexts_of_notMem, Step.instantTexts_toJson, List.flatMap_assoc, instantKeys]

/-- **The JSON document of a suite shows its instants in universal time.**  They come in the order
of the nodes, and within a node the start comes before the end. -/
theorem Suite.instantTexts_toJson (suite : Suite) :
    suite.toJson.instantTexts = suite.instantTexts := by
  simp [toJson, instantTexts, timings, Timing.flatMap_jsonMembers, memberTexts_of_notMem,
    Test.instantTexts_toJson, List.flatMap_assoc, instantKeys]

/-! ## Elements

The attributes of an element come before what is inside, as the timing of a node comes before the
nodes in it. -/

/-- The values of attributes under the keys of instants. -/
def attributeTexts (attributes : List (String × String)) : List String :=
  (attributes.filter fun a => a.1 ∈ instantKeys).map Prod.snd

/-- **The texts under the keys of instants** in a tree, at any depth and in order. -/
def Xml.Content.instantTexts : Content → List String
  | .data _ => []
  | .element _ attributes contents =>
    attributeTexts attributes ++ contents.flatMap fun c => c.instantTexts

/-- Attributes in two parts show what the parts show. -/
theorem attributeTexts_append (as bs : List (String × String)) :
    attributeTexts (as ++ bs) = attributeTexts as ++ attributeTexts bs := by
  rw [attributeTexts, List.filter_append, List.map_append]
  rfl

/-- Attributes under other keys show none. -/
theorem attributeTexts_eq_nil {as : List (String × String)} (h : ∀ a ∈ as, a.1 ∉ instantKeys) :
    attributeTexts as = [] := by
  rw [attributeTexts, List.filter_eq_nil_iff.2 fun a ha => by simpa using h a ha, List.map_nil]

/-- An attribute that may be left out shows nothing. -/
theorem attributeTexts_attributeUnless {key : String} (h : key ∉ instantKeys) (absent : Bool)
    (value : String) : attributeTexts (attributeUnless absent key value) = [] := by
  refine attributeTexts_eq_nil fun a ha => ?_
  cases absent with
  | true => cases ha
  | false => exact List.mem_singleton.1 ha ▸ h

/-- The attributes of a timing show its instants. -/
theorem Timing.attributeTexts_attributes (t : Timing) :
    attributeTexts t.attributes = t.texts := by
  obtain ⟨start, stop, time⟩ := t
  cases stop <;> simp [attributes, texts, attributeTexts, instantKeys]

namespace Xml.Element

/-- White space between elements shows no instants. -/
theorem flatMap_contents (depth : Nat) (es : List Element) :
    (contents depth es).flatMap Content.instantTexts
      = es.flatMap fun e => (e.content depth).instantTexts := by
  induction es with
  | nil => rfl
  | cons e es ih => simp [contents, ih, indent, Content.instantTexts]

/-- An element shows the instants of its attributes and then those inside. -/
theorem instantTexts_node (depth : Nat) (name : String) (as : List (String × String))
    (children : List Element) :
    ((node name as children).content depth).instantTexts = attributeTexts as ++
      children.flatMap fun e => (e.content (depth + 1)).instantTexts := by
  simp [content, Content.instantTexts, flatMap_contents, indent]

/-- So does one that may be empty. -/
theorem instantTexts_ofChildren (depth : Nat) (name : String) (as : List (String × String))
    (children : List Element) :
    ((ofChildren name as children).content depth).instantTexts = attributeTexts as ++
      children.flatMap fun e => (e.content (depth + 1)).instantTexts := by
  cases children with
  | nil => simp [ofChildren, content, Content.instantTexts]
  | cons e es => exact instantTexts_node depth name as (e :: es)

end Xml.Element

open Xml.Element (instantTexts_node instantTexts_ofChildren)

/-- A name shows no instant. -/
theorem attributeTexts_name (name : String) : attributeTexts [("name", name)] = [] :=
  attributeTexts_eq_nil (by simp [instantKeys])

/-- An operation shows the instants of its timing. -/
theorem Operation.instantTexts_toXml (operation : Operation) (depth : Nat) :
    (operation.toXml.content depth).instantTexts = operation.timing.texts := by
  have hmessage : ∀ (message : String) (depth : Nat),
      ((Element.text "message" [] message).content depth).instantTexts = [] := by
    intro message depth
    by_cases h : message = "" <;> simp [h, Element.content, Content.instantTexts, attributeTexts]
  have hrest : attributeTexts [("result", operation.result),
      ("operationType", operation.kind.name)] = [] :=
    attributeTexts_eq_nil (by simp [instantKeys])
  rw [toXml, instantTexts_ofChildren, attributeTexts_append, attributeTexts_append,
    attributeTexts_name, Timing.attributeTexts_attributes, hrest]
  cases operation.message <;> simp [hmessage]

/-- A step shows the instants of its operations. -/
theorem Step.instantTexts_toXml (step : Step) (depth : Nat) :
    (step.toXml.content depth).instantTexts = step.timings.flatMap Timing.texts := by
  have hname : attributeTexts (attributeUnless (step.name == "") "name" step.name) = [] :=
    attributeTexts_attributeUnless (by decide) _ _
  simp [toXml, instantTexts_ofChildren, hname, timings, Operation.instantTexts_toXml,
    List.flatMap_map]

/-- A failure shows none. -/
theorem Failure.instantTexts_toXml (failure : Failure) (depth : Nat) :
    (failure.toXml.content depth).instantTexts = [] := by
  simp [toXml, Element.content, Content.instantTexts, attributeTexts, instantKeys]

/-- A test shows its own instants first, then those of its operations. -/
theorem Test.instantTexts_toXml (test : Test) (depth : Nat) :
    (test.toXml.content depth).instantTexts = test.timings.flatMap Timing.texts := by
  have hfailure : ((test.failure.map Failure.toXml).toList.flatMap fun e =>
      (e.content (depth + 1)).instantTexts) = [] := by
    cases test.failure with
    | none => rfl
    | some failure => exact (List.flatMap_singleton _ _).trans (failure.instantTexts_toXml _)
  have hkeys : "concurrent" ∉ instantKeys ∧ "namespace" ∉ instantKeys ∧ "skip" ∉ instantKeys ∧
      "skipDelete" ∉ instantKeys := by decide
  rw [toXml, instantTexts_ofChildren, List.flatMap_append, hfailure, List.nil_append]
  simp only [attributeTexts_append, attributeTexts_name, Timing.attributeTexts_attributes,
    attributeTexts_attributeUnless, hkeys, not_false_eq_true]
  simp [timings, Step.instantTexts_toXml, List.flatMap_map, List.flatMap_assoc]

/-- **The XML document of a suite shows its instants in universal time.**  They come in the same
order as in JSON documents, since the tree is built in the same way. -/
theorem Suite.instantTexts_toXml (suite : Suite) (depth : Nat) :
    (suite.toXml.content depth).instantTexts = suite.instantTexts := by
  have hfailures : attributeTexts
      [("failures", String.ofList (Digits.digits suite.failures))] = [] :=
    attributeTexts_eq_nil (by simp [instantKeys])
  rw [toXml, instantTexts_node, attributeTexts_append, attributeTexts_append, attributeTexts_name,
    Timing.attributeTexts_attributes, hfailures]
  simp [instantTexts, timings, Test.instantTexts_toXml, List.flatMap_map, List.flatMap_assoc]

/-- Instants stay as they are in a suite made safe. -/
theorem Suite.instantTexts_safe (suite : Suite) : suite.safe.instantTexts = suite.instantTexts := by
  have hoperation : ∀ o : Operation, o.safe.timing.texts = o.timing.texts := fun _ => rfl
  have hstep : ∀ s : Step, s.safe.timings.flatMap Timing.texts = s.timings.flatMap Timing.texts :=
    fun s => by simp [Step.timings, Step.safe, List.flatMap_map, hoperation]
  have htest : ∀ t : Test, t.safe.timings.flatMap Timing.texts = t.timings.flatMap Timing.texts :=
    fun t => by
      simp only [Test.timings, Test.safe, List.flatMap_map, List.flatMap_cons, List.flatMap_assoc,
        hstep]
      rfl
  simp only [instantTexts, timings, safe, List.flatMap_map, List.flatMap_cons, List.flatMap_assoc,
    htest]
  rfl

end RunRecord
