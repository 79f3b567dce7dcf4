import Mathlib.Tactic.Tauto
import RunRecord.Proofs.Instant.RoundTrip
import RunRecord.Proofs.Xml.Strings
import RunRecord.Report.Document

/-!
# Proofs/Report/Strings — the strings of a report

The strings of a suite that become attribute values are its **values**; those that become texts are
its **messages**.  What is not a string of the suite (instants, kinds of operations, flags, the
failure count) is written in graphic characters, so that changing the strings of a suite is changing
those of its tree (`Suite.toXml_mapStrings`).

The two kinds of strings are told apart because XML treats them apart: an application gets less of
an attribute value than of a text.  A function for each kind says how the strings are changed, and
with it three things are treated at once: making strings safe, what a processor makes of them, and
whether anything is changed at all.
-/

namespace RunRecord

open Xml

/-! ## Graphic characters

What is written in graphic characters is kept by every function that a report is treated with, so
the functions need not be told apart on such strings. -/

theorem Xml.isGraphic_of_isDigit {c : Char} (h : Digits.isDigit c = true) : isGraphic c = true := by
  simp only [Digits.isDigit, Bool.and_eq_true, decide_eq_true_eq] at h
  simp only [isGraphic, Bool.and_eq_true, decide_eq_true_eq]
  omega

namespace Instant

open Digits

theorem isGraphic_of_mem_yearText {year : Int} {c : Char} (h : c ∈ yearText year) :
    isGraphic c = true := by
  have hpadded : c ∈ padded 4 year.natAbs → isGraphic c = true := fun hc =>
    isGraphic_of_isDigit (isDigit_of_mem_padded hc)
  unfold yearText at h
  split at h
  · rcases List.mem_cons.1 h with rfl | h
    · decide
    · exact hpadded h
  split at h
  · exact hpadded h
  · rcases List.mem_cons.1 h with rfl | h
    · decide
    · exact hpadded h

theorem isGraphic_of_mem_fractionText {nano : Nat} {c : Char} (h : c ∈ fractionText nano) :
    isGraphic c = true := by
  have hpoint : ∀ width n, c ∈ '.' :: fixed width n → isGraphic c = true := fun width n hc => by
    rcases List.mem_cons.1 hc with rfl | hc
    · decide
    · exact isGraphic_of_isDigit (isDigit_of_mem_fixed hc)
  unfold fractionText at h
  split at h
  · cases h
  split at h
  · exact hpoint _ _ h
  split at h
  · exact hpoint _ _ h
  · exact hpoint _ _ h

/-- The text of an instant is written in graphic characters. -/
theorem isGraphic_of_mem_text {t : Instant} {c : Char} (h : c ∈ t.text) : isGraphic c = true := by
  have hfixed : ∀ {width n}, c ∈ fixed width n → isGraphic c = true := fun hc =>
    isGraphic_of_isDigit (isDigit_of_mem_fixed hc)
  simp only [text, Date.text, timeText, clockText, List.mem_append, List.mem_cons,
    List.not_mem_nil, or_false] at h
  rcases h with (((hc | rfl | hc) | rfl | hc) | rfl | ((hc | rfl | hc) | rfl | hc) | hc) | rfl
  · exact isGraphic_of_mem_yearText hc
  · decide
  · exact hfixed hc
  · decide
  · exact hfixed hc
  · decide
  · exact hfixed hc
  · decide
  · exact hfixed hc
  · decide
  · exact hfixed hc
  · exact isGraphic_of_mem_fractionText hc
  · decide

end Instant

namespace Xml.Keeps

variable {f : String → String}

/-- A function that keeps graphic characters keeps the text of an instant. -/
theorem toText (h : Keeps f) (t : Instant) : f t.toText = t.toText :=
  h.graphic fun c hc => by
    rw [Instant.toText, String.toList_ofList] at hc
    exact Instant.isGraphic_of_mem_text hc

/-- It keeps the digits of a count, too. -/
theorem digits (h : Keeps f) (n : Nat) :
    f (String.ofList (Digits.digits n)) = String.ofList (Digits.digits n) :=
  h.graphic fun c hc => by
    rw [String.toList_ofList] at hc
    exact isGraphic_of_isDigit (Digits.isDigit_of_mem_digits hc)

theorem kind (h : Keeps f) (kind : OperationKind) : f kind.name = kind.name :=
  h.graphic (List.all_eq_true.1 (by cases kind <;> rfl))

theorem flag (h : Keeps f) : f "true" = "true" := h.graphic (List.all_eq_true.1 rfl)

end Xml.Keeps

/-! ## Other strings -/

/-- A timing with another time. -/
def Timing.mapStrings (f : String → String) (t : Timing) : Timing := { t with time := f t.time }

/-- A failure with other strings. -/
def Failure.mapStrings (f : String → String) (failure : Failure) : Failure :=
  { message := f failure.message, kind := f failure.kind }

/-- An operation with other values and another message. -/
def Operation.mapStrings (f g : String → String) (operation : Operation) : Operation :=
  { operation with
    name := f operation.name
    timing := operation.timing.mapStrings f
    result := f operation.result
    message := operation.message.map g }

/-- A step with other values and messages. -/
def Step.mapStrings (f g : String → String) (step : Step) : Step :=
  { name := f step.name, operations := step.operations.map (Operation.mapStrings f g) }

/-- A test with other values and messages. -/
def Test.mapStrings (f g : String → String) (test : Test) : Test :=
  { test with
    name := f test.name
    timing := test.timing.mapStrings f
    failure := test.failure.map (Failure.mapStrings f)
    steps := test.steps.map (Step.mapStrings f g)
    scope := f test.scope }

/-- **A suite with other values and messages.**  The functions are applied to every string of every
node, and to nothing else. -/
def Suite.mapStrings (f g : String → String) (suite : Suite) : Suite :=
  { suite with
    name := f suite.name
    timing := suite.timing.mapStrings f
    tests := suite.tests.map (Test.mapStrings f g) }

/-! ### Their trees

For each node, the tree of the changed node is the changed tree of the node.  Attributes that may be
left out are the point: a function must not empty a string, nor fill an empty one. -/

/-- An attribute that may be left out is left out as before. -/
theorem mapValues_attributeUnless (f : String → String) (absent : Bool) (key value : String) :
    Element.mapValues f (attributeUnless absent key value)
      = attributeUnless absent key (f value) := by
  cases absent <;> rfl

theorem Failure.toXml_mapStrings (f g : String → String) (failure : Failure) :
    (failure.mapStrings f).toXml = failure.toXml.mapStrings f g := by
  simp [toXml, mapStrings, Element.mapStrings]

section Trees

variable {f : String → String} (hf : Keeps f) (g : String → String)
include hf

theorem Timing.mapValues_attributes (t : Timing) :
    Element.mapValues f t.attributes = (t.mapStrings f).attributes := by
  cases hstop : t.stop <;> simp [attributes, mapStrings, hstop, hf.toText]

theorem Operation.toXml_mapStrings (operation : Operation) :
    (operation.mapStrings f g).toXml = operation.toXml.mapStrings f g := by
  cases hmessage : operation.message <;>
    simp [toXml, mapStrings, Element.mapStrings_ofChildren, Element.mapStrings,
      Timing.mapValues_attributes hf, hf.kind, hmessage]

theorem Step.toXml_mapStrings (step : Step) :
    (step.mapStrings f g).toXml = step.toXml.mapStrings f g := by
  have hoperations : Element.mapStrings f g ∘ Operation.toXml
      = Operation.toXml ∘ Operation.mapStrings f g :=
    funext fun o => (o.toXml_mapStrings hf g).symm
  simp [toXml, mapStrings, Element.mapStrings_ofChildren, mapValues_attributeUnless, hf.beq_empty,
    hoperations]

theorem Test.toXml_mapStrings (test : Test) :
    (test.mapStrings f g).toXml = test.toXml.mapStrings f g := by
  have hsteps : Element.mapStrings f g ∘ Step.toXml = Step.toXml ∘ Step.mapStrings f g :=
    funext fun s => (s.toXml_mapStrings hf g).symm
  cases hfailure : test.failure <;>
    simp [toXml, mapStrings, Element.mapStrings_ofChildren, mapValues_attributeUnless, hf.beq_empty,
      Timing.mapValues_attributes hf, Failure.toXml_mapStrings f g, hf.flag, hfailure, hsteps]

/-- **Changing the strings of a suite is changing those of its tree.**  What is not a string of the
suite is kept by such functions. -/
theorem Suite.toXml_mapStrings (suite : Suite) :
    (suite.mapStrings f g).toXml = suite.toXml.mapStrings f g := by
  have htests : Element.mapStrings f g ∘ Test.toXml = Test.toXml ∘ Test.mapStrings f g :=
    funext fun t => (t.toXml_mapStrings hf g).symm
  simp [toXml, mapStrings, Element.mapStrings, Timing.mapValues_attributes hf, hf.digits, htests]

end Trees

/-! ## Values and messages

The lists contain every string of a node that the two functions are applied to.  So a suite is kept
exactly if they are, string by string. -/

/-- The strings of a failure. -/
def Failure.values (failure : Failure) : List String := [failure.message, failure.kind]

/-- The values of an operation: all of its strings but the message. -/
def Operation.values (operation : Operation) : List String :=
  [operation.name, operation.timing.time, operation.result]

/-- The values of a step and of its operations. -/
def Step.values (step : Step) : List String :=
  step.name :: step.operations.flatMap Operation.values

/-- The messages of the operations of a step. -/
def Step.messages (step : Step) : List String := step.operations.flatMap (·.message.toList)

/-- The values of a test, of its failure and of its steps. -/
def Test.values (test : Test) : List String :=
  [test.name, test.timing.time, test.scope] ++ test.failure.toList.flatMap Failure.values ++
    test.steps.flatMap Step.values

/-- The messages of the operations of a test. -/
def Test.messages (test : Test) : List String := test.steps.flatMap Step.messages

/-- **The strings of a suite that become attribute values.**  They are given in the order of the
nodes. -/
def Suite.values (suite : Suite) : List String :=
  [suite.name, suite.timing.time] ++ suite.tests.flatMap Test.values

/-- **The strings of a suite that become texts.**  These are the messages of operations; those of
failures are attribute values. -/
def Suite.messages (suite : Suite) : List String := suite.tests.flatMap Test.messages

section Kept

variable {f g : String → String}

/-- A list is kept if all of its members are. -/
theorem map_eq_self_iff {α : Type} {f : α → α} {as : List α} :
    as.map f = as ↔ ∀ a ∈ as, f a = a := by
  have hmap : as.map f = as.map id ↔ ∀ a ∈ as, f a = id a := List.map_inj_left
  rwa [List.map_id] at hmap

theorem Failure.mapStrings_eq_self_iff {failure : Failure} :
    failure.mapStrings f = failure ↔ ∀ s ∈ failure.values, f s = s := by
  obtain ⟨message, kind⟩ := failure
  simp [mapStrings, values]

theorem Operation.mapStrings_eq_self_iff {operation : Operation} :
    operation.mapStrings f g = operation ↔
      (∀ s ∈ operation.values, f s = s) ∧ ∀ s ∈ operation.message.toList, g s = s := by
  obtain ⟨name, ⟨start, stop, time⟩, result, message, kind⟩ := operation
  cases message <;> simp [mapStrings, Timing.mapStrings, values, and_assoc]

theorem Step.mapStrings_eq_self_iff {step : Step} :
    step.mapStrings f g = step ↔
      (∀ s ∈ step.values, f s = s) ∧ ∀ s ∈ step.messages, g s = s := by
  obtain ⟨name, operations⟩ := step
  simp only [mapStrings, Step.mk.injEq, map_eq_self_iff, Operation.mapStrings_eq_self_iff, values,
    messages, List.forall_mem_cons, List.forall_mem_flatMap, forall_and, and_assoc]

theorem Test.mapStrings_eq_self_iff {test : Test} :
    test.mapStrings f g = test ↔
      (∀ s ∈ test.values, f s = s) ∧ ∀ s ∈ test.messages, g s = s := by
  obtain ⟨name, ⟨start, stop, time⟩, failure, steps, concurrent, scope, skip, skipDelete⟩ := test
  have hfailure : failure.map (Failure.mapStrings f) = failure ↔
      ∀ s ∈ failure.toList.flatMap Failure.values, f s = s := by
    cases failure <;> simp [Failure.mapStrings_eq_self_iff]
  simp only [mapStrings, Timing.mapStrings, Test.mk.injEq, Timing.mk.injEq, map_eq_self_iff,
    Step.mapStrings_eq_self_iff, hfailure, values, messages, List.forall_mem_append,
    List.forall_mem_cons, List.forall_mem_flatMap, forall_and, List.not_mem_nil, IsEmpty.forall_iff,
    implies_true, true_and, and_true]
  tauto

/-- **A suite is kept if its values and its messages are**, and only then. -/
theorem Suite.mapStrings_eq_self_iff {suite : Suite} :
    suite.mapStrings f g = suite ↔
      (∀ s ∈ suite.values, f s = s) ∧ ∀ s ∈ suite.messages, g s = s := by
  obtain ⟨name, ⟨start, stop, time⟩, tests, failures⟩ := suite
  simp only [mapStrings, Timing.mapStrings, Suite.mk.injEq, Timing.mk.injEq, map_eq_self_iff,
    Test.mapStrings_eq_self_iff, values, messages, List.forall_mem_append,
    List.forall_mem_cons, List.forall_mem_flatMap, forall_and, List.not_mem_nil, IsEmpty.forall_iff,
    implies_true, true_and, and_true]
  tauto

end Kept

end RunRecord
