import Mathlib.Data.List.Forall2
import RunRecord.Proofs.Report.Schema
import RunRecord.Proofs.Report.XmlReader

/-!
# Proofs/Report/Formats — both formats say the same

The JSON document and the XML document of a suite are read by readers that know nothing of reports,
and the value and the tree that they return are walked side by side.  At every level an object and
an element **agree** (`Agrees`): the members that are single values and the attributes are the same
keys in the same order, each attribute worded after its member, and what else the object holds is
inside the element, in order.  So the two writers cannot drift apart (`formats_agree`).

Neither document is taken as the measure of the other.  What has to agree is stated on a value and a
tree that come from readers of plain JSON and plain XML, and in words that both formats use: keys,
single values, lists.  Where a member holds a record, a list of records or a message, XML has
elements inside the element; such members are called nested.
-/

namespace RunRecord

open Xml (Content)

/-! ## Single values

JSON has strings, booleans and numbers, and an attribute has a text only.  A wording says how the
text follows from the value; it is the key's, whatever the record. -/

/-- How the text of an attribute follows from the value of a member: texts are made safe for XML,
flags and counts are written out. -/
inductive Wording where
  /-- The very same text. -/
  | same
  /-- The text made safe. -/
  | safe
  /-- `true`, and nothing else. -/
  | flag
  /-- A natural number in decimal. -/
  | decimal

/-- The text for a value. -/
def Wording.text? : Wording → Json → Option String
  | .same, .string s => some s
  | .safe, .string s => some (Xml.safe s)
  | .flag, .boolean true => some "true"
  | .decimal, .number (.ofNat n) 0 => some (String.ofList (Digits.digits n))
  | _, _ => none

/-- The wording of every single value of a report, by its key. -/
def wordings : List (String × Wording) := [
  ("name", .safe), ("startTime", .same), ("endTime", .same), ("time", .safe), ("result", .safe),
  ("operationType", .same), ("message", .safe), ("type", .safe), ("concurrent", .flag),
  ("namespace", .safe), ("skip", .flag), ("skipDelete", .flag), ("failures", .decimal)]

/-- An attribute says what a member says, under the same key. -/
def Says (m : String × Json) (a : String × String) : Prop :=
  a.1 = m.1 ∧ ((wordings.lookup m.1).bind fun w => w.text? m.2) = some a.2

/-- Attributes say, in order, what the members say that are not `nested`: a key is in both or in
neither. -/
def SayAll (nested : List String) (members : List (String × Json))
    (attributes : List (String × String)) : Prop :=
  List.Forall₂ Says (members.filter fun m => !nested.contains m.1) attributes

/-! ## Objects and elements

An element agrees with an object as a whole: no attribute may be without a member, no member without
an attribute or a place inside, and nothing else may stand inside. -/

/-- **An object and an element agree**: the attributes say what the members say, up to the `nested`
ones, and what is inside the element is what the nested members hold.  White space inside the
element does not count. -/
inductive Agrees (tag : String) (nested : List String)
    (Inside : List (String × Json) → List Content → Prop) : Json → Content → Prop where
  | intro {members : List (String × Json)} {attributes : List (String × String)}
    {contents : List Content} (values : SayAll nested members attributes)
    (inside : Inside members (contents.filter fun c => !c.isBlank)) :
    Agrees tag nested Inside (.object members) (.element tag attributes contents)

/-- The elements of a list under a key.  A list that is left out is empty. -/
def elements? (key : String) (members : List (String × Json)) : Option (List Json) :=
  match members.lookup key with
  | none => some []
  | some (.array vs) => some vs
  | some _ => none

/-- Failures agree: nothing is inside the element. -/
def FailureAgrees : Json → Content → Prop :=
  Agrees "failure" [] fun _ cs => cs = []

/-- Messages agree. -/
inductive MessageAgrees : Json → Content → Prop where
  | intro {s : String} {contents : List Content}
    (text : Content.text? contents = some (Xml.safe s)) :
    MessageAgrees (.string s) (.element "message" [] contents)

/-- Operations agree: their message is inside the element, if there is one. -/
def OperationAgrees : Json → Content → Prop :=
  Agrees "results" ["message"] fun members cs =>
    List.Forall₂ MessageAgrees (members.lookup "message").toList cs

/-- Steps agree: their operations are inside, one by one in order. -/
def StepAgrees : Json → Content → Prop :=
  Agrees "steps" ["results"] fun members cs =>
    ∃ vs, elements? "results" members = some vs ∧ List.Forall₂ OperationAgrees vs cs

/-- Tests agree: a failure comes before the steps, and is there on both sides or on neither. -/
def TestAgrees : Json → Content → Prop :=
  Agrees "reports" ["failure", "steps"] fun members cs =>
    ∃ vs failures steps, elements? "steps" members = some vs ∧ cs = failures ++ steps ∧
      List.Forall₂ FailureAgrees (members.lookup "failure").toList failures ∧
      List.Forall₂ StepAgrees vs steps

/-- Suites agree: their tests are inside, one by one in order. -/
def SuiteAgrees : Json → Content → Prop :=
  Agrees "TestsReport" ["reports"] fun members cs =>
    ∃ vs, members.lookup "reports" = some (.array vs) ∧ List.Forall₂ TestAgrees vs cs

/-! ## Single values are written alike -/

namespace SayAll

variable {nested : List String} {ms ms' : List (String × Json)} {as as' : List (String × String)}
  {key text : String} {value : Json}

/-- If two parts of the members are said by two parts of the attributes, the whole is by the whole.
-/
theorem append (h : SayAll nested ms as) (h' : SayAll nested ms' as') :
    SayAll nested (ms ++ ms') (as ++ as') := by
  rw [SayAll, List.filter_append]
  exact List.rel_append h h'

/-- A nested member has no attribute. -/
theorem append_nested (h : SayAll nested ms as) (hnested : ∀ m ∈ ms', m.1 ∈ nested) :
    SayAll nested (ms ++ ms') as := by
  have hnone : (ms'.filter fun m => !nested.contains m.1) = [] :=
    List.filter_eq_nil_iff.2 fun m hm => by simpa using hnested m hm
  rw [SayAll, List.filter_append, hnone, List.append_nil]
  exact h

/-- One member is said by one attribute. -/
theorem single (hkey : key ∉ nested) (h : Says (key, value) (key, text)) :
    SayAll nested [(key, value)] [(key, text)] := by
  have hkept : ([(key, value)].filter fun m => !nested.contains m.1) = [(key, value)] := by
    simpa using hkey
  rw [SayAll, hkept]
  exact .cons h .nil

/-- A member that is left out has an attribute that is left out on the same condition. -/
theorem memberUnless {absent : Bool} (hkey : key ∉ nested)
    (h : absent = false → Says (key, value) (key, text)) :
    SayAll nested (memberUnless absent key value) (attributeUnless absent key text) := by
  cases absent with
  | true => exact .nil
  | false => exact single hkey (h rfl)

/-- The name and the timing of a node are worded alike. -/
theorem timed (nested : List String)
    (h : ∀ key ∈ ["name", "startTime", "endTime", "time"], key ∉ nested) (name : String)
    (t : Timing) :
    SayAll nested ([("name", .string name)] ++ t.jsonMembers)
      ([("name", Xml.safe name)] ++ t.safe.attributes) := by
  obtain ⟨start, stop, time⟩ := t
  refine append (single (h _ (by decide)) ⟨rfl, rfl⟩) ?_
  refine (append (single (h _ (by decide)) ⟨rfl, rfl⟩) ?_).append
    (single (h _ (by decide)) ⟨rfl, rfl⟩)
  cases stop with
  | none => exact .nil
  | some stop => exact single (h _ (by decide)) ⟨rfl, rfl⟩

end SayAll

/-- What may be left out has its own key. -/
theorem key_of_mem_memberUnless {absent : Bool} {key : String} {value : Json}
    {m : String × Json} (h : m ∈ memberUnless absent key value) : m.1 = key := by
  cases absent with
  | true => cases h
  | false => exact List.mem_singleton.1 h ▸ rfl

/-- What is written if there is one has its own key. -/
theorem key_of_mem_memberOf? {α : Type} {key : String} {value : α → Json} {a : Option α}
    {m : String × Json} (h : m ∈ memberOf? key value a) : m.1 = key := by
  cases a with
  | none => cases h
  | some a => exact List.mem_singleton.1 h ▸ rfl

/-! ## Objects and elements are written alike

Each node is written as an object and as an element by two functions.  That they agree is shown for
the nodes of the report from the innermost on. -/

/-- Inside an element its children are all that is not white space. -/
theorem Xml.filter_contents (depth : Nat) (es : List Element) :
    (Element.contents (depth + 1) es ++ [indent depth]).filter (fun c => !c.isBlank)
      = es.map (Element.content (depth + 1)) := by
  rw [← elements_contents depth es, Content.elements]
  refine List.filter_congr fun c hc => ?_
  have hunmixed : (c.isElement || c.isBlank) = true := by
    rcases List.mem_append.1 hc with hc | hc
    · exact isElement_or_isBlank_of_mem_contents hc
    · rw [List.mem_singleton.1 hc, isBlank_indent, Bool.or_true]
  cases c with
  | data text => simpa [Content.isElement] using hunmixed
  | element => rfl

namespace Agrees

variable {tag : String} {nested : List String}
  {Inside : List (String × Json) → List Content → Prop} {ms : List (String × Json)}
  {as : List (String × String)} {children : List Xml.Element}

/-- A node with its children agrees with an object whose nested members they are. -/
theorem node (depth : Nat) (hvalues : SayAll nested ms as)
    (hinside : Inside ms (children.map (Xml.Element.content (depth + 1)))) :
    Agrees tag nested Inside (.object ms) ((Xml.Element.node tag as children).content depth) := by
  refine .intro hvalues ?_
  rw [Xml.filter_contents]
  exact hinside

/-- An element that may be empty agrees likewise. -/
theorem ofChildren (depth : Nat) (hvalues : SayAll nested ms as)
    (hinside : Inside ms (children.map (Xml.Element.content (depth + 1)))) :
    Agrees tag nested Inside (.object ms)
      ((Xml.Element.ofChildren tag as children).content depth) := by
  cases children with
  | nil => exact .intro hvalues hinside
  | cons e es => exact node depth hvalues hinside

end Agrees

/-- Lists of records agree if the records do. -/
theorem forall₂_map {α : Type} {R : Json → Content → Prop} {f : α → Json} {g : α → Content}
    (h : ∀ a, R (f a) (g a)) (as : List α) : List.Forall₂ R (as.map f) (as.map g) := by
  rw [List.forall₂_map_left_iff, List.forall₂_map_right_iff, List.forall₂_same]
  exact fun a _ => h a

/-- **Failures are written alike.** -/
theorem Failure.agrees (failure : Failure) (depth : Nat) :
    FailureAgrees failure.toJson (failure.safe.toXml.content depth) :=
  .intro (.cons ⟨rfl, rfl⟩ (.cons ⟨rfl, rfl⟩ .nil)) rfl

/-- **Messages are written alike.** -/
theorem agrees_message (message : String) (depth : Nat) :
    MessageAgrees (.string message)
      ((Xml.Element.text "message" [] (Xml.safe message)).content depth) := by
  refine .intro ?_
  by_cases h : Xml.safe message = "" <;> simp [h, Content.text?]

/-- The value under a key in the object that a record is written as. -/
theorem lookup_of_object_eq {α : Type} {schema : Schema α} {a : α} {ms : List (String × Json)}
    (h : Json.object ms = schema.object a) (hkeys : (schema.map Prod.fst).Nodup) (key : String) :
    ms.lookup key = (schema.lookup key).bind (Rule.value? a) := by
  rw [Json.object.inj h, Schema.lookup_members hkeys]

/-- A list is the same whether it is left out or empty. -/
theorem elements?_of_lookup {α : Type} {a : α} {elements : α → List Json} {key : String}
    {ms : List (String × Json)} (h : ms.lookup key = (Rule.unlessEmpty elements).value? a) :
    elements? key ms = some (elements a) := by
  rw [elements?, h, Rule.value?]
  cases elements a <;> rfl

/-- **Operations are written alike.** -/
theorem Operation.agrees (operation : Operation) (depth : Nat) :
    OperationAgrees operation.toJson (operation.safe.toXml.content depth) := by
  refine .ofChildren depth ?_ ?_
  · have htimed := SayAll.timed ["message"] (by decide) operation.name operation.timing
    have hresult : SayAll ["message"] [("result", .string operation.result)]
        [("result", operation.safe.result)] := .single (by decide) ⟨rfl, rfl⟩
    have hkind : SayAll ["message"] [("operationType", .string operation.kind.name)]
        [("operationType", operation.kind.name)] := .single (by decide) ⟨rfl, rfl⟩
    rw [List.append_cons _ ("result", operation.safe.result)]
    exact ((htimed.append hresult).append_nested fun _ hm =>
      List.mem_singleton.2 (key_of_mem_memberOf? hm)).append hkind
  · have hmessage := lookup_of_object_eq operation.toJson_eq (by decide) "message"
    rw [hmessage]
    obtain ⟨name, timing, result, message, kind⟩ := operation
    cases message with
    | none => exact .nil
    | some message => exact .cons (agrees_message message _) .nil

/-- **Steps are written alike**, as their operations are. -/
theorem Step.agrees (step : Step) (depth : Nat) :
    StepAgrees step.toJson (step.safe.toXml.content depth) := by
  refine .ofChildren depth ?_ ⟨_, elements?_of_lookup
    (lookup_of_object_eq step.toJson_eq (by decide) "results"), ?_⟩
  · refine .append_nested ?_ fun _ hm => List.mem_singleton.2 (key_of_mem_memberUnless hm)
    have hempty : (step.safe.name == "") = (step.name == "") :=
      Xml.keeps_safe.beq_empty step.name
    rw [hempty]
    exact .memberUnless (by decide) fun _ => ⟨rfl, rfl⟩
  · have hoperations : Operation.schema.object = Operation.toJson :=
      (funext Operation.toJson_eq).symm
    rw [hoperations]
    simp only [safe, List.map_map]
    exact forall₂_map (fun o => o.agrees (depth + 1)) step.operations

/-- **Tests are written alike**, as their failure and their steps are. -/
theorem Test.agrees (test : Test) (depth : Nat) :
    TestAgrees test.toJson (test.safe.toXml.content depth) := by
  refine .ofChildren depth ?_ ⟨_, _, _, elements?_of_lookup
    (lookup_of_object_eq test.toJson_eq (by decide) "steps"), List.map_append, ?_, ?_⟩
  · have hempty : (test.safe.scope == "") = (test.scope == "") :=
      Xml.keeps_safe.beq_empty test.scope
    rw [hempty]
    have htimed := SayAll.timed ["failure", "steps"] (by decide) test.name test.timing
    have hflag : ∀ (flag : Bool) (key : String), key ∈ ["concurrent", "skip", "skipDelete"] →
        SayAll ["failure", "steps"] (memberUnless (!flag) key (.boolean flag))
          (attributeUnless (!flag) key "true") := by
      intro flag key hkey
      refine .memberUnless (by revert key; decide) fun hset => ?_
      obtain rfl : flag = true := by simpa using hset
      refine ⟨rfl, ?_⟩
      revert key
      decide
    have hscope : SayAll ["failure", "steps"]
        (memberUnless (test.scope == "") "namespace" (.string test.scope))
        (attributeUnless (test.scope == "") "namespace" test.safe.scope) :=
      .memberUnless (by decide) fun _ => ⟨rfl, rfl⟩
    have hfailure : ∀ m ∈ memberOf? "failure" Failure.toJson test.failure,
        m.1 ∈ ["failure", "steps"] := fun m hm => by simp [key_of_mem_memberOf? hm]
    have hsteps : ∀ m ∈ memberUnless test.steps.isEmpty "steps"
        (.array (test.steps.map Step.toJson)), m.1 ∈ ["failure", "steps"] := fun m hm => by
      simp [key_of_mem_memberUnless hm]
    have hvalues := (htimed.append_nested hfailure).append_nested hsteps
    exact (((hvalues.append (hflag test.concurrent _ (by decide))).append hscope).append
      (hflag test.skip _ (by decide))).append (hflag test.skipDelete _ (by decide))
  · have hfailure := lookup_of_object_eq test.toJson_eq (by decide) "failure"
    rw [hfailure]
    obtain ⟨name, timing, failure, steps, concurrent, scope, skip, skipDelete⟩ := test
    cases failure with
    | none => exact .nil
    | some failure => exact .cons (failure.agrees _) .nil
  · have hsteps : Step.schema.object = Step.toJson := (funext Step.toJson_eq).symm
    rw [hsteps]
    simp only [safe, List.map_map]
    exact forall₂_map (fun s => s.agrees (depth + 1)) test.steps

/-- **Suites are written alike.**  All the rest is assembled here: the timing, the failure count and
the tests, one by one. -/
theorem Suite.agrees (suite : Suite) (depth : Nat) :
    SuiteAgrees suite.toJson (suite.safe.toXml.content depth) := by
  refine .node depth ?_ ⟨suite.tests.map Test.toJson, ?_, ?_⟩
  · have htimed := SayAll.timed ["reports"] (by decide) suite.name suite.timing
    have hfailures : SayAll ["reports"] [("failures", .ofNat suite.failures)]
        [("failures", String.ofList (Digits.digits suite.failures))] :=
      .single (by decide) ⟨rfl, rfl⟩
    rw [List.append_cons _ ("reports", Json.array (suite.tests.map Test.toJson))]
    exact (htimed.append_nested (by simp)).append hfailures
  · rw [lookup_of_object_eq suite.toJson_eq (by decide) "reports", funext Test.toJson_eq]
    rfl
  · simp only [safe, List.map_map]
    exact forall₂_map (fun t => t.agrees (depth + 1)) suite.tests

/-! ## Documents -/

/-- **Both formats say the same.**  A reader of JSON and a reader of XML, which know nothing of
reports, get a value and a tree from the two documents of a suite, and these agree. -/
theorem formats_agree (suite : Suite) :
    ∃ v c, Json.read (suite.encode .json) = some v ∧ Xml.read (suite.encode .xml) = some c ∧
      SuiteAgrees v c := by
  refine ⟨suite.toJson, suite.safe.toXml.content 0, ?_, ?_, suite.agrees 0⟩
  · rw [Suite.encode, Suite.text, Json.read_render]
  · rw [Suite.encode, Suite.text, Xml.read_render suite.isWritable, suite.safeXml_eq]

end RunRecord
