import RunRecord.Proofs.Json.Layout
import RunRecord.Report.Document

/-!
# Proofs/Report/Schema — JSON reports follow the published schema

A **schema** lists the members of a record in their order, each with a rule that says when it is
there and what it holds.  The reference value of a suite is what the schemas make of it
(`Suite.published`), and that is what any reader of JSON gets from the document of the suite,
indented or compact (`json_follows_schema`).

Schemas are data, so the same list says which members may be missing, under which condition, and in
which order they come.  They are given by rules on the record and not by the writer's functions, and
a proof for each node goes through both lists in step.  The layout is settled for any value already,
so nothing here depends on it.
-/

namespace RunRecord

open Json

/-! ## Schemas

A member is there always, or unless it is unset, false, blank or empty.  The last three are the
defaults of flags, texts and lists. -/

variable {α : Type}

/-- When a member is there, and what it holds.  All conditions are on the record, never on other
members. -/
inductive Rule (α : Type) where
  | always (value : α → Json)
  | unlessUnset (value : α → Option Json)
  | unlessFalse (flag : α → Bool)
  | unlessBlank (text : α → String)
  | unlessEmpty (elements : α → List Json)

/-- What a member holds, if it is there, by the rule of its key. -/
def Rule.value? (a : α) : Rule α → Option Json
  | always value => some (value a)
  | unlessUnset value => value a
  | unlessFalse flag => if flag a then some (.boolean true) else none
  | unlessBlank text => if text a = "" then none else some (.string (text a))
  | unlessEmpty elements =>
    match elements a with
    | [] => none
    | v :: vs => some (.array (v :: vs))

/-- A member under its key, if it is there. -/
def Rule.member (a : α) (key : String) (rule : Rule α) : List (String × Json) :=
  (rule.value? a).toList.map (key, ·)

/-- The members of a record, in their order. -/
abbrev Schema (α : Type) := List (String × Rule α)

namespace Schema

/-- The members of a record that are there. -/
def members (schema : Schema α) (a : α) : List (String × Json) :=
  schema.flatMap fun d => d.2.member a d.1

/-- A record as a value. -/
def object (schema : Schema α) (a : α) : Json := .object (members schema a)

/-- **A member is there exactly if its rule says so**, and holds what its rule says.  No two members
have one key, so a member that is left out is not there under another rule. -/
theorem lookup_members {schema : Schema α} (h : (schema.map Prod.fst).Nodup) (a : α)
    (key : String) : (members schema a).lookup key = (schema.lookup key).bind (Rule.value? a) := by
  induction schema with
  | nil => rfl
  | cons d schema ih =>
    obtain ⟨other, rule⟩ := d
    have hrest := ih (List.nodup_cons.1 h).2
    rw [members, List.flatMap_cons, ← members, List.lookup_append, List.lookup_cons, Rule.member]
    by_cases hkey : key = other
    · subst hkey
      have hnone : schema.lookup key = none :=
        List.lookup_eq_none_iff.2 fun p hp => by
          rw [bne_iff_ne]
          rintro rfl
          exact (List.nodup_cons.1 h).1 (List.mem_map.2 ⟨p, hp, rfl⟩)
      cases hvalue : rule.value? a <;> simp [hrest, hnone, hvalue]
    · have hne : (key == other) = false := beq_eq_false_iff_ne.2 hkey
      rw [hne, hrest]
      cases rule.value? a <;> simp [List.lookup_cons, hne]

end Schema

/-! ## The published schema

The keys are those of the published documents, in the order in which they are written there.  A test
calls its namespace by the key `namespace`, and the children of a node stand under `reports`,
`steps` or `results`. -/

/-- The members of a failure. -/
def Failure.schema : Schema Failure := [
  ("message", .always fun f => .string f.message),
  ("type", .always fun f => .string f.kind)]

/-- The members of an operation. -/
def Operation.schema : Schema Operation := [
  ("name", .always fun o => .string o.name),
  ("startTime", .always fun o => .string o.timing.start.toText),
  ("endTime", .unlessUnset fun o => o.timing.stop.map fun t => .string t.toText),
  ("time", .always fun o => .string o.timing.time),
  ("result", .always fun o => .string o.result),
  ("message", .unlessUnset fun o => o.message.map .string),
  ("operationType", .always fun o => .string o.kind.name)]

/-- The members of a step. -/
def Step.schema : Schema Step := [
  ("name", .unlessBlank fun s => s.name),
  ("results", .unlessEmpty fun s => s.operations.map Operation.schema.object)]

/-- The members of a test. -/
def Test.schema : Schema Test := [
  ("name", .always fun t => .string t.name),
  ("startTime", .always fun t => .string t.timing.start.toText),
  ("endTime", .unlessUnset fun t => t.timing.stop.map fun t => .string t.toText),
  ("time", .always fun t => .string t.timing.time),
  ("failure", .unlessUnset fun t => t.failure.map Failure.schema.object),
  ("steps", .unlessEmpty fun t => t.steps.map Step.schema.object),
  ("concurrent", .unlessFalse fun t => t.concurrent),
  ("namespace", .unlessBlank fun t => t.scope),
  ("skip", .unlessFalse fun t => t.skip),
  ("skipDelete", .unlessFalse fun t => t.skipDelete)]

/-- The members of a suite. -/
def Suite.schema : Schema Suite := [
  ("name", .always fun s => .string s.name),
  ("startTime", .always fun s => .string s.timing.start.toText),
  ("endTime", .unlessUnset fun s => s.timing.stop.map fun t => .string t.toText),
  ("time", .always fun s => .string s.timing.time),
  ("reports", .always fun s => .array (s.tests.map Test.schema.object)),
  ("failures", .always fun s => .number s.failures 0)]

/-! ## What is written follows it -/

section Members

variable (key : String) (a : α)

/-- A member that is written if there is one follows the rule for optional members. -/
theorem memberOf?_eq {β : Type} (value : β → Json) (f : α → Option β) :
    memberOf? key value (f a) = (Rule.unlessUnset fun a => (f a).map value).member a key := by
  rw [Rule.member, Rule.value?]
  cases f a <;> rfl

/-- A flag that is written if it is set follows the rule for flags. -/
theorem memberUnless_not (flag : α → Bool) :
    memberUnless (!flag a) key (.boolean (flag a)) = (Rule.unlessFalse flag).member a key := by
  rw [Rule.member, Rule.value?]
  cases flag a <;> rfl

/-- A text that is written unless it is empty follows the rule for texts. -/
theorem memberUnless_blank (text : α → String) :
    memberUnless (text a == "") key (.string (text a)) = (Rule.unlessBlank text).member a key := by
  rw [Rule.member, Rule.value?]
  by_cases h : text a = "" <;> simp [memberUnless, h]

/-- A list that is written unless it is empty follows the rule for lists. -/
theorem memberUnless_isEmpty {β : Type} (value : β → Json) (elements : α → List β) :
    memberUnless (elements a).isEmpty key (.array ((elements a).map value))
      = (Rule.unlessEmpty fun a => (elements a).map value).member a key := by
  rw [Rule.member, Rule.value?]
  cases elements a <;> rfl

end Members

theorem Failure.toJson_eq (failure : Failure) : failure.toJson = schema.object failure := rfl

theorem Operation.toJson_eq (operation : Operation) :
    operation.toJson = schema.object operation := by
  obtain ⟨name, ⟨start, stop, time⟩, result, message, kind⟩ := operation
  cases stop <;> cases message <;> rfl

theorem Step.toJson_eq (step : Step) : step.toJson = schema.object step := by
  have hoperations : Operation.toJson = Operation.schema.object := funext Operation.toJson_eq
  rw [toJson, hoperations, memberUnless_blank "name" step name,
    memberUnless_isEmpty "results" step Operation.schema.object operations, Schema.object,
    Schema.members, schema, List.flatMap_cons, List.flatMap_singleton]

theorem Test.toJson_eq (test : Test) : test.toJson = schema.object test := by
  have hsteps : Step.toJson = Step.schema.object := funext Step.toJson_eq
  have hfailure : Failure.toJson = Failure.schema.object := funext Failure.toJson_eq
  rw [toJson, hsteps, hfailure, memberOf?_eq "failure" test Failure.schema.object failure,
    memberUnless_isEmpty "steps" test Step.schema.object steps,
    memberUnless_not "concurrent" test concurrent, memberUnless_blank "namespace" test scope,
    memberUnless_not "skip" test skip, memberUnless_not "skipDelete" test skipDelete,
    Timing.jsonMembers,
    memberOf?_eq "endTime" test Instant.toJson fun t => t.timing.stop]
  simp only [Schema.object, Schema.members, schema, List.flatMap_cons, List.flatMap_nil,
    List.append_nil, List.append_assoc]
  rfl

/-- **The object of a suite is what its schema makes of it.**  The nodes below it have been treated
before, so only its own members are gone through. -/
theorem Suite.toJson_eq (suite : Suite) : suite.toJson = schema.object suite := by
  have htests : Test.toJson = Test.schema.object := funext Test.toJson_eq
  obtain ⟨name, ⟨start, stop, time⟩, tests, failures⟩ := suite
  rw [toJson, htests]
  cases stop <;> rfl

/-- **JSON documents follow the published schema.**  A reader of plain JSON gets the reference value
of a suite from its document; the document is indented by two spaces a level and ends with its
closing brace; and the compact document has the same value and the same lexemes, side by side. -/
theorem json_follows_schema (suite : Suite) :
    Json.read (suite.encode .json) = some (Suite.schema.object suite) ∧
      Json.read (Utf8.encode (suite.toJson.render .compact)) = some (Suite.schema.object suite) ∧
      (suite.text .json).getLast? = some '\x7d' ∧
      ∃ ls, lexemes? (suite.text .json) = some ls ∧
        lexemes? (suite.toJson.render .compact) = some ls ∧
        suite.text .json = laidOut .indented 0 .other ls ∧
        suite.toJson.render .compact = ls.flatMap Lexeme.spelling := by
  refine ⟨?_, ?_, ?_, suite.toJson.lexemes, lexemes?_render .indented _,
    lexemes?_render .compact _, render_eq_laidOut .indented _, ?_⟩
  · rw [Suite.encode, Suite.text, read_render, suite.toJson_eq]
  · rw [read_render, suite.toJson_eq]
  · exact getLast?_render_object .indented _
  · rw [render_eq_laidOut, laidOut_compact]

end RunRecord
