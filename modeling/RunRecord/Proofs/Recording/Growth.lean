import RunRecord.Proofs.Recording.Derived

/-!
# Proofs/Recording/Growth — what is recorded stays recorded

A node **grows**: what it is called, when it started and what it was begun with stay, its list of
children is only ever appended to, and its end is written once.  A held node is told by its
identifier and lives until another node is begun under it; the suite lives until another suite is
begun.  `Recording.Update` says what one call can do to the held nodes, and growth is transitive, so
a run of any length makes of a node what a single call may make of it.

What is said of a state and a later one holds of any two states of a run, not only of neighbours,
and also where the same call comes up again and again.  Calls that are refused are among the calls
of a run, so that no program can make a node shrink by calling at the wrong time.
-/

namespace RunRecord

/-! ## Growth of nodes

Each relation lists what stays and what may change.  They are reflexive, as many calls leave a node
alone, and transitive, as a run has many calls. -/

/-- **A timing grows**: its start stays, and once there is an end all of it does.  So the time can
be written with the end only. -/
structure Timing.Grows (t later : Timing) : Prop where
  start : later.start = t.start
  ended : t.stop.isSome = true → later = t

/-- **An operation grows**: only its outcome can change, and its timing can grow. -/
structure Operation.Grows (operation later : Operation) : Prop where
  name : later.name = operation.name
  kind : later.kind = operation.kind
  timing : operation.timing.Grows later.timing

/-- **A step grows**: operations are appended.  Its name stays, and so does every operation that it
has. -/
structure Step.Grows (step later : Step) : Prop where
  name : later.name = step.name
  operations : step.operations <+: later.operations

/-- **A test grows**: steps are appended, and a failure is never taken away, although another one
may take its place. -/
structure Test.Grows (test later : Test) : Prop where
  name : later.name = test.name
  concurrent : later.concurrent = test.concurrent
  scope : later.scope = test.scope
  skip : later.skip = test.skip
  skipDelete : later.skipDelete = test.skipDelete
  timing : test.timing.Grows later.timing
  steps : test.steps <+: later.steps
  failure : test.failure.isSome = true → later.failure.isSome = true

/-- **A suite grows**: tests are appended, and the failures are counted once.  What is open may be
closed, and not the other way round. -/
structure Suite.Grows (suite later : Suite) : Prop where
  name : later.name = suite.name
  timing : suite.timing.Grows later.timing
  tests : suite.tests <+: later.tests
  failures : suite.isClosed = true → later.failures = suite.failures

/-- A held node grows as what it is. -/
inductive Node.Grows : Node → Node → Prop
  | test {test later : Test} : test.Grows later → Grows (.test test) (.test later)
  | step {step later : Step} : step.Grows later → Grows (.step step) (.step later)
  | operation {operation later : Operation} :
    operation.Grows later → Grows (.operation operation) (.operation later)

namespace Timing

variable {t : Timing}

theorem Grows.refl (t : Timing) : t.Grows t := ⟨rfl, fun _ => rfl⟩

theorem Grows.trans {middle later : Timing} (h : t.Grows middle) (h' : middle.Grows later) :
    t.Grows later where
  start := h'.start.trans h.start
  ended hstop := by
    obtain rfl := h.ended hstop
    exact h'.ended hstop

/-- A timing that has an end is not ended again. -/
theorem finish_of_isSome (h : t.stop.isSome = true) (now : Instant) : t.finish now = t := by
  obtain ⟨stop, hstop⟩ := Option.isSome_iff_exists.1 h
  rw [finish, hstop]

theorem finishEvents_of_isSome (h : t.stop.isSome = true) (node : NodeKind) (name : String) :
    t.finishEvents node name = [.endedAgain node name] := by
  obtain ⟨stop, hstop⟩ := Option.isSome_iff_exists.1 h
  rw [finishEvents, hstop]

/-- A timing that has been ended has an end. -/
theorem isSome_stop_finish (t : Timing) (now : Instant) : (t.finish now).stop.isSome = true := by
  rw [finish]
  split
  · next h => rw [h, Option.isSome_some]
  · rfl

theorem grows_finish (t : Timing) (now : Instant) : t.Grows (t.finish now) where
  start := by
    rw [finish]
    split <;> rfl
  ended h := finish_of_isSome h now

end Timing

namespace Operation

variable {operation : Operation}

theorem Grows.refl (operation : Operation) : operation.Grows operation := ⟨rfl, rfl, .refl _⟩

theorem Grows.trans {middle later : Operation} (h : operation.Grows middle)
    (h' : middle.Grows later) : operation.Grows later :=
  ⟨h'.name.trans h.name, h'.kind.trans h.kind, h.timing.trans h'.timing⟩

theorem grows_setResult (operation : Operation) (result : String) :
    operation.Grows (operation.setResult result) := ⟨rfl, rfl, .refl _⟩

theorem grows_setMessage (operation : Operation) (message : String) :
    operation.Grows (operation.setMessage message) := ⟨rfl, rfl, .refl _⟩

theorem grows_markEnd (operation : Operation) (now : Instant) :
    operation.Grows (operation.markEnd now) := ⟨rfl, rfl, operation.timing.grows_finish now⟩

end Operation

namespace Step

variable {step : Step}

theorem Grows.refl (step : Step) : step.Grows step := ⟨rfl, List.prefix_rfl⟩

theorem Grows.trans {middle later : Step} (h : step.Grows middle) (h' : middle.Grows later) :
    step.Grows later :=
  ⟨h'.name.trans h.name, h.operations.trans h'.operations⟩

theorem grows_addOperation (step : Step) (operation : Operation) :
    step.Grows (step.addOperation operation) := ⟨rfl, List.prefix_append _ _⟩

end Step

namespace Test

variable {test : Test}

theorem Grows.refl (test : Test) : test.Grows test :=
  ⟨rfl, rfl, rfl, rfl, rfl, .refl _, List.prefix_rfl, id⟩

theorem Grows.trans {middle later : Test} (h : test.Grows middle) (h' : middle.Grows later) :
    test.Grows later where
  name := h'.name.trans h.name
  concurrent := h'.concurrent.trans h.concurrent
  scope := h'.scope.trans h.scope
  skip := h'.skip.trans h.skip
  skipDelete := h'.skipDelete.trans h.skipDelete
  timing := h.timing.trans h'.timing
  steps := h.steps.trans h'.steps
  failure hfailure := h'.failure (h.failure hfailure)

theorem grows_addStep (test : Test) (step : Step) : test.Grows (test.addStep step) :=
  ⟨rfl, rfl, rfl, rfl, rfl, .refl _, List.prefix_append _ _, id⟩

theorem grows_attachFailure (test : Test) (failure : Failure) :
    test.Grows (test.attachFailure failure) :=
  ⟨rfl, rfl, rfl, rfl, rfl, .refl _, List.prefix_rfl, fun _ => rfl⟩

theorem grows_markEnd (test : Test) (now : Instant) : test.Grows (test.markEnd now) :=
  ⟨rfl, rfl, rfl, rfl, rfl, test.timing.grows_finish now, List.prefix_rfl, id⟩

end Test

namespace Suite

variable {suite : Suite}

theorem Grows.refl (suite : Suite) : suite.Grows suite :=
  ⟨rfl, .refl _, List.prefix_rfl, fun _ => rfl⟩

/-- A closed suite stays closed. -/
theorem Grows.isClosed {later : Suite} (h : suite.Grows later) (hclosed : suite.isClosed = true) :
    later.isClosed = true := by
  rw [Suite.isClosed, h.timing.ended hclosed]
  exact hclosed

theorem Grows.trans {middle later : Suite} (h : suite.Grows middle) (h' : middle.Grows later) :
    suite.Grows later where
  name := h'.name.trans h.name
  timing := h.timing.trans h'.timing
  tests := h.tests.trans h'.tests
  failures hclosed := (h'.failures (h.isClosed hclosed)).trans (h.failures hclosed)

theorem grows_addTest (suite : Suite) (test : Test) : suite.Grows (suite.addTest test) :=
  ⟨rfl, .refl _, List.prefix_append _ _, fun _ => rfl⟩

/-- Closing a closed suite changes nothing. -/
theorem close_of_isClosed (h : suite.isClosed = true) (now : Instant) : suite.close now = suite :=
  if_pos h

/-- A suite that has been closed is closed. -/
theorem isClosed_close (suite : Suite) (now : Instant) : (suite.close now).isClosed = true := by
  rw [isClosed, timing_close]
  exact suite.timing.isSome_stop_finish now

theorem grows_close (suite : Suite) (now : Instant) : suite.Grows (suite.close now) where
  name := by
    rw [close]
    split <;> rfl
  timing := by
    rw [timing_close]
    exact suite.timing.grows_finish now
  tests := (suite.tests_close now).symm ▸ List.prefix_rfl
  failures hclosed := by rw [close_of_isClosed hclosed]

end Suite

namespace Node

variable {node : Node}

theorem Grows.refl : (node : Node) → node.Grows node
  | .test t => .test (.refl t)
  | .step s => .step (.refl s)
  | .operation o => .operation (.refl o)

theorem Grows.trans {middle later : Node} (h : node.Grows middle) (h' : middle.Grows later) :
    node.Grows later := by
  rcases h with h | h | h <;> rcases h' with h' | h' | h'
  · exact .test (h.trans h')
  · exact .step (h.trans h')
  · exact .operation (h.trans h')

end Node

/-! ## Growth during a run

Of the effects of a call only those on one node matter here, so they are cut down to three.  A node
is lost from under its identifier only where another is begun there. -/

/-- Whether an action begins a node under an identifier. -/
def Action.begins (id : String) : Action → Bool
  | .beginTest other .. | .beginStep other _ | .beginOperation other .. => other == id
  | _ => false

namespace Recording

variable {r : Recording}

/-- **What a call can do to the held nodes**: nothing, begin one, or make one grow. -/
inductive Update (r : Recording) (c : Call) : Recording → Prop
  | kept {after : Recording} : after.held = r.held → Update r c after
  | begun {id : String} (node : Node) : c.action.begins id = true → Update r c (r.put id node)
  | grown {id : String} {node later : Node} :
    r.get? id = some node → node.Grows later → Update r c (r.put id later)

theorem Effect.update {after : Recording} {now : Instant} {action : Action}
    (h : r.Effect now action after) : r.Update ⟨now, action⟩ after := by
  cases h with
  | beginSuite | addTest | close => exact .kept rfl
  | beginTest id | beginStep id | beginOperation id => exact .begun _ (beq_self_eq_true id)
  | @setResult _ o value ho => exact .grown ho (.operation (o.grows_setResult value))
  | @setMessage _ o value ho => exact .grown ho (.operation (o.grows_setMessage value))
  | @attachFailure _ test failure htest =>
    exact .grown htest (.test (test.grows_attachFailure failure))
  | @endTest _ test htest => exact .grown htest (.test (test.grows_markEnd now))
  | @endOperation _ o ho => exact .grown ho (.operation (o.grows_markEnd now))
  | @addOperation _ _ o s _ hs => exact .grown hs (.step (s.grows_addOperation o))
  | @addStep _ _ s test _ htest => exact .grown htest (.test (test.grows_addStep s))

theorem update_call (r : Recording) (c : Call) : r.Update c (r.call c) := by
  rw [call]
  split
  · next h => exact (effect_of_act? h).update
  · exact .kept rfl

/-- **A held node grows in a call** that does not begin another one in its place.  A call to another
node leaves it as it is. -/
theorem grows_get?_call {id : String} {node : Node} (h : r.get? id = some node) {c : Call}
    (hc : c.action.begins id = false) :
    ∃ later, (r.call c).get? id = some later ∧ node.Grows later := by
  have hupdate := r.update_call c
  generalize r.call c = after at hupdate
  rcases hupdate with hheld | ⟨other, hbegins⟩ | ⟨hother, hgrows⟩
  · exact ⟨node, by rw [get?, hheld]; exact h, .refl node⟩
  · next id' =>
    have hne : id ≠ id' := fun heq => by rw [heq, hbegins] at hc; cases hc
    exact ⟨node, (get?_put_of_ne hne).trans h, .refl node⟩
  · next id' other later =>
    by_cases heq : id = id'
    · subst heq
      obtain rfl := Option.some.inj (h.symm.trans hother)
      exact ⟨later, get?_put_self r id later, hgrows⟩
    · exact ⟨node, (get?_put_of_ne heq).trans h, .refl node⟩

/-- **The suite grows in a call** that does not begin another one.  Only the adding of a test and
the closing concern it at all. -/
theorem grows_suite_call {suite : Suite} (h : r.suite = some suite) {c : Call}
    (hc : ∀ name, c.action ≠ .beginSuite name) :
    ∃ later, (r.call c).suite = some later ∧ suite.Grows later := by
  have hchange := r.change_call c
  generalize r.call c = after at hchange
  cases hchange with
  | nothing => exact ⟨suite, h, .refl suite⟩
  | put _ _ => exact ⟨suite, h, .refl suite⟩
  | begin haction => exact absurd haction (hc _)
  | @extend before test hbefore _ =>
    obtain rfl := Option.some.inj (h.symm.trans hbefore)
    exact ⟨_, rfl, suite.grows_addTest test⟩
  | close hbefore _ =>
    obtain rfl := Option.some.inj (h.symm.trans hbefore)
    exact ⟨_, rfl, suite.grows_close c.now⟩

/-- **A held node grows during a run**, as long as no other is begun in its place. -/
theorem grows_get?_after {id : String} {node : Node} {calls : List Call}
    (h : r.get? id = some node) (hcalls : ∀ c ∈ calls, c.action.begins id = false) :
    ∃ later, (r.after calls).get? id = some later ∧ node.Grows later := by
  induction calls generalizing r node with
  | nil => exact ⟨node, h, .refl node⟩
  | cons c calls ih =>
    rw [List.forall_mem_cons] at hcalls
    obtain ⟨middle, hmiddle, hgrows⟩ := grows_get?_call h hcalls.1
    obtain ⟨later, hlater, hgrows'⟩ := ih hmiddle hcalls.2
    exact ⟨later, hlater, hgrows.trans hgrows'⟩

/-- **The suite grows during a run**, as long as no other is begun. -/
theorem grows_suite_after {suite : Suite} {calls : List Call} (h : r.suite = some suite)
    (hcalls : ∀ c ∈ calls, ∀ name, c.action ≠ .beginSuite name) :
    ∃ later, (r.after calls).suite = some later ∧ suite.Grows later := by
  induction calls generalizing r suite with
  | nil => exact ⟨suite, h, .refl suite⟩
  | cons c calls ih =>
    rw [List.forall_mem_cons] at hcalls
    obtain ⟨middle, hmiddle, hgrows⟩ := grows_suite_call h hcalls.1
    obtain ⟨later, hlater, hgrows'⟩ := ih hmiddle hcalls.2
    exact ⟨later, hlater, hgrows.trans hgrows'⟩

end Recording

/-! ## Asking for an end again

A program that ends a node twice is told so and nothing else happens.  This is stated of the whole
recording, not of the node alone. -/

/-- Kind, name and timing of a held node that is timed. -/
def Node.timed? : Node → Option (NodeKind × String × Timing)
  | .test t => some (.test, t.name, t.timing)
  | .operation o => some (.operation, o.name, o.timing)
  | .step _ => none

/-- A node with an end keeps kind, name and timing. -/
theorem Node.Grows.timed?_eq {node later : Node} (h : node.Grows later) {kind : NodeKind}
    {name : String} {t : Timing} (ht : node.timed? = some (kind, name, t))
    (hstop : t.stop.isSome = true) : later.timed? = some (kind, name, t) := by
  rcases h with h | h | h <;> cases ht
  · rw [timed?, h.name, h.timing.ended hstop]
  · rw [timed?, h.name, h.timing.ended hstop]

/-- **Exactly one warning, and it names a node.**  No other event comes with it. -/
def Event.IsOneWarning (events : List Event) (kind : NodeKind) (name : String) : Prop :=
  ∃ event, events = [event] ∧ event.level = .warn ∧
    event.fields = [("node", .text kind.name), ("name", .text name)]

theorem Event.isOneWarning_endedAgain (kind : NodeKind) (name : String) :
    IsOneWarning [.endedAgain kind name] kind name := ⟨_, rfl, rfl, rfl⟩

namespace Recording

variable {r : Recording}

/-- The same suite, and the same nodes under the same identifiers.  How the nodes are kept is not
compared. -/
structure Same (r other : Recording) : Prop where
  suite : other.suite = r.suite
  held : ∀ id, other.get? id = r.get? id

/-- Putting a node where it is already changes nothing. -/
theorem same_put {id : String} {node : Node} (h : r.get? id = some node) :
    r.Same (r.put id node) where
  suite := rfl
  held other := by
    by_cases heq : other = id
    · rw [heq, get?_put_self, h]
    · exact get?_put_of_ne heq

/-- **Ending a node again changes nothing and earns one warning**, which names the kind and the name
of the node. -/
theorem act?_markEnd_of_ended {id : String} {node : Node} {kind : NodeKind} {name : String}
    {t : Timing} (h : r.get? id = some node) (ht : node.timed? = some (kind, name, t))
    (hstop : t.stop.isSome = true) (now : Instant) :
    ∃ after events, r.act? now (.markEnd id) = some (after, events) ∧ r.Same after ∧
      Event.IsOneWarning events kind name := by
  have hfinish := Timing.finish_of_isSome hstop now
  have hevents := Timing.finishEvents_of_isSome hstop kind name
  cases node with
  | step => cases ht
  | test test =>
    cases ht
    refine ⟨_, _, by rw [act?, h], ?_, ?_⟩
    · rw [Test.markEnd, hfinish]
      exact same_put h
    · rw [Test.markEndEvents, hevents]
      exact Event.isOneWarning_endedAgain _ _
  | operation o =>
    cases ht
    refine ⟨_, _, by rw [act?, h], ?_, ?_⟩
    · rw [Operation.markEnd, hfinish]
      exact same_put h
    · rw [Operation.markEndEvents, hevents]
      exact Event.isOneWarning_endedAgain _ _

/-- **Closing the suite again changes nothing and earns one warning.**  Its end and its failure
count are those of the first close. -/
theorem act?_close_of_isClosed {suite : Suite} (h : r.suite = some suite)
    (hclosed : suite.isClosed = true) (now : Instant) :
    ∃ events, r.act? now .close = some (r, events) ∧
      Event.IsOneWarning events .suite suite.name := by
  have hevents := Timing.finishEvents_of_isSome hclosed .suite suite.name
  refine ⟨_, ?_, Event.isOneWarning_endedAgain _ _⟩
  rw [act?, h, Option.map_some, Suite.close_of_isClosed hclosed, Suite.closeEvents, if_pos hclosed,
    hevents, ← h]

theorem after_append (start : Recording) (calls more : List Call) :
    start.after (calls ++ more) = (start.after calls).after more := List.foldl_append

end Recording

/-! ## Any two states of a run -/

/-- **The record is append-only, and ends are written once.**  Of any two states of a run, the suite
and every held node of the earlier one are there in the later one, unless another one has been begun
in their place, and have grown; and what had an end is not ended again: asking for it changes
nothing and earns one warning. -/
theorem record_grows (start : Recording) (calls more : List Call) :
    (∀ suite, (start.after calls).suite = some suite →
      (∀ c ∈ more, ∀ name, c.action ≠ .beginSuite name) →
      ∃ later, (start.after (calls ++ more)).suite = some later ∧ suite.Grows later ∧
        (suite.isClosed = true → ∀ now, ∃ events,
          (start.after (calls ++ more)).act? now .close
            = some (start.after (calls ++ more), events) ∧
          Event.IsOneWarning events .suite suite.name)) ∧
    ∀ id node, (start.after calls).get? id = some node →
      (∀ c ∈ more, c.action.begins id = false) →
      ∃ later, (start.after (calls ++ more)).get? id = some later ∧ node.Grows later ∧
        ∀ kind name t, node.timed? = some (kind, name, t) → t.stop.isSome = true →
          ∀ now, ∃ after events,
            (start.after (calls ++ more)).act? now (.markEnd id) = some (after, events) ∧
            (start.after (calls ++ more)).Same after ∧ Event.IsOneWarning events kind name := by
  rw [Recording.after_append]
  refine ⟨fun suite hsuite hmore => ?_, fun id node hget hmore => ?_⟩
  · obtain ⟨later, hlater, hgrows⟩ := Recording.grows_suite_after hsuite hmore
    refine ⟨later, hlater, hgrows, fun hclosed now => ?_⟩
    rw [← hgrows.name]
    exact Recording.act?_close_of_isClosed hlater (hgrows.isClosed hclosed) now
  · obtain ⟨later, hlater, hgrows⟩ := Recording.grows_get?_after hget hmore
    exact ⟨later, hlater, hgrows, fun kind name t ht hstop now =>
      Recording.act?_markEnd_of_ended hlater (hgrows.timed?_eq ht hstop) hstop now⟩

/-- A run in which a test is begun, failed, ended and added, and the suite closed. -/
def endedRun : List Call :=
  List.map (Call.mk firstInstant)
    [.beginTest "t" "t" true "" false true,
      .attachFailure "t" { message := "boom", kind := "Error" }, .markEnd "t", .addTest "t", .close]

/-- Calls that ask for the ends again, and add the test again with another failure. -/
def repeatedRun : List Call :=
  List.map (Call.mk lastInstant)
    [.markEnd "t", .attachFailure "t" { message := "bang", kind := "Error" }, .close, .addTest "t",
      .beginStep "s" "s", .addStep "s" "t"]

/-- The test and the suite that have ended grow through the repeated calls, but not their ends. -/
theorem endedRun_grows :
    ∃ suite test suite' test',
      ((Recording.ofSuite (.begin "s" firstInstant)).after endedRun).suite = some suite ∧
      suite.isClosed = true ∧ suite.failures = 1 ∧
      ((Recording.ofSuite (.begin "s" firstInstant)).after (endedRun ++ repeatedRun)).suite
        = some suite' ∧ suite.Grows suite' ∧ suite'.failedCount = 2 ∧
      ((Recording.ofSuite (.begin "s" firstInstant)).after endedRun).get? "t"
        = some (.test test) ∧ test.timing.stop.isSome = true ∧
      ((Recording.ofSuite (.begin "s" firstInstant)).after (endedRun ++ repeatedRun)).get? "t"
        = some (.test test') ∧ (Node.test test).Grows (.test test') ∧ test'.steps.length = 1 := by
  obtain ⟨hsuite, hnode⟩ := record_grows (.ofSuite (.begin "s" firstInstant)) endedRun repeatedRun
  obtain ⟨suite', hsuite', hgrows, -⟩ := hsuite _ rfl (by simp [repeatedRun])
  obtain ⟨later, hlater, hgrows', -⟩ := hnode "t" _ rfl (by decide)
  cases hsuite'
  cases hlater
  exact ⟨_, _, _, _, rfl, rfl, rfl, rfl, hgrows, rfl, rfl, rfl, rfl, hgrows', rfl⟩

end RunRecord
