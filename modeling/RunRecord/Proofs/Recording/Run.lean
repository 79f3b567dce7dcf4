import RunRecord.Report.Recording

/-!
# Proofs/Recording/Run — what a run does to a recording

A **call** is an action with the reading of the clock at which it is made, and a **run** is a list
of calls; a call that is refused changes nothing.  `Recording.Effect` says once what each action
does.  Of it `Recording.Change` is what matters to timings and to the suite: a node is put whose
timings come from somewhere, or the suite is begun, extended or closed.  What holds of every timing,
or of the suite, throughout a run is read off from that.

Everything that is proved of runs goes through these two relations, so that a new action, or another
effect of one, has to be looked at in one place.  Refused calls have no effect, and are therefore no
case of their own in the inductions.
-/

namespace RunRecord

/-! ## The timings of a recording

A timing may be in the suite, in a held test or step, or be that of a held operation.  For what
holds of all of them it does not matter where they are. -/

/-- The timings of the operations of a step. -/
def Step.timings (step : Step) : List Timing := step.operations.map (·.timing)

/-- The timings of a test and of its operations. -/
def Test.timings (test : Test) : List Timing := test.timing :: test.steps.flatMap Step.timings

/-- The timings of a suite, of its tests and of their operations. -/
def Suite.timings (suite : Suite) : List Timing := suite.timing :: suite.tests.flatMap Test.timings

/-- The timings of a held node and of what it holds. -/
def Node.timings : Node → List Timing
  | .test t => t.timings
  | .step s => s.timings
  | .operation o => [o.timing]

/-- All timings of a recording, in the suite and in the held nodes. -/
def Recording.timings (r : Recording) : List Timing :=
  r.suite.toList.flatMap Suite.timings ++ r.held.flatMap fun entry => entry.2.timings

theorem Step.timings_addOperation (step : Step) (operation : Operation) :
    (step.addOperation operation).timings = step.timings ++ [operation.timing] := by
  simp [timings, addOperation]

theorem Test.timings_addStep (test : Test) (step : Step) :
    (test.addStep step).timings = test.timings ++ step.timings := by
  simp [timings, addStep]

theorem Suite.timings_addTest (suite : Suite) (test : Test) :
    (suite.addTest test).timings = suite.timings ++ test.timings := by
  simp [timings, addTest]

/-- Closing writes the end, unless there is one. -/
theorem Suite.timing_close (suite : Suite) (now : Instant) :
    (suite.close now).timing = suite.timing.finish now := by
  unfold close isClosed Timing.finish
  cases suite.timing.stop <;> rfl

theorem Suite.tests_close (suite : Suite) (now : Instant) :
    (suite.close now).tests = suite.tests := by
  rw [close]
  split <;> rfl

namespace Recording

variable {r : Recording}

/-- The timings of the suite are among those of the recording. -/
theorem suite_timings_subset {suite : Suite} (h : r.suite = some suite) :
    suite.timings ⊆ r.timings := by
  intro t ht
  rw [timings, h]
  exact List.mem_append_left _ (by simpa using ht)

/-- The timings of a held node are among those of the recording. -/
theorem node_timings_subset {id : String} {node : Node} (h : r.get? id = some node) :
    node.timings ⊆ r.timings := by
  intro t ht
  obtain ⟨before, after, hheld, -⟩ := List.lookup_eq_some_iff.1 h
  rw [timings, hheld]
  exact List.mem_append_right _ (by simpa using Or.inr (Or.inl ht))

theorem get?_of_test? {id : String} {test : Test} (h : r.test? id = some test) :
    r.get? id = some (.test test) := by
  rw [test?] at h
  split at h
  · next hget =>
    cases h
    exact hget
  · cases h

theorem get?_of_step? {id : String} {step : Step} (h : r.step? id = some step) :
    r.get? id = some (.step step) := by
  rw [step?] at h
  split at h
  · next hget =>
    cases h
    exact hget
  · cases h

theorem get?_of_operation? {id : String} {operation : Operation}
    (h : r.operation? id = some operation) : r.get? id = some (.operation operation) := by
  rw [operation?] at h
  split at h
  · next hget =>
    cases h
    exact hget
  · cases h

/-- Whatever is in a recording after a node is put was there before or is in the node. -/
theorem mem_timings_put {id : String} {node : Node} {t : Timing} (h : t ∈ (r.put id node).timings) :
    t ∈ node.timings ∨ t ∈ r.timings := by
  rw [timings, suite_put, List.mem_append] at h
  rcases h with h | h
  · exact .inr (List.mem_append_left _ h)
  · obtain ⟨entry, hentry, ht⟩ := List.mem_flatMap.1 h
    rcases List.mem_cons.1 hentry with rfl | hentry
    · exact .inl ht
    · refine .inr (List.mem_append_right _ (List.mem_flatMap.2 ⟨entry, ?_, ht⟩))
      exact (List.mem_filter.1 hentry).1

/-- Whatever is in a recording after its suite is replaced was there before or is in the suite. -/
theorem mem_timings_suite {suite : Suite} {t : Timing}
    (h : t ∈ ({ r with suite := some suite } : Recording).timings) :
    t ∈ suite.timings ∨ t ∈ r.timings := by
  rcases List.mem_append.1 h with h | h
  · exact .inl (by simpa using h)
  · exact .inr (List.mem_append_right _ h)

end Recording

/-! ## Calls

An effect has one constructor for each action, with what has to be there for it to succeed.
`Change` forgets the action and keeps what a call may do to timings and to the suite. -/

/-- An action and the reading of the clock at which it is made. -/
structure Call where
  now : Instant
  action : Action

/-- Whether an action looks at the clock. -/
def Action.readsClock : Action → Bool
  | .beginSuite _ | .beginTest .. | .beginOperation .. | .markEnd _ | .close => true
  | _ => false

namespace Recording

/-- The recording after a call; a call that is refused changes nothing. -/
def call (r : Recording) (c : Call) : Recording :=
  match r.act? c.now c.action with
  | some (after, _) => after
  | none => r

/-- The recording after a run. -/
def after (r : Recording) (calls : List Call) : Recording := calls.foldl call r

theorem after_concat (r : Recording) (calls : List Call) (c : Call) :
    r.after (calls ++ [c]) = (r.after calls).call c := by
  rw [after, List.foldl_append]
  rfl

/-- **What an action does**, unless it is refused.  The constructors repeat what the recorder does,
but as a relation between recordings, without the events. -/
inductive Effect (r : Recording) (now : Instant) : Action → Recording → Prop
  | beginSuite (name : String) :
    Effect r now (.beginSuite name) { r with suite := some (.begin name now) }
  | beginTest (id name : String) (concurrent : Bool) (scope : String) (skip skipDelete : Bool) :
    Effect r now (.beginTest id name concurrent scope skip skipDelete)
      (r.put id (.test (.begin name concurrent scope skip skipDelete now)))
  | beginStep (id name : String) :
    Effect r now (.beginStep id name) (r.put id (.step (.begin name)))
  | beginOperation (id name : String) (kind : OperationKind) :
    Effect r now (.beginOperation id name kind) (r.put id (.operation (.begin name kind now)))
  | setResult {id : String} {o : Operation} (value : String) : r.get? id = some (.operation o) →
    Effect r now (.setResult id value) (r.put id (.operation (o.setResult value)))
  | setMessage {id : String} {o : Operation} (value : String) : r.get? id = some (.operation o) →
    Effect r now (.setMessage id value) (r.put id (.operation (o.setMessage value)))
  | attachFailure {id : String} {test : Test} (failure : Failure) : r.get? id = some (.test test) →
    Effect r now (.attachFailure id failure) (r.put id (.test (test.attachFailure failure)))
  | endTest {id : String} {test : Test} : r.get? id = some (.test test) →
    Effect r now (.markEnd id) (r.put id (.test (test.markEnd now)))
  | endOperation {id : String} {o : Operation} : r.get? id = some (.operation o) →
    Effect r now (.markEnd id) (r.put id (.operation (o.markEnd now)))
  | addOperation {id parent : String} {o : Operation} {s : Step} :
    r.get? id = some (.operation o) → r.get? parent = some (.step s) →
      Effect r now (.addOperation id parent) (r.put parent (.step (s.addOperation o)))
  | addStep {id parent : String} {s : Step} {test : Test} :
    r.get? id = some (.step s) → r.get? parent = some (.test test) →
      Effect r now (.addStep id parent) (r.put parent (.test (test.addStep s)))
  | addTest {id : String} {test : Test} {suite : Suite} :
    r.get? id = some (.test test) → r.suite = some suite →
      Effect r now (.addTest id) { r with suite := some (suite.addTest test) }
  | close {suite : Suite} : r.suite = some suite →
    Effect r now .close { r with suite := some (suite.close now) }

/-- An action that is not refused has its effect, and no other. -/
theorem effect_of_act? {r after : Recording} {now : Instant} {action : Action}
    {events : List Event} (h : r.act? now action = some (after, events)) :
    r.Effect now action after := by
  cases action with
  | beginSuite name =>
    cases h
    exact .beginSuite name
  | beginTest id name concurrent scope skip skipDelete =>
    cases h
    exact .beginTest id name concurrent scope skip skipDelete
  | beginStep id name =>
    cases h
    exact .beginStep id name
  | beginOperation id name kind =>
    cases h
    exact .beginOperation id name kind
  | setResult id value =>
    obtain ⟨o, ho, hafter⟩ := Option.map_eq_some_iff.1 h
    cases hafter
    exact .setResult value (get?_of_operation? ho)
  | setMessage id value =>
    obtain ⟨o, ho, hafter⟩ := Option.map_eq_some_iff.1 h
    cases hafter
    exact .setMessage value (get?_of_operation? ho)
  | attachFailure id failure =>
    obtain ⟨test, htest, hafter⟩ := Option.map_eq_some_iff.1 h
    cases hafter
    exact .attachFailure failure (get?_of_test? htest)
  | markEnd id =>
    simp only [act?] at h
    split at h
    · next test hget =>
      cases h
      exact .endTest hget
    · next o hget =>
      cases h
      exact .endOperation hget
    · cases h
  | addOperation id parent =>
    simp only [act?] at h
    split at h
    · next o s ho hs =>
      cases h
      exact .addOperation (get?_of_operation? ho) (get?_of_step? hs)
    · cases h
  | addStep id parent =>
    simp only [act?] at h
    split at h
    · next s test hs htest =>
      cases h
      exact .addStep (get?_of_step? hs) (get?_of_test? htest)
    · cases h
  | addTest id =>
    simp only [act?] at h
    split at h
    · next test suite htest hsuite =>
      cases h
      exact .addTest (get?_of_test? htest) hsuite
    · cases h
  | close =>
    obtain ⟨suite, hsuite, hafter⟩ := Option.map_eq_some_iff.1 h
    cases hafter
    exact .close hsuite

/-- Where a timing comes from after a call: it was there before, or the call, if it reads the clock,
has begun it or ended one that was there. -/
inductive Yields (r : Recording) (c : Call) : Timing → Prop
  | old {t : Timing} : t ∈ r.timings → Yields r c t
  | begun : c.action.readsClock = true → Yields r c (.begin c.now)
  | ended {t : Timing} : c.action.readsClock = true → t ∈ r.timings → Yields r c (t.finish c.now)

/-- **What a call can do to a recording**: only the beginning of a suite replaces the one there. -/
inductive Change (r : Recording) (c : Call) : Recording → Prop
  | nothing : Change r c r
  | put (id : String) {node : Node} :
    (∀ t ∈ node.timings, r.Yields c t) → Change r c (r.put id node)
  | begin {name : String} :
    c.action = .beginSuite name → Change r c { r with suite := some (.begin name c.now) }
  | extend {suite : Suite} {test : Test} :
    r.suite = some suite → test.timings ⊆ r.timings →
      Change r c { r with suite := some (suite.addTest test) }
  | close {suite : Suite} :
    r.suite = some suite → c.action.readsClock = true →
      Change r c { r with suite := some (suite.close c.now) }

theorem Effect.change {r after : Recording} {now : Instant} {action : Action}
    (h : r.Effect now action after) : r.Change ⟨now, action⟩ after := by
  cases h with
  | beginSuite => exact .begin rfl
  | beginTest id => exact .put id (List.forall_mem_singleton.2 (.begun rfl))
  | beginStep id => exact .put id fun t ht => nomatch ht
  | beginOperation id => exact .put id (List.forall_mem_singleton.2 (.begun rfl))
  | setResult _ ho | setMessage _ ho =>
    have hold := node_timings_subset ho List.mem_cons_self
    exact .put _ (List.forall_mem_singleton.2 (.old hold))
  | attachFailure _ htest => exact .put _ fun t ht => .old (node_timings_subset htest ht)
  | endTest htest =>
    have hold := node_timings_subset htest
    refine .put _ (List.forall_mem_cons.2 ⟨.ended rfl (hold List.mem_cons_self), fun t ht => ?_⟩)
    exact .old (hold (List.mem_cons_of_mem _ ht))
  | endOperation ho =>
    have hold := node_timings_subset ho List.mem_cons_self
    exact .put _ (List.forall_mem_singleton.2 (.ended rfl hold))
  | addOperation ho hs =>
    refine .put _ fun t ht => .old ?_
    rw [Node.timings, Step.timings_addOperation, List.mem_append] at ht
    rcases ht with ht | ht
    · exact node_timings_subset hs ht
    · exact node_timings_subset ho ht
  | addStep hs htest =>
    refine .put _ fun t ht => .old ?_
    rw [Node.timings, Test.timings_addStep, List.mem_append] at ht
    rcases ht with ht | ht
    · exact node_timings_subset htest ht
    · exact node_timings_subset hs ht
  | addTest htest hsuite => exact .extend hsuite (node_timings_subset htest)
  | close hsuite => exact .close hsuite rfl

/-- **A call changes a recording in one of these ways**, refused or not. -/
theorem change_call (r : Recording) (c : Call) : r.Change c (r.call c) := by
  rw [call]
  split
  · next h => exact (effect_of_act? h).change
  · exact .nothing

/-- **Every timing after a call comes from somewhere**: it was there before, or the call has begun
it or ended one that was. -/
theorem yields_of_mem {r : Recording} {c : Call} {t : Timing} (h : t ∈ (r.call c).timings) :
    r.Yields c t := by
  have hchange := r.change_call c
  generalize r.call c = after at h hchange
  cases hchange with
  | nothing => exact .old h
  | put id hnode =>
    rcases mem_timings_put h with h | h
    · exact hnode t h
    · exact .old h
  | begin haction =>
    rcases mem_timings_suite h with h | h
    · obtain rfl := List.mem_singleton.1 h
      exact .begun (by rw [haction]; rfl)
    · exact .old h
  | extend hsuite htest =>
    rcases mem_timings_suite h with h | h
    · rw [Suite.timings_addTest, List.mem_append] at h
      rcases h with h | h
      · exact .old (suite_timings_subset hsuite h)
      · exact .old (htest h)
    · exact .old h
  | close hsuite hreads =>
    rcases mem_timings_suite h with h | h
    · rw [Suite.timings, Suite.timing_close, Suite.tests_close] at h
      rcases List.mem_cons.1 h with rfl | h
      · exact .ended hreads (suite_timings_subset hsuite List.mem_cons_self)
      · exact .old (suite_timings_subset hsuite (List.mem_cons_of_mem _ h))
    · exact .old h

/-- A recording keeps having a suite. -/
theorem exists_suite_call {r : Recording} (h : ∃ suite, r.suite = some suite) (c : Call) :
    ∃ suite, (r.call c).suite = some suite := by
  have hchange := r.change_call c
  generalize r.call c = after at hchange
  cases hchange with
  | nothing => exact h
  | put _ _ => exact h
  | begin _ => exact ⟨_, rfl⟩
  | extend _ _ => exact ⟨_, rfl⟩
  | close _ _ => exact ⟨_, rfl⟩

theorem exists_suite_after {r : Recording} (h : ∃ suite, r.suite = some suite)
    (calls : List Call) : ∃ suite, (r.after calls).suite = some suite := by
  induction calls generalizing r with
  | nil => exact h
  | cons c calls ih => exact ih (exists_suite_call h c)

end Recording

end RunRecord
