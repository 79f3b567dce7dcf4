import Mathlib.Data.List.FinRange
import Mathlib.Data.List.Induction
import Mathlib.Data.List.Perm.Basic
import Mathlib.Data.Fin.VecNotation
import Mathlib.Logic.Function.Basic
import RunRecord.Proofs.Recording.Growth
import RunRecord.Proofs.Recording.Untimed

/-!
# Proofs/Recording/Parallel — workers that share a suite

A **worker** builds a test among nodes of its own and then adds it to the suite, which it shares
with the other workers of a **crew**.  A schedule says whose turn it is, action by action, and what
the clock reads.  Two facts carry the argument: a worker's own actions neither look at the suite nor
change it (`call_of_isLocal`), so that its nodes are at any time those of a run on its own; and a
crew's step touches the suite only by adding a finished test, so that the suite is the list of the
tests added so far (`Crew.Reached`).
-/

namespace RunRecord

/-! ## Local actions

Workers have disjoint nodes by construction, so all they share is the suite.  What a local action
does with the nodes can therefore be said of a worker alone. -/

namespace Recording

/-- **Local actions do not see the suite**, and leave it as it is.  This is what lets a worker be
run alone. -/
theorem call_of_isLocal {c : Call} (hc : c.action.isLocal = true) (r : Recording)
    (suite : Option Suite) :
    ({ r with suite } : Recording).call c = { r.call c with suite } := by
  obtain ⟨now, action⟩ := c
  cases action with
  | beginSuite | addTest | close => cases hc
  | beginTest | beginStep | beginOperation => rfl
  | setResult id value | setMessage id value =>
    have hoperation : ({ r with suite } : Recording).operation? id = r.operation? id := rfl
    rw [call, call, act?, act?, hoperation]
    rcases r.operation? id with - | o <;> rfl
  | attachFailure id failure =>
    have htest : ({ r with suite } : Recording).test? id = r.test? id := rfl
    rw [call, call, act?, act?, htest]
    rcases r.test? id with - | test <;> rfl
  | markEnd id =>
    have hget : ({ r with suite } : Recording).get? id = r.get? id := rfl
    rw [call, call, act?, act?, hget]
    rcases r.get? id with - | ⟨- | - | -⟩ <;> rfl
  | addOperation id parent =>
    have hoperation : ({ r with suite } : Recording).operation? id = r.operation? id := rfl
    have hstep : ({ r with suite } : Recording).step? parent = r.step? parent := rfl
    rw [call, call, act?, act?, hoperation, hstep]
    rcases r.operation? id with - | o <;> rcases r.step? parent with - | step <;> rfl
  | addStep id parent =>
    have hstep : ({ r with suite } : Recording).step? id = r.step? id := rfl
    have htest : ({ r with suite } : Recording).test? parent = r.test? parent := rfl
    rw [call, call, act?, act?, hstep, htest]
    rcases r.step? id with - | step <;> rcases r.test? parent with - | test <;> rfl

end Recording

/-! ## Failures

Whether a worker's test fails can be told from its program, without running it.  The reason is that
only attaching a failure makes a test fail, and that only the last test begun under an identifier is
there in the end. -/

/-- Whether an action attaches a failure to the test under an identifier. -/
def Action.attaches (id : String) : Action → Bool
  | .attachFailure other _ => other == id
  | _ => false

/-- Whether a failure is attached to the test that was last begun under an identifier. -/
def leavesFailed (id : String) (actions : List Action) : Bool :=
  (actions.reverse.takeWhile fun action => !action.begins id).any (Action.attaches id)

theorem leavesFailed_concat (id : String) (actions : List Action) (action : Action) :
    leavesFailed id (actions ++ [action])
      = (!action.begins id && (action.attaches id || leavesFailed id actions)) := by
  cases hbegins : action.begins id <;> simp [leavesFailed, hbegins]

namespace Recording

variable {r : Recording} {id : String}

/-- What became of the test under an identifier: it was begun, or it was there and a failure may
have been attached to it. -/
def FailsAfter (r : Recording) (id : String) (action : Action) (test : Test) : Prop :=
  action.begins id = true ∧ test.isFailed = false ∨
    action.begins id = false ∧ ∃ before, r.get? id = some (.test before) ∧
      test.isFailed = (action.attaches id || before.isFailed)

/-- What is held after a node is put is that node, or was held before. -/
theorem eq_or_get?_of_put {other : String} {node later : Node}
    (h : (r.put other node).get? id = some later) :
    id = other ∧ node = later ∨ other ≠ id ∧ r.get? id = some later := by
  rcases eq_or_ne id other with rfl | hne
  · exact .inl ⟨rfl, Option.some.inj ((get?_put_self r id node).symm.trans h)⟩
  · exact .inr ⟨hne.symm, (get?_put_of_ne hne).symm.trans h⟩

/-- **What an action does to a test that is held behind it**: an action that puts something else has
left the test as it was. -/
theorem Effect.failsAfter {now : Instant} {action : Action} {after : Recording} {test : Test}
    (heffect : r.Effect now action after) (h : after.get? id = some (.test test)) :
    r.FailsAfter id action test := by
  cases heffect with
  | beginSuite | addTest | close => exact .inr ⟨rfl, test, h, rfl⟩
  | beginTest other =>
    rcases eq_or_get?_of_put h with ⟨rfl, heq⟩ | ⟨hne, hbefore⟩
    · cases heq
      exact .inl ⟨beq_self_eq_true id, rfl⟩
    · exact .inr ⟨beq_false_of_ne hne, test, hbefore, rfl⟩
  | beginStep other | beginOperation other =>
    rcases eq_or_get?_of_put h with ⟨-, heq⟩ | ⟨hne, hbefore⟩
    · cases heq
    · exact .inr ⟨beq_false_of_ne hne, test, hbefore, rfl⟩
  | setResult | setMessage | endOperation | addOperation =>
    rcases eq_or_get?_of_put h with ⟨-, heq⟩ | ⟨-, hbefore⟩
    · cases heq
    · exact .inr ⟨rfl, test, hbefore, rfl⟩
  | attachFailure failure hother =>
    rcases eq_or_get?_of_put h with ⟨rfl, heq⟩ | ⟨hne, hbefore⟩
    · cases heq
      exact .inr ⟨rfl, _, hother, by rw [Action.attaches, beq_self_eq_true]; rfl⟩
    · refine .inr ⟨rfl, test, hbefore, ?_⟩
      rw [Action.attaches, beq_false_of_ne hne, Bool.false_or]
  | endTest hother | addStep _ hother =>
    rcases eq_or_get?_of_put h with ⟨rfl, heq⟩ | ⟨-, hbefore⟩
    · cases heq
      exact .inr ⟨rfl, _, hother, rfl⟩
    · exact .inr ⟨rfl, test, hbefore, rfl⟩

/-- An action that is refused begins nothing, and attaches no failure to a test that is held. -/
theorem failsAfter_of_refused {now : Instant} {action : Action} {test : Test}
    (hact : r.act? now action = none) (h : r.get? id = some (.test test)) :
    r.FailsAfter id action test := by
  cases action with
  | beginSuite | beginTest | beginStep | beginOperation => cases hact
  | attachFailure other failure =>
    have hother : other ≠ id := by
      rintro rfl
      rw [act?, test?, h] at hact
      cases hact
    refine .inr ⟨rfl, test, h, ?_⟩
    rw [Action.attaches, beq_false_of_ne hother, Bool.false_or]
  | _ => exact .inr ⟨rfl, test, h, rfl⟩

/-- **Only attaching a failure to a test makes it fail**, and only a new one has none. -/
theorem failsAfter_call {c : Call} {test : Test} (h : (r.call c).get? id = some (.test test)) :
    r.FailsAfter id c.action test := by
  rw [call] at h
  split at h
  · next hact => exact (effect_of_act? hact).failsAfter h
  · next hact => exact failsAfter_of_refused hact h

/-- **A test that a run has built fails if a failure has been attached to it.**  The induction takes
the actions from the back, since what the last of them did comes first.  So the program alone tells
which workers fail. -/
theorem isFailed_after {calls : List Call} {test : Test}
    (h : (empty.after calls).get? id = some (.test test)) :
    test.isFailed = leavesFailed id (calls.map Call.action) := by
  induction calls using List.reverseRecOn generalizing test with
  | nil => cases h
  | append_singleton calls c ih =>
    rw [after_concat] at h
    rw [List.map_append, List.map_singleton, leavesFailed_concat]
    rcases failsAfter_call h with ⟨hbegins, hfailed⟩ | ⟨hbegins, before, hbefore, hfailed⟩
    · rw [hfailed, hbegins]
      rfl
    · rw [hfailed, hbegins, ih hbefore]
      rfl

end Recording

/-! ## Workers

A worker is given by its program and by the identifier under which its test is found.  The program
consists of local actions; the test is added to the suite by one more, at the very end. -/

/-- Actions with the readings of a clock that is read once for each of them. -/
def callsAt (clock : ℕ → Instant) (actions : List Action) : List Call :=
  actions.mapIdx fun k action => ⟨clock k, action⟩

@[simp] theorem map_action_callsAt (clock : ℕ → Instant) (actions : List Action) :
    (callsAt clock actions).map Call.action = actions := by
  apply List.ext_getElem <;> simp [callsAt]

/-- A **worker**: a program on nodes of its own that builds a test. -/
structure Worker where
  program : List Action
  /-- The identifier of the test it builds. -/
  product : String
  isLocal : ∀ action ∈ program, action.isLocal = true
  builds : ((Recording.empty.after (callsAt (fun _ => firstInstant) program)).test? product).isSome
    = true

namespace Worker

variable {worker : Worker}

/-- The test that a worker builds when it runs alone. -/
def alone (worker : Worker) (clock : ℕ → Instant) : Option Test :=
  (Recording.empty.after (callsAt clock worker.program)).test? worker.product

/-- Whether a worker attaches a failure to its test. -/
def attachesFailure (worker : Worker) : Bool := leavesFailed worker.product worker.program

/-- **A worker builds the same test whatever the clock reads**, apart from instants and times.  That
it builds one at all is part of what makes it a worker. -/
theorem exists_test {calls : List Call} (h : calls.map Call.action = worker.program) :
    ∃ test, (Recording.empty.after calls).test? worker.product = some test ∧
      test.isFailed = worker.attachesFailure ∧
      ∀ clock, (worker.alone clock).map Test.untimed = some test.untimed := by
  have hsame (clock : ℕ → Instant) : (worker.alone clock).map Test.untimed
      = ((Recording.empty.after calls).test? worker.product).map Test.untimed := by
    rw [alone, ← Recording.test?_untimed, ← Recording.test?_untimed,
      Recording.untimed_after rfl ((map_action_callsAt clock _).trans h.symm)]
  have hsome := worker.builds
  rw [← Option.isSome_map, ← alone, hsame, Option.isSome_map] at hsome
  obtain ⟨test, htest⟩ := Option.isSome_iff_exists.1 hsome
  refine ⟨test, htest, ?_, fun clock => by rw [hsame, htest, Option.map_some]⟩
  rw [Recording.isFailed_after (Recording.get?_of_test? htest), h, attachesFailure]

/-- **How far a worker has come**: it has made some of its calls, as if it were alone, and then adds
its test.  The clock of the crew has given it its readings. -/
inductive Progress (worker : Worker) (held : List (String × Node)) (todo : List Action) : Prop
  | working (calls : List Call) (rest : List Action) :
    calls.map Call.action ++ rest = worker.program → held = (Recording.empty.after calls).held →
      todo = rest ++ [.addTest worker.product] → Progress worker held todo
  | finished (calls : List Call) :
    calls.map Call.action = worker.program → held = (Recording.empty.after calls).held →
      todo = [] → Progress worker held todo

end Worker

/-! ## Crews

One turn is one action of one worker.  A test is added to the suite by a single action, and all
others are on the worker's own nodes. -/

/-- A suite, and for each worker the nodes it holds and the actions it has still to do. -/
structure Crew (n : ℕ) where
  suite : Option Suite
  held : Fin n → List (String × Node)
  todo : Fin n → List Action

namespace Crew

variable {n : ℕ} {workers : Fin n → Worker} {crew : Crew n} {added : List (Fin n)} {i : Fin n}

/-- The beginning: a new suite, no nodes, and for each worker its program and the adding of its
test. -/
def start (workers : Fin n → Worker) (name : String) (now : Instant) : Crew n where
  suite := some (.begin name now)
  held _ := []
  todo i := (workers i).program ++ [.addTest (workers i).product]

/-- The recording that a worker sees. -/
def view (crew : Crew n) (i : Fin n) : Recording := { suite := crew.suite, held := crew.held i }

/-- A worker's turn: it does its next action, if there is one. -/
def step (crew : Crew n) (i : Fin n) (now : Instant) : Crew n :=
  match crew.todo i with
  | [] => crew
  | action :: rest =>
    let after := (crew.view i).call ⟨now, action⟩
    { suite := after.suite,
      held := Function.update crew.held i after.held,
      todo := Function.update crew.todo i rest }

/-- The turns of a schedule, one after the other. -/
def run (crew : Crew n) (schedule : List (Fin n × Instant)) : Crew n :=
  schedule.foldl (fun crew turn => crew.step turn.1 turn.2) crew

/-- All workers are through. -/
def IsDone (crew : Crew n) : Prop := ∀ i, crew.todo i = []

/-- The worker, if it is to add its test in its next turn. -/
def adds (crew : Crew n) (i : Fin n) : List (Fin n) :=
  match crew.todo i with
  | .addTest _ :: _ => [i]
  | _ => []

/-- The workers in the order in which they add their tests. -/
def order (crew : Crew n) : List (Fin n × Instant) → List (Fin n)
  | [] => []
  | turn :: schedule => crew.adds turn.1 ++ (crew.step turn.1 turn.2).order schedule

/-- **What holds at any time**: the suite is open and its tests are those of the workers that are
through, in the order in which they were added.  All others are somewhere in their programs. -/
structure Reached (workers : Fin n → Worker) (crew : Crew n) (added : List (Fin n)) : Prop where
  suite : ∃ suite, crew.suite = some suite ∧ suite.isClosed = false ∧
    suite.tests.map some = added.map fun i => (crew.view i).test? (workers i).product
  nodup : added.Nodup
  mem_iff : ∀ i, i ∈ added ↔ crew.todo i = []
  progress : ∀ i, (workers i).Progress (crew.held i) (crew.todo i)

theorem reached_start (workers : Fin n → Worker) (name : String) (now : Instant) :
    (start workers name now).Reached workers [] where
  suite := ⟨_, rfl, rfl, rfl⟩
  nodup := List.nodup_nil
  mem_iff i := by simp [start]
  progress i := .working [] _ rfl rfl rfl

theorem step_of_todo_nil (h : crew.todo i = []) (now : Instant) : crew.step i now = crew := by
  rw [step, h]

theorem step_of_todo_cons {action : Action} {rest : List Action}
    (h : crew.todo i = action :: rest) (now : Instant) :
    crew.step i now =
      { suite := ((crew.view i).call ⟨now, action⟩).suite,
        held := Function.update crew.held i ((crew.view i).call ⟨now, action⟩).held,
        todo := Function.update crew.todo i rest } := by
  rw [step, h]

theorem adds_of_isLocal {action : Action} {rest : List Action}
    (h : crew.todo i = action :: rest) (hlocal : action.isLocal = true) : crew.adds i = [] := by
  rw [adds, h]
  split
  · next heq =>
    cases heq
    cases hlocal
  · rfl

/-- What a worker sees of its own nodes are those of its calls so far, made alone. -/
theorem view_eq {calls : List Call} (h : crew.held i = (Recording.empty.after calls).held) :
    crew.view i = { Recording.empty.after calls with suite := crew.suite } := by
  rw [view, h]

theorem Reached.not_mem_of_todo_cons (h : crew.Reached workers added) {action : Action}
    {rest : List Action} (htodo : crew.todo i = action :: rest) : i ∉ added := by
  rw [h.mem_iff, htodo]
  exact List.cons_ne_nil action rest

/-- **A worker's own action** leaves the suite and the other workers as they are.  The tests that
have been added are those of other workers, whose nodes it does not touch. -/
theorem Reached.ofLocal {calls : List Call} {action : Action} {rest : List Action}
    (h : crew.Reached workers added)
    (hprogram : calls.map Call.action ++ action :: rest = (workers i).program)
    (hheld : crew.held i = (Recording.empty.after calls).held)
    (htodo : crew.todo i = action :: (rest ++ [.addTest (workers i).product])) (now : Instant) :
    (crew.step i now).Reached workers (added ++ crew.adds i) := by
  have hlocal : action.isLocal = true :=
    (workers i).isLocal action (hprogram ▸ List.mem_append_right _ List.mem_cons_self)
  have hcall : (crew.view i).call ⟨now, action⟩
      = { Recording.empty.after (calls ++ [⟨now, action⟩]) with suite := crew.suite } := by
    rw [view_eq hheld, Recording.call_of_isLocal hlocal, Recording.after_concat]
  rw [step_of_todo_cons htodo, adds_of_isLocal htodo hlocal, List.append_nil, hcall]
  have hnot : i ∉ added := h.not_mem_of_todo_cons htodo
  obtain ⟨suite, hsuite, hopen, htests⟩ := h.suite
  constructor
  case suite =>
    refine ⟨suite, hsuite, hopen, htests.trans (List.map_congr_left fun j hj => ?_)⟩
    have hne : j ≠ i := fun heq => hnot (heq ▸ hj)
    simp only [view, Function.update_of_ne hne]
  case nodup => exact h.nodup
  case mem_iff =>
    intro j
    rcases eq_or_ne j i with rfl | hne
    · simp [hnot]
    · simp only [Function.update_of_ne hne, h.mem_iff j]
  case progress =>
    intro j
    rcases eq_or_ne j i with rfl | hne
    · refine .working (calls ++ [⟨now, action⟩]) rest ?_ ?_ ?_
      · simpa using hprogram
      · simp
      · simp
    · simpa only [Function.update_of_ne hne] using h.progress j

/-- **Adding a test** makes it the last one of the suite, and changes nothing else. -/
theorem Reached.ofAddTest {calls : List Call} (h : crew.Reached workers added)
    (hprogram : calls.map Call.action = (workers i).program)
    (hheld : crew.held i = (Recording.empty.after calls).held)
    (htodo : crew.todo i = [.addTest (workers i).product]) (now : Instant) :
    (crew.step i now).Reached workers (added ++ crew.adds i) := by
  obtain ⟨suite, hsuite, hopen, htests⟩ := h.suite
  obtain ⟨test, htest, -⟩ := Worker.exists_test hprogram
  have hview : (crew.view i).test? (workers i).product = some test := by
    rw [view_eq hheld]
    exact htest
  have hcall : (crew.view i).call ⟨now, .addTest (workers i).product⟩
      = { crew.view i with suite := some (suite.addTest test) } := by
    rw [Recording.call, Recording.act?, hview, view, hsuite]
  have hstep : crew.step i now
      = { crew with suite := some (suite.addTest test),
                    todo := Function.update crew.todo i [] } := by
    rw [step_of_todo_cons htodo, hcall]
    simp [view]
  have hadds : crew.adds i = [i] := by rw [adds, htodo]
  have hnot : i ∉ added := h.not_mem_of_todo_cons htodo
  rw [hstep, hadds]
  constructor
  case suite =>
    refine ⟨suite.addTest test, rfl, hopen, ?_⟩
    rw [Suite.addTest, List.map_append, List.map_append, htests, List.map_singleton,
      List.map_singleton, ← hview]
    rfl
  case nodup => exact List.concat_eq_append ▸ h.nodup.concat hnot
  case mem_iff =>
    intro j
    rcases eq_or_ne j i with rfl | hne
    · simp
    · simp [hne, h.mem_iff j]
  case progress =>
    intro j
    rcases eq_or_ne j i with rfl | hne
    · exact .finished calls hprogram hheld (Function.update_self ..)
    · simpa only [Function.update_of_ne hne] using h.progress j

/-- **Every turn keeps it**, whoever's turn it is and whatever is to be done in it. -/
theorem Reached.step (h : crew.Reached workers added) (i : Fin n) (now : Instant) :
    (crew.step i now).Reached workers (added ++ crew.adds i) := by
  rcases h.progress i with ⟨calls, - | ⟨action, rest⟩, hprogram, hheld, htodo⟩ |
    ⟨calls, hprogram, hheld, htodo⟩
  · exact h.ofAddTest (by simpa using hprogram) hheld htodo now
  · exact h.ofLocal hprogram hheld htodo now
  · rw [step_of_todo_nil htodo, adds, htodo, List.append_nil]
    exact h

/-- **So does every schedule**, finished or not. -/
theorem Reached.run (h : crew.Reached workers added) (schedule : List (Fin n × Instant)) :
    (crew.run schedule).Reached workers (added ++ crew.order schedule) := by
  induction schedule generalizing crew added with
  | nil => rwa [order, List.append_nil]
  | cons turn schedule ih =>
    rw [order, ← List.append_assoc]
    exact ih (h.step turn.1 turn.2)

/-- Of a crew that is through, each worker has the test that it builds when it runs alone. -/
theorem Reached.exists_test (h : crew.Reached workers added) (hdone : crew.IsDone) (i : Fin n) :
    ∃ test, (crew.view i).test? (workers i).product = some test ∧
      test.isFailed = (workers i).attachesFailure ∧
      ∀ clock, ((workers i).alone clock).map Test.untimed = some test.untimed := by
  rcases h.progress i with ⟨calls, rest, -, -, htodo⟩ | ⟨calls, hprogram, hheld, -⟩
  · rw [hdone i] at htodo
    exact absurd htodo.symm (List.concat_ne_nil _ _)
  · rw [view_eq hheld]
    exact Worker.exists_test hprogram

/-- One worker can be brought to its end while the others wait. -/
theorem exists_run_todo_nil (crew : Crew n) (i : Fin n) (now : Instant) :
    ∃ schedule, (crew.run schedule).todo = Function.update crew.todo i [] := by
  generalize htodo : crew.todo i = actions
  induction actions generalizing crew with
  | nil => exact ⟨[], by rw [← htodo, Function.update_eq_self]; rfl⟩
  | cons action rest ih =>
    have hstep : (crew.step i now).todo = Function.update crew.todo i rest := by
      rw [step_of_todo_cons htodo]
    obtain ⟨schedule, hschedule⟩ := ih (crew.step i now) (by rw [hstep, Function.update_self])
    refine ⟨(i, now) :: schedule, hschedule.trans ?_⟩
    rw [hstep, Function.update_idem]

/-- **A crew can always be brought to its end.**  One worker after another may do what is left to
it. -/
theorem exists_run_isDone (crew : Crew n) (now : Instant) :
    ∃ schedule, (crew.run schedule).IsDone := by
  suffices h : ∀ (late : List (Fin n)) (crew : Crew n), (∀ i ∉ late, crew.todo i = []) →
      ∃ schedule, (crew.run schedule).IsDone from
    h (List.finRange n) crew fun i hi => absurd (List.mem_finRange i) hi
  intro late
  induction late with
  | nil => exact fun crew h => ⟨[], fun i => h i List.not_mem_nil⟩
  | cons i late ih =>
    intro crew h
    obtain ⟨schedule, htodo⟩ := crew.exists_run_todo_nil i now
    obtain ⟨more, hmore⟩ := ih (crew.run schedule) fun j hj => by
      rw [htodo]
      rcases eq_or_ne j i with rfl | hne
      · exact Function.update_self ..
      · rw [Function.update_of_ne hne]
        exact h j fun hmem => (List.mem_cons.1 hmem).elim hne hj
    exact ⟨schedule ++ more, by rwa [run, List.foldl_append]⟩

end Crew

/-! ## Interleavings

A schedule counts as an interleaving if it brings all workers to their end, so that there is a
report to speak of.  Every crew has one. -/

/-- An **interleaving** of workers: they take turns on a new suite until all of them are through,
and then the suite is closed. -/
structure Interleaving {n : ℕ} (workers : Fin n → Worker) where
  name : String
  began : Instant
  schedule : List (Fin n × Instant)
  isDone : ((Crew.start workers name began).run schedule).IsDone
  closed : Instant

namespace Interleaving

variable {n : ℕ} {workers : Fin n → Worker}

/-- The crew when all of its workers are through. -/
def crew (run : Interleaving workers) : Crew n :=
  (Crew.start workers run.name run.began).run run.schedule

/-- The workers in the order in which they added their tests. -/
def order (run : Interleaving workers) : List (Fin n) :=
  (Crew.start workers run.name run.began).order run.schedule

/-- The suite when it has been closed. -/
def report (run : Interleaving workers) : Option Suite := run.crew.suite.map (·.close run.closed)

/-- There is one for all workers, whatever their programs. -/
instance : Nonempty (Interleaving workers) :=
  have ⟨schedule, isDone⟩ := (Crew.start workers "" firstInstant).exists_run_isDone firstInstant
  ⟨{ name := "", began := firstInstant, schedule, isDone, closed := firstInstant }⟩

theorem reached (run : Interleaving workers) : run.crew.Reached workers run.order :=
  (Crew.reached_start workers run.name run.began).run run.schedule

/-- Each worker adds its test once.  So the order in which they do is an order of all workers. -/
theorem perm_order (run : Interleaving workers) : run.order.Perm (List.finRange n) :=
  (List.perm_ext_iff_of_nodup run.reached.nodup (List.nodup_finRange n)).2 fun i =>
    iff_of_true ((run.reached.mem_iff i).2 (run.isDone i)) (List.mem_finRange i)

/-- **What is reported**: the tests of the workers in the order in which they were added. -/
theorem exists_report (run : Interleaving workers) :
    ∃ suite, run.report = some suite ∧ suite.isClosed = true ∧
      suite.tests.map some
        = run.order.map (fun i => (run.crew.view i).test? (workers i).product) ∧
      suite.failures = suite.failedCount := by
  obtain ⟨suite, hsuite, hopen, htests⟩ := run.reached.suite
  have hclose : suite.close run.closed
      = { suite with timing := suite.timing.finish run.closed, failures := suite.failedCount } := by
    rw [Suite.close, hopen]
    rfl
  refine ⟨suite.close run.closed, by rw [report, hsuite, Option.map_some],
    suite.isClosed_close run.closed, ?_, ?_⟩
  · rw [Suite.tests_close]
    exact htests
  · rw [hclose]
    rfl

/-- What a worker has at the end is, apart from instants and times, what it builds alone. -/
theorem map_untimed_test? (run : Interleaving workers) (i : Fin n) (clock : ℕ → Instant) :
    ((run.crew.view i).test? (workers i).product).map Test.untimed
      = ((workers i).alone clock).map Test.untimed := by
  obtain ⟨test, htest, -, halone⟩ := run.reached.exists_test run.isDone i
  rw [htest, halone clock, Option.map_some]

/-- The tests reported are, apart from instants and times, those that the workers build alone. -/
theorem map_untimed_tests {run : Interleaving workers} {suite : Suite}
    (h : suite.tests.map some
      = run.order.map fun i => (run.crew.view i).test? (workers i).product)
    (clock : Fin n → ℕ → Instant) :
    suite.tests.map (fun test => some test.untimed)
      = run.order.map fun i => ((workers i).alone (clock i)).map Test.untimed :=
  calc suite.tests.map (fun test => some test.untimed)
      = (suite.tests.map some).map (Option.map Test.untimed) := by
        rw [List.map_map]
        rfl
    _ = run.order.map fun i => ((run.crew.view i).test? (workers i).product).map Test.untimed := by
        rw [h, List.map_map]
        rfl
    _ = _ := List.map_congr_left fun i _ => run.map_untimed_test? i (clock i)

/-- As many tests fail as workers have attached a failure.  Closing counts these, since the suite
was open until then. -/
theorem failedCount_eq {run : Interleaving workers} {suite : Suite}
    (h : suite.tests.map some
      = run.order.map fun i => (run.crew.view i).test? (workers i).product) :
    suite.failedCount = (List.finRange n).countP fun i => (workers i).attachesFailure :=
  calc suite.failedCount
      = (suite.tests.map some).countP (Option.any Test.isFailed) := by
        rw [List.countP_map]
        rfl
    _ = run.order.countP
          fun i => ((run.crew.view i).test? (workers i).product).any Test.isFailed := by
        rw [h, List.countP_map]
        rfl
    _ = run.order.countP fun i => (workers i).attachesFailure :=
        List.countP_congr fun i _ => by
          obtain ⟨test, htest, hfailed, -⟩ := run.reached.exists_test run.isDone i
          rw [htest, Option.any_some, hfailed]
    _ = _ := run.perm_order.countP_eq _

end Interleaving

/-- **No update is lost when workers share a suite.**  However they are interleaved and whatever
their clocks read, the suite reports the final test of each worker once and nothing else, in the
order in which they were added; apart from instants and times each is what its worker builds alone;
and the failures are the workers that have attached one.  So any two interleavings report, in some
order, the same tests apart from instants and times, and as many failures. -/
theorem no_update_lost {n : ℕ} {workers : Fin n → Worker} (run other : Interleaving workers) :
    ∃ suite suite', run.report = some suite ∧ other.report = some suite' ∧
      suite.isClosed = true ∧ run.order.Perm (List.finRange n) ∧
      suite.tests.map some
        = run.order.map (fun i => (run.crew.view i).test? (workers i).product) ∧
      (∀ clock : Fin n → ℕ → Instant, suite.tests.map (fun test => some test.untimed)
        = run.order.map fun i => ((workers i).alone (clock i)).map Test.untimed) ∧
      suite.failures = (List.finRange n).countP (fun i => (workers i).attachesFailure) ∧
      (suite.tests.map Test.untimed).Perm (suite'.tests.map Test.untimed) ∧
      suite.failures = suite'.failures := by
  obtain ⟨suite, hreport, hclosed, htests, hfailures⟩ := run.exists_report
  obtain ⟨suite', hreport', -, htests', hfailures'⟩ := other.exists_report
  have hcount := hfailures.trans (Interleaving.failedCount_eq htests)
  have hcount' := hfailures'.trans (Interleaving.failedCount_eq htests')
  refine ⟨suite, suite', hreport, hreport', hclosed, run.perm_order, htests,
    Interleaving.map_untimed_tests htests, hcount, ?_, hcount.trans hcount'.symm⟩
  have hperm : (suite.tests.map fun test => some test.untimed).Perm
      (suite'.tests.map fun test => some test.untimed) := by
    rw [Interleaving.map_untimed_tests htests fun _ _ => firstInstant,
      Interleaving.map_untimed_tests htests' fun _ _ => firstInstant]
    exact (run.perm_order.trans other.perm_order.symm).map _
  refine (List.map_perm_map_iff (Option.some_injective Test)).1 ?_
  rwa [List.map_map, List.map_map]

/-- A worker whose test passes, with a step and an operation in it. -/
def passingWorker : Worker where
  program := [.beginTest "t" "passes" true "" false false, .beginStep "s" "s",
    .beginOperation "o" "o" .apply, .setResult "o" "done", .markEnd "o", .addOperation "o" "s",
    .addStep "s" "t", .markEnd "t"]
  product := "t"
  isLocal := by decide
  builds := by rfl

/-- A worker whose test fails; it holds it under the same identifier. -/
def failingWorker : Worker where
  program := [.beginTest "t" "fails" true "" false false,
    .attachFailure "t" { message := "boom", kind := "Error" }, .markEnd "t"]
  product := "t"
  isLocal := by decide
  builds := by rfl

/-- Turns by which the second of the two is through while the first is at work. -/
def overtaking : Interleaving ![passingWorker, failingWorker] where
  name := "s"
  began := firstInstant
  schedule := [0, 1, 0, 0, 1, 0, 1, 0, 1, 0, 0, 0, 0].map fun i => (i, lastInstant)
  isDone := Fin.forall_fin_two.2 ⟨rfl, rfl⟩
  closed := lastInstant

/-- Turns by which the first of the two is through before the second begins. -/
def inTurn : Interleaving ![passingWorker, failingWorker] where
  name := "s"
  began := lastInstant
  schedule := List.replicate 9 (0, firstInstant) ++ List.replicate 4 (1, firstInstant)
  isDone := Fin.forall_fin_two.2 ⟨rfl, rfl⟩
  closed := firstInstant

/-- The same tests are reported either way, in the order in which they were added. -/
theorem overtaking_inTurn_report :
    ∃ suite suite', overtaking.report = some suite ∧ inTurn.report = some suite' ∧
      overtaking.order = [1, 0] ∧ suite.tests.map (·.name) = ["fails", "passes"] ∧
      inTurn.order = [0, 1] ∧ suite'.tests.map (·.name) = ["passes", "fails"] ∧
      suite.failures = 1 ∧ (suite.tests.map Test.untimed).Perm (suite'.tests.map Test.untimed) := by
  obtain ⟨suite, suite', hreport, hreport', -, -, -, -, -, hperm, -⟩ :=
    no_update_lost overtaking inTurn
  refine ⟨suite, suite', hreport, hreport', rfl, ?_, rfl, ?_, ?_, hperm⟩ <;>
    cases hreport <;> cases hreport' <;> rfl

end RunRecord
