import RunRecord.Proofs.Report.RoundTrip
import RunRecord.Proofs.Recording.Run

/-!
# Proofs/Recording/Untimed — a run without its clock

A node is **untimed** by putting one and the same instant for all of its instants and leaving its
times empty; whether it has an end stays.  What a run makes of the held nodes is, untimed, a matter
of its actions alone: neither the clock nor the suite has a say in it (`untimed_after`).

So what two runs of one program have in common is what is left of their nodes untimed, and a theorem
on what a program records may be stated without a clock.  That an end is there is kept, as the
recorder looks at it; which instant it is, is not, as the recorder never compares two of them.
-/

namespace RunRecord

/-! ## Untimed nodes

Each way to change a node gives the same untimed node whatever instant it is given.  To untime a
node twice is to untime it once. -/

/-- A timing of which only whether it has an end is left. -/
def Timing.untimed (t : Timing) : Timing :=
  { start := firstInstant, stop := t.stop.map fun _ => firstInstant, time := "" }

/-- An operation apart from instants and times. -/
def Operation.untimed (operation : Operation) : Operation :=
  { operation with timing := operation.timing.untimed }

/-- A step apart from instants and times. -/
def Step.untimed (step : Step) : Step :=
  { step with operations := step.operations.map Operation.untimed }

/-- A test apart from instants and times. -/
def Test.untimed (test : Test) : Test :=
  { test with timing := test.timing.untimed, steps := test.steps.map Step.untimed }

/-- A held node apart from instants and times. -/
def Node.untimed : Node → Node
  | .test t => .test t.untimed
  | .step s => .step s.untimed
  | .operation o => .operation o.untimed

namespace Timing

@[simp] theorem untimed_untimed (t : Timing) : t.untimed.untimed = t.untimed := by
  simp [untimed, Option.map_map, Function.comp_def]

theorem untimed_finish (t : Timing) (now later : Instant) :
    (t.finish now).untimed = (t.untimed.finish later).untimed := by
  cases hstop : t.stop <;> simp [finish, untimed, hstop]

end Timing

@[simp] theorem Operation.untimed_untimed (operation : Operation) :
    operation.untimed.untimed = operation.untimed := by
  simp [untimed]

theorem Operation.untimed_setResult (operation : Operation) (result : String) :
    (operation.setResult result).untimed = (operation.untimed.setResult result).untimed := by
  simp [setResult, untimed]

theorem Operation.untimed_setMessage (operation : Operation) (message : String) :
    (operation.setMessage message).untimed = (operation.untimed.setMessage message).untimed := by
  simp [setMessage, untimed]

theorem Operation.untimed_markEnd (operation : Operation) (now later : Instant) :
    (operation.markEnd now).untimed = (operation.untimed.markEnd later).untimed := by
  simp [markEnd, untimed, operation.timing.untimed_finish now later]

@[simp] theorem Step.untimed_untimed (step : Step) : step.untimed.untimed = step.untimed := by
  simp [untimed, Function.comp_def]

theorem Step.untimed_addOperation (step : Step) (operation : Operation) :
    (step.addOperation operation).untimed
      = (step.untimed.addOperation operation.untimed).untimed := by
  simp [addOperation, untimed, Function.comp_def]

@[simp] theorem Test.untimed_untimed (test : Test) : test.untimed.untimed = test.untimed := by
  simp [untimed, Function.comp_def]

theorem Test.untimed_markEnd (test : Test) (now later : Instant) :
    (test.markEnd now).untimed = (test.untimed.markEnd later).untimed := by
  simp [markEnd, untimed, test.timing.untimed_finish now later, Function.comp_def]

theorem Test.untimed_addStep (test : Test) (step : Step) :
    (test.addStep step).untimed = (test.untimed.addStep step.untimed).untimed := by
  simp [addStep, untimed, Function.comp_def]

theorem Test.untimed_attachFailure (test : Test) (failure : Failure) :
    (test.attachFailure failure).untimed = (test.untimed.attachFailure failure).untimed := by
  simp [attachFailure, untimed, Function.comp_def]

@[simp] theorem Node.untimed_untimed : (node : Node) → node.untimed.untimed = node.untimed
  | .test t => congrArg Node.test t.untimed_untimed
  | .step s => congrArg Node.step s.untimed_untimed
  | .operation o => congrArg Node.operation o.untimed_untimed

/-! ## Untimed recordings

The suite is left out because it is what workers share.  Whether an action is refused can still be
told, as the local ones never look at it. -/

/-- Whether an action is on the held nodes alone, and not on the suite. -/
def Action.isLocal : Action → Bool
  | .beginSuite _ | .addTest _ | .close => false
  | _ => true

namespace Recording

/-- The held nodes of a recording apart from instants and times; the suite is left out. -/
def untimed (r : Recording) : Recording :=
  { suite := none, held := r.held.map fun entry => (entry.1, entry.2.untimed) }

variable {r : Recording} {id : String}

@[simp] theorem untimed_untimed (r : Recording) : r.untimed.untimed = r.untimed := by
  simp [untimed, Function.comp_def]

@[simp] theorem untimed_put (r : Recording) (id : String) (node : Node) :
    (r.put id node).untimed = r.untimed.put id node.untimed := by
  simp [untimed, put, Keyed.put, List.filter_map, Function.comp_def]

@[simp] theorem get?_untimed (r : Recording) (id : String) :
    r.untimed.get? id = (r.get? id).map Node.untimed := by
  simp only [get?, untimed]
  induction r.held with
  | nil => rfl
  | cons entry held ih =>
    rw [List.map_cons, List.lookup_cons, List.lookup_cons, ih]
    split <;> rfl

@[simp] theorem test?_untimed (r : Recording) (id : String) :
    r.untimed.test? id = (r.test? id).map Test.untimed := by
  rw [test?, test?, get?_untimed]
  rcases r.get? id with - | ⟨- | - | -⟩ <;> rfl

@[simp] theorem step?_untimed (r : Recording) (id : String) :
    r.untimed.step? id = (r.step? id).map Step.untimed := by
  rw [step?, step?, get?_untimed]
  rcases r.get? id with - | ⟨- | - | -⟩ <;> rfl

@[simp] theorem operation?_untimed (r : Recording) (id : String) :
    r.untimed.operation? id = (r.operation? id).map Operation.untimed := by
  rw [operation?, operation?, get?_untimed]
  rcases r.get? id with - | ⟨- | - | -⟩ <;> rfl

/-- Recordings that hold the same nodes are the same untimed, whatever their suites. -/
theorem untimed_of_held {other : Recording} (h : r.held = other.held) :
    r.untimed = other.untimed := by
  rw [untimed, untimed, h]

/-! ## Untimed runs -/

theorem held_call_of_not_isLocal {c : Call} (h : c.action.isLocal = false) :
    (r.call c).held = r.held := by
  obtain ⟨now, action⟩ := c
  cases action with
  | beginSuite name => rfl
  | addTest id =>
    rw [call, act?]
    rcases r.test? id with - | test <;> rcases r.suite with - | suite <;> rfl
  | close =>
    rw [call, act?]
    rcases r.suite with - | suite <;> rfl
  | _ => cases h

/-- **Untimed, what a call makes of the held nodes depends on them and on its action alone**, and so
does whether it is refused. -/
theorem untimed_call (r : Recording) (now later : Instant) (action : Action) :
    (r.call ⟨now, action⟩).untimed = (r.untimed.call ⟨later, action⟩).untimed := by
  cases action with
  | beginSuite | addTest | close =>
    rw [untimed_of_held (held_call_of_not_isLocal rfl),
      untimed_of_held (held_call_of_not_isLocal rfl), untimed_untimed]
  | beginStep id name => simp [call, act?]
  | beginTest | beginOperation =>
    simp only [call, act?, untimed_put, untimed_untimed]
    rfl
  | setResult id value =>
    rw [call, call, act?, act?, operation?_untimed]
    cases r.operation? id with
    | none => simp
    | some o => simp [Node.untimed, ← o.untimed_setResult value]
  | setMessage id value =>
    rw [call, call, act?, act?, operation?_untimed]
    cases r.operation? id with
    | none => simp
    | some o => simp [Node.untimed, ← o.untimed_setMessage value]
  | attachFailure id failure =>
    rw [call, call, act?, act?, test?_untimed]
    cases r.test? id with
    | none => simp
    | some test => simp [Node.untimed, ← test.untimed_attachFailure failure]
  | markEnd id =>
    rw [call, call, act?, act?, get?_untimed]
    rcases r.get? id with - | ⟨test | step | o⟩
    · simp
    · simp [Node.untimed, ← test.untimed_markEnd now later]
    · simp [Node.untimed]
    · simp [Node.untimed, ← o.untimed_markEnd now later]
  | addOperation id parent =>
    rw [call, call, act?, act?, operation?_untimed, step?_untimed]
    rcases r.operation? id with - | o <;> rcases r.step? parent with - | step
    · simp
    · simp
    · simp
    · simp [Node.untimed, ← step.untimed_addOperation o]
  | addStep id parent =>
    rw [call, call, act?, act?, step?_untimed, test?_untimed]
    rcases r.step? id with - | step <;> rcases r.test? parent with - | test
    · simp
    · simp
    · simp
    · simp [Node.untimed, ← test.untimed_addStep step]

theorem untimed_call_congr {other : Recording} (h : r.untimed = other.untimed) (now later : Instant)
    (action : Action) : (r.call ⟨now, action⟩).untimed = (other.call ⟨later, action⟩).untimed := by
  rw [untimed_call r now later, h, ← untimed_call other later later]

/-- **Untimed, what a run makes of the held nodes depends on them and on its actions alone.** -/
theorem untimed_after {other : Recording} (h : r.untimed = other.untimed) {calls others : List Call}
    (hactions : calls.map Call.action = others.map Call.action) :
    (r.after calls).untimed = (other.after others).untimed := by
  induction calls generalizing r other others with
  | nil =>
    obtain rfl := List.map_eq_nil_iff.1 hactions.symm
    exact h
  | cons c calls ih =>
    obtain ⟨c', others, rfl, haction, htail⟩ := List.map_eq_cons_iff.1 hactions.symm
    obtain ⟨now, action⟩ := c
    obtain ⟨later, _⟩ := c'
    cases haction
    exact ih (untimed_call_congr h now later action) htail.symm

end Recording

end RunRecord
