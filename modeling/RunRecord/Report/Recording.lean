import RunRecord.Keyed
import RunRecord.Report.Recorder

/-!
# Report/Recording — a suite under construction and the nodes beside it

A runner holds nodes of its own, each under an identifier, until it appends copies of them to their
parents.  A **recording** is one suite and those nodes; an **action** is one call of the runner.  An
action on a node that is missing, or is not of the right kind, is refused and changes nothing.

The identifiers are the runner's own names for its nodes and are no part of the report.  That two
runners may call different nodes by the same name is of no consequence, as each has a recording of
its own nodes.
-/

namespace RunRecord

/-- A node that a runner holds. -/
inductive Node where
  | test (test : Test)
  | step (step : Step)
  | operation (operation : Operation)
deriving DecidableEq

/-- A suite and the nodes held beside it.  There is no suite until one is begun, and to begin
another one forgets the first. -/
structure Recording where
  suite : Option Suite
  /-- The held nodes by identifier, each identifier once. -/
  held : List (String × Node)

namespace Recording

/-- No suite and no nodes. -/
def empty : Recording := { suite := none, held := [] }

/-! ## Held nodes -/

/-- The node held under an identifier. -/
def get? (r : Recording) (id : String) : Option Node := r.held.lookup id

/-- Puts a node under an identifier, in place of whatever is there.  A node that is begun under an
identifier in use takes the place of the other. -/
def put (r : Recording) (id : String) (node : Node) : Recording :=
  { r with held := Keyed.put r.held id node }

/-- The test held under an identifier. -/
def test? (r : Recording) (id : String) : Option Test :=
  match r.get? id with
  | some (.test test) => some test
  | _ => none

/-- The step held under an identifier. -/
def step? (r : Recording) (id : String) : Option Step :=
  match r.get? id with
  | some (.step step) => some step
  | _ => none

/-- The operation held under an identifier. -/
def operation? (r : Recording) (id : String) : Option Operation :=
  match r.get? id with
  | some (.operation operation) => some operation
  | _ => none

@[simp] theorem get?_put_self (r : Recording) (id : String) (node : Node) :
    (r.put id node).get? id = some node :=
  Keyed.lookup_put_self _ _ _

theorem get?_put_of_ne {r : Recording} {id other : String} {node : Node} (h : other ≠ id) :
    (r.put id node).get? other = r.get? other :=
  Keyed.lookup_put_of_ne h _ _

@[simp] theorem suite_put (r : Recording) (id : String) (node : Node) :
    (r.put id node).suite = r.suite := rfl

end Recording

/-! ## Actions -/

/-- One call of the runner.  Each names the nodes that it is about by their identifiers. -/
inductive Action where
  | beginSuite (name : String)
  | beginTest (id name : String) (concurrent : Bool) (scope : String) (skip skipDelete : Bool)
  | beginStep (id name : String)
  | beginOperation (id name : String) (kind : OperationKind)
  | setResult (id value : String)
  | setMessage (id value : String)
  | attachFailure (id : String) (failure : Failure)
  | markEnd (id : String)
  | addOperation (id parent : String)
  | addStep (id parent : String)
  | addTest (id : String)
  | close
deriving DecidableEq, Repr

namespace Recording

/-- The recording after an action at a given reading of the clock, and what the action has to say;
`none` if it is refused.  It is refused only if a node or the suite that it is about is not there.
-/
def act? (r : Recording) (now : Instant) : Action → Option (Recording × List Event)
  | .beginSuite name => some ({ r with suite := some (.begin name now) }, [])
  | .beginTest id name concurrent scope skip skipDelete =>
    some (r.put id (.test (.begin name concurrent scope skip skipDelete now)), [])
  | .beginStep id name => some (r.put id (.step (.begin name)), [])
  | .beginOperation id name kind => some (r.put id (.operation (.begin name kind now)), [])
  | .setResult id value =>
    (r.operation? id).map fun o => (r.put id (.operation (o.setResult value)), [])
  | .setMessage id value =>
    (r.operation? id).map fun o => (r.put id (.operation (o.setMessage value)), [])
  | .attachFailure id failure =>
    (r.test? id).map fun t => (r.put id (.test (t.attachFailure failure)), [])
  | .markEnd id =>
    match r.get? id with
    | some (.test t) => some (r.put id (.test (t.markEnd now)), t.markEndEvents)
    | some (.operation o) => some (r.put id (.operation (o.markEnd now)), o.markEndEvents)
    | _ => none
  | .addOperation id parent =>
    match r.operation? id, r.step? parent with
    | some o, some s => some (r.put parent (.step (s.addOperation o)), [])
    | _, _ => none
  | .addStep id parent =>
    match r.step? id, r.test? parent with
    | some s, some t => some (r.put parent (.test (t.addStep s)), [])
    | _, _ => none
  | .addTest id =>
    match r.test? id, r.suite with
    | some t, some suite => some ({ r with suite := some (suite.addTest t) }, [])
    | _, _ => none
  | .close =>
    r.suite.map fun suite => ({ r with suite := some (suite.close now) }, suite.closeEvents now)

end Recording

end RunRecord
