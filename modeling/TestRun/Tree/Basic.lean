import TestRun.Cause
import TestRun.Plan.Traversal
import TestRun.Table
import TestRun.Time.Clock
set_option autoImplicit false

/-!
# The record of a run

A tree keeps one node for each identifier that has had an event, beside the plan of the run. A
root starts with the run; any other node reads the clock when it first starts and when it ends.
Only the first end of a node counts.
-/

namespace TestRun

open Time

inductive Ending
  | skipped (reason : String)
  | finished (result : ExecutionResult)
  deriving DecidableEq, Repr

structure Node where
  identifier : Identifier
  start : Option Instant
  ending : Option Ending
  finish : Option Instant
  deriving DecidableEq

namespace Node

def fresh (i : Identifier) (start : Option Instant) : Node := ⟨i, start, none, none⟩

def skipReason? (n : Node) : Option String :=
  match n.ending with
  | some (.skipped reason) => some reason
  | _ => none

def result? (n : Node) : Option ExecutionResult :=
  match n.ending with
  | some (.finished result) => some result
  | _ => none

/-- The reason that descendants inherit from a skipped or aborted node. -/
def skipSignal? (n : Node) : Option String :=
  match n.ending with
  | some (.skipped reason) => some reason
  | some (.finished ⟨.aborted, cause⟩) => some ((cause.map Cause.headline).getD "")
  | _ => none

/-- The cause that descendants inherit from a failed node. -/
def failureSignal? (n : Node) : Option Cause :=
  match n.ending with
  | some (.finished ⟨.failed, cause⟩) => some (cause.getD .unknownFailure)
  | _ => none

end Node

structure Tree where
  plan : Plan
  nodes : Table String Node

namespace Tree

def begin (plan : Plan) (startedAt : Option Instant) : Tree :=
  ⟨plan, plan.roots.foldl (fun t i => t.set i.id (.fresh i startedAt)) .empty⟩

def node? (t : Tree) (id : String) : Option Node := t.nodes.get? id

def setNode (t : Tree) (n : Node) : Tree := ⟨t.plan, t.nodes.set n.identifier.id n⟩

def isEnded (t : Tree) (id : String) : Bool := ((t.node? id).bind (·.ending)).isSome

def register (t : Tree) (i : Identifier) : Tree := ⟨t.plan.add i, t.nodes⟩

/-- The node of an identifier, a fresh one at its first event. -/
def nodeOf (t : Tree) (i : Identifier) : Node := (t.node? i.id).getD (.fresh i none)

/-- Makes a node for an identifier at its first event, and adds it to the plan. -/
def touch (t : Tree) (i : Identifier) : Tree :=
  if (t.node? i.id).isSome then t else (t.register i).setNode (.fresh i none)

structure Reply where
  tree : Tree
  clock : Clock
  answer : Except TimeError Node

def started (t : Tree) (i : Identifier) (clock : Clock) : Reply :=
  let node := t.nodeOf i
  let t := t.touch i
  match node.start with
  | some _ => ⟨t, clock, .ok node⟩
  | none =>
    match clock.read with
    | (.ok now, clock) =>
      let node := { node with start := some now }
      ⟨t.setNode node, clock, .ok node⟩
    | (.error e, clock) => ⟨t, clock, .error e⟩

/-- The end is noted before the clock is read. -/
def ended (t : Tree) (i : Identifier) (ending : Ending) (clock : Clock) : Reply :=
  let node := t.nodeOf i
  let t := t.touch i
  match node.ending with
  | some _ => ⟨t, clock, .ok node⟩
  | none =>
    let node := { node with ending := some ending }
    match clock.read with
    | (.ok now, clock) =>
      let node := { node with finish := some now }
      ⟨t.setNode node, clock, .ok node⟩
    | (.error e, clock) => ⟨t.setNode node, clock, .error e⟩

/-- The time a node took; an unfinished one ends at `until?`, and one that never started takes no
time. -/
def duration (t : Tree) (id : String) (until? : Option Instant) : Except TimeError Duration :=
  match t.node? id with
  | none => .ok 0
  | some node =>
    let finish := node.finish.or until?
    elapsed? (node.start.or finish) finish

end Tree

end TestRun
