import TestRun.Surroundings
import TestRun.Tree.Basic
set_option autoImplicit false

namespace TestRun

inductive Event
  | planStarted (plan : Plan)
  /-- A body that announces the end of a plan has no plan at hand. -/
  | planFinished (plan? : Option Plan)
  | registered (i : Identifier)
  | started (i : Identifier)
  | skipped (i : Identifier) (reason? : Option String)
  | finished (i : Identifier) (result : ExecutionResult)

abbrev Hearing (σ α : Type) : Type := Act (σ × Surroundings) α

namespace Hearing

variable {σ τ α : Type}

def outside (act : Act Surroundings α) : Hearing σ α :=
  act.within (fun p => p.2) (fun s p => (p.1, s))

def part (get : σ → τ) (set : τ → σ → σ) (act : Hearing τ α) : Hearing σ α :=
  act.within (fun p => (get p.1, p.2)) (fun q p => (set q.1 p.1, q.2))

/-- An act that reads the clock of the machine. -/
def onWall (act : Hearing σ α) : Hearing σ α :=
  act.within (fun p => (p.1, p.2.onWall)) (fun q p => (q.1, p.2.offWall q.2))

def state : Hearing σ σ := do pure (← get).1

def setState (x : σ) : Hearing σ Unit := modify fun p => (x, p.2)

end Hearing

namespace Tree

def hear (op : Tree → Time.Clock → Reply) : Hearing Tree Node := do
  let (tree, s) ← get
  let reply := op tree s.clock
  set (reply.tree, { s with clock := reply.clock })
  match reply.answer with
  | .ok node => pure node
  | .error e => throw (.time e)

def hearStarted (i : Identifier) : Hearing Tree Node := hear fun t clock => t.started i clock

/-- The end of a node; a repeated one is noted in the log. -/
def hearEnded (i : Identifier) (ending : Ending) : Hearing Tree Node := do
  if (← Hearing.state).isEnded i.id then
    Hearing.outside (Surroundings.debug ("Ignoring repeated terminal event for " ++ i.id))
  hear fun t clock => t.ended i ending clock

def hearSkipped (i : Identifier) (reason? : Option String) : Hearing Tree Node :=
  hearEnded i (.skipped (reason?.getD ""))

def hearFinished (i : Identifier) (result : ExecutionResult) : Hearing Tree Node :=
  hearEnded i (.finished result)

def hearRegistered (i : Identifier) : Hearing Tree Unit := modify fun p => (p.1.register i, p.2)

end Tree

end TestRun
