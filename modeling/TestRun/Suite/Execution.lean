import TestRun.Suite.Discovery
set_option autoImplicit false

/-!
# Execution

A run executes the roots of its plan in order. A container runs its hooks around its children,
which it takes from the plan as it stands after the first hook. With several workers the tests of
a container go to the workers while its containers run at once, and what stopped a test comes to
light after all children.
-/

namespace TestRun

structure Runner where
  workers : Nat
  one_le_workers : 1 ≤ workers
  deriving DecidableEq

namespace Runner

def ofWorkers (n : Int) : Except Fault Runner :=
  if h : 1 ≤ n.toNat then .ok ⟨n.toNat, h⟩ else .error (.tooFewWorkers n)

def isParallel (r : Runner) : Bool := 1 < r.workers

end Runner

end TestRun

namespace TestRun.Session

/-- Runs a hook or a body, and tells how it ended. Only an interrupt passes through. -/
def invoke (body? : Option Body) : Act Session ExecutionResult :=
  match body? with
  | none => pure .successful
  | some body => do
    match ← (Body.run body).attempt with
    | .ok _ => pure .successful
    | .error f =>
      if f.isInterrupt then throw f
      else if f.isAbort then pure (.aborted f.cause)
      else pure (.failed f.cause)

/-- Handles children in order, each by an act of its own. Where there are workers, the fault of a
test is kept until all children have had their turn. -/
def eachChild (workers : Bool) (execute : Identifier → Act Session Unit) :
    List Identifier → Option Fault → Act Session Unit
  | [], none => pure ()
  | [], some f => throw f
  | child :: rest, kept? => do
    if workers && child.isTest then
      match ← (execute child).attempt with
      | .ok _ => eachChild workers execute rest kept?
      | .error f => eachChild workers execute rest (kept?.or (some f))
    else
      execute child
      eachChild workers execute rest kept?

/-- Executes a node and all below it; the number bounds the depth. -/
def execute (nodes : Table String SuiteNode) (workers : Bool) : Nat → Identifier → Act Session Unit
  | 0, i => throw (.unknownNode i.id)
  | depth + 1, i =>
    match nodes.get? i.id with
    | none => throw (.unknownNode i.id)
    | some node =>
      match node.label.skip? with
      | some reason => deliver (.skipped i (some reason))
      | none => do
        deliver (.started i)
        let result ← match node with
          | .test _ body? => invoke body?
          | .group _ _ hooks _ => do
            let before ← invoke hooks.before?
            if before.status = .successful then
              eachChild workers (execute nodes workers depth)
                ((← get).plan.children i.id) none
            let after ← invoke hooks.after?
            pure (if before.status = .successful then after else before)
        deliver (.finished i result)

def runDiscovered (d : Discovery) (workers : Bool) : Act Session Unit := do
  modify fun s => s.newPlan d.identifiers
  let plan := (← get).plan
  around (Surroundings.debug ("Executing " ++ toString plan.roots.length ++ " engines, " ++
    toString plan.size ++ " nodes"))
  deliver (.planStarted plan)
  (← get).plan.roots.forM (execute d.nodes workers (d.identifiers.length + 1))
  deliver (.planFinished (some (← get).plan))

def run (r : Runner) (forest : List SuiteNode) : Act Session Unit := do
  match Discovery.ofForest forest with
  | .error f => throw f
  | .ok d => runDiscovered d r.isParallel

end TestRun.Session
