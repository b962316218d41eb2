import TestRun.Listener.Console
import TestRun.Listener.Writer
set_option autoImplicit false

namespace TestRun

/-- The listeners that may be registered, each as often as one likes. -/
inductive Seat
  | writer
  | console
  | recorder
  | silent
  deriving DecidableEq, Repr

structure Session where
  surroundings : Surroundings
  plan : Plan
  plansMade : Nat
  writer : Writer
  console : Console
  heard : Array Event
  audience : List Seat

namespace Session

variable {σ α : Type}

def fresh (surroundings : Surroundings) (settings : Writer.Settings) (audience : List Seat) :
    Session :=
  ⟨surroundings, .empty 0, 0, .fresh settings, .fresh, #[], audience⟩

def newPlan (s : Session) (is : List Identifier) : Session :=
  { s with plan := .ofList (s.plansMade + 1) is, plansMade := s.plansMade + 1 }

def around (act : Act Surroundings α) : Act Session α :=
  act.within (fun s => s.surroundings) (fun x s => { s with surroundings := x })

/-- The tree with a plan that has grown elsewhere, if it is the same plan. -/
def regrow (plan : Plan) (tree : Tree) : Tree :=
  if tree.plan.serial = plan.serial then { tree with plan := plan } else tree

/-- Shows a plan that has grown to all who hold it. -/
def share (plan : Plan) (s : Session) : Session :=
  { s with
    plan := if s.plan.serial = plan.serial then plan else s.plan
    writer := match s.writer.phase with
      | .running run => { s.writer with phase := .running { run with tree := regrow plan run.tree } }
      | _ => s.writer
    console := { s.console with tree? := s.console.tree?.map (regrow plan) } }

def hearWriter (e : Event) : Act Session Unit :=
  (Writer.hear e).within (fun s => (s.writer, s.surroundings)) fun q s =>
    let s := { s with writer := q.1, surroundings := q.2 }
    match q.1.run? with
    | some run => s.share run.tree.plan
    | none => s

def hearConsole (e : Event) : Act Session Unit :=
  (Console.hear e).within (fun s => (s.console, s.surroundings)) fun q s =>
    let s := { s with console := q.1, surroundings := q.2 }
    match q.1.tree? with
    | some tree => s.share tree.plan
    | none => s

def hearRecorder (e : Event) : Act Session Unit :=
  match e with
  | .planFinished none => throw .uncounted
  | e => modify fun s => { s with heard := s.heard.push e }

def hearAt (e : Event) : Seat → Act Session Unit
  | .writer => hearWriter e
  | .console => hearConsole e
  | .recorder => hearRecorder e
  | .silent => pure ()

def deliver (e : Event) : Act Session Unit := do
  (← get).audience.forM (hearAt e)

end Session

end TestRun
