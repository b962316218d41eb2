import TestRun.Listener.Session
set_option autoImplicit false

namespace TestRun

inductive Action
  | tick (times : Nat)
  | raise (t : Thrown)
  | abort (reason? : Option Datum)
  /-- Gives up unless the condition holds. -/
  | assume (condition : Datum) (message? : Option Datum)
  | giveBack (value : Datum)
  | fire (e : Event)

abbrev Body := List Action

structure Label where
  id : String
  name? : Option String
  /-- Why the node is to be skipped, if it is. -/
  skip? : Option String

/-- The name a node is shown by: its id, unless it has a name of its own. -/
def Label.shownName (l : Label) : String :=
  match l.name? with
  | some name => if name.isEmpty then l.id else name
  | none => l.id

structure Hooks where
  before? : Option Body
  after? : Option Body

def Hooks.none : Hooks := ⟨Option.none, Option.none⟩

inductive SuiteNode
  | test (label : Label) (body? : Option Body)
  /-- An engine, or a container within one. -/
  | group (isEngine : Bool) (label : Label) (hooks : Hooks) (children : List SuiteNode)

namespace SuiteNode

def label : SuiteNode → Label
  | test label _ => label
  | group _ label _ _ => label

def kind : SuiteNode → NodeKind
  | test _ _ => .test
  | group true _ _ _ => .engine
  | group false _ _ _ => .container

def children : SuiteNode → List SuiteNode
  | test _ _ => []
  | group _ _ _ children => children

def uniqueId (n : SuiteNode) : Option String → String
  | none => n.label.id
  | some parent => parent ++ ":" ++ n.label.id

def identifier (n : SuiteNode) (parent? : Option String) : Identifier :=
  ⟨n.uniqueId parent?, n.label.shownName, parent?, n.kind⟩

end SuiteNode

namespace Action

def aborted (reason : Datum) : Fault := .thrown (.make .testAborted [reason] true)

def run : Action → Act Session (Option Datum)
  | tick times => do
    Session.around (Surroundings.tick times)
    pure none
  | raise t => throw (.thrown t)
  | abort reason? => throw (aborted (reason?.getD (.text "")))
  | assume condition message? =>
    if condition.isTruthy then pure none
    else throw (aborted (message?.getD (.text "assumption failed")))
  | giveBack value => pure (some value)
  | fire e => do
    Session.deliver e
    pure none

end Action

/-- Runs a body; its value is nothing unless an action gives one back. -/
def Body.run : Body → Act Session Datum
  | [] => pure .null
  | action :: rest => do
    match ← action.run with
    | some value => pure value
    | none => Body.run rest

def Body.runAlone : Option Body → Act Session Datum
  | some body => Body.run body
  | none => throw .noBody

end TestRun
