import TestRun.Listener.Event
import TestRun.Tree.Verdict
set_option autoImplicit false

namespace TestRun

open Surroundings

def Outcome.label : Outcome → String
  | success => "PASS"
  | skipped => "SKIP"
  | failure => "FAIL"
  | error => "ERROR"

structure Totals where
  passed : Nat
  failed : Nat
  errors : Nat
  skipped : Nat
  deriving DecidableEq, Repr

namespace Totals

def zero : Totals := ⟨0, 0, 0, 0⟩

def count (t : Totals) : Outcome → Totals
  | .success => { t with passed := t.passed + 1 }
  | .failure => { t with failed := t.failed + 1 }
  | .error => { t with errors := t.errors + 1 }
  | .skipped => { t with skipped := t.skipped + 1 }

def isClean (t : Totals) : Bool := t.failed == 0 && t.errors == 0

end Totals

structure Console where
  totals : Totals
  tree? : Option Tree

namespace Console

def fresh : Console := ⟨.zero, none⟩

def withTree (part : String) (act : Hearing Tree Unit) : Hearing Console Unit := do
  match (← Hearing.state).tree? with
  | none => throw (.absent part)
  | some tree =>
    act.onWall.within (fun p => (tree, p.2)) (fun q p => ({ p.1 with tree? := some q.1 }, q.2))

def printTest (tree : Tree) (test : Identifier) : Hearing Console Unit := do
  let outcome := (tree.classify test).outcome
  let c ← Hearing.state
  Hearing.setState { c with totals := c.totals.count outcome }
  Hearing.outside (print (" - " ++ test.id ++ ": " ++ outcome.label))

def printEngine (root : Identifier) : Hearing Console Unit := do
  Hearing.outside (print ("Engine: " ++ root.name))
  match (← Hearing.state).tree? with
  | none => throw (.absent "tests_under")
  | some tree => (tree.plan.testsUnder root.id).forM (printTest tree)

def hear : Event → Hearing Console Unit
  | .planStarted plan => Hearing.setState ⟨.zero, some (.begin plan none)⟩
  | .registered i => withTree "register" (Tree.hearRegistered i)
  | .started i => withTree "started" (do let _ ← Tree.hearStarted i)
  | .skipped i reason? => withTree "skipped" (do let _ ← Tree.hearSkipped i reason?)
  | .finished i result => withTree "finished" (do let _ ← Tree.hearFinished i result)
  | .planFinished (some plan) => plan.roots.forM printEngine
  | .planFinished none => throw (.absent "roots")

end Console

end TestRun
