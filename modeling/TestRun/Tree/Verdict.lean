import TestRun.Tree.Basic
set_option autoImplicit false

namespace TestRun

inductive Outcome
  | success
  | skipped
  | failure
  | error
  deriving DecidableEq, Repr

def Outcome.text : Outcome → String
  | success => "success"
  | skipped => "skipped"
  | failure => "failure"
  | error => "error"

inductive Verdict
  | success
  | skipped (reason : String)
  | failure (cause : Option Cause)
  | error (cause : Option Cause)
  deriving DecidableEq, Repr

namespace Verdict

def outcome : Verdict → Outcome
  | success => .success
  | skipped _ => .skipped
  | failure _ => .failure
  | error _ => .error

/-- An intentional check failure, or an error. -/
def ofCause (c : Cause) : Verdict := if c.assertion then failure (some c) else error (some c)

def ofResult (r : ExecutionResult) : Verdict :=
  match r.status with
  | .successful => success
  | .aborted => skipped ((r.cause.map Cause.render).getD "")
  | .failed => ofCause (r.cause.getD .unknownFailure)

def ofEnding : Ending → Verdict
  | .skipped reason => skipped reason
  | .finished result => ofResult result

def underSkipped (reason : String) : Verdict := skipped ("parent was skipped: " ++ reason)

end Verdict

namespace Tree

/-- The nodes of the ancestors that had an event, nearest first. -/
def above (t : Tree) (i : Identifier) : List Node :=
  (t.plan.ancestors i).filterMap fun a => t.node? a.id

def inherited (t : Tree) (i : Identifier) : Verdict :=
  match (t.above i).findSome? Node.skipSignal? with
  | some reason => .underSkipped reason
  | none =>
    match ((t.above i).find? fun n => n.result?.isSome).bind Node.failureSignal? with
    | some cause => .ofCause cause
    | none =>
      if ((t.node? i.id).bind (·.start)).isSome then .error (some .incomplete) else .success

def classify (t : Tree) (i : Identifier) : Verdict :=
  match (t.node? i.id).bind (·.ending) with
  | some ending => .ofEnding ending
  | none => t.inherited i

end Tree

end TestRun
