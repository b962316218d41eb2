import TestRun.Thrown
set_option autoImplicit false

namespace TestRun

/-- Why a node failed or was aborted. `assertion` marks intentional check failures; those are
reported as failures, every other cause as an error. -/
structure Cause where
  typeName : String
  message : String
  stackTrace : String
  assertion : Bool
  deriving DecidableEq, Repr

namespace Cause

def plain (typeName message : String) : Cause := ⟨typeName, message, "", false⟩

def ofThrown (t : Thrown) : Cause :=
  ⟨t.kind.qualified, t.text, if t.raised then Thrown.frames else "", t.kind.assertion⟩

def headline (c : Cause) : String :=
  if c.message.isEmpty then c.typeName else c.typeName ++ ": " ++ c.message

def render (c : Cause) : String :=
  if c.stackTrace.isEmpty then c.headline else c.headline ++ "\n" ++ c.stackTrace

def incomplete : Cause := plain "reportkit.IncompleteExecution" "execution did not complete"

def unknownFailure : Cause := plain "reportkit.UnknownFailure" "no cause was reported"

end Cause

inductive Status
  | successful
  | aborted
  | failed
  deriving DecidableEq, Repr

def Status.text : Status → String
  | successful => "successful"
  | aborted => "aborted"
  | failed => "failed"

structure ExecutionResult where
  status : Status
  cause : Option Cause
  deriving DecidableEq, Repr

namespace ExecutionResult

def successful : ExecutionResult := ⟨.successful, none⟩
def failed (c : Cause) : ExecutionResult := ⟨.failed, some c⟩
def aborted (c : Cause) : ExecutionResult := ⟨.aborted, some c⟩

end ExecutionResult

end TestRun
