import TestRun.Text.Upper
set_option autoImplicit false

namespace TestRun.Log

inductive Level
  | debug
  | warning
  deriving DecidableEq, Repr

namespace Level

def number : Level → Nat
  | debug => 10
  | warning => 30

def text : Level → String
  | debug => "DEBUG"
  | warning => "WARNING"

end Level

structure Record where
  level : Level
  message : String
  deriving DecidableEq, Repr

def thresholds : List (String × Nat) :=
  [("CRITICAL", 50), ("FATAL", 50), ("ERROR", 40), ("WARNING", 30), ("WARN", 30), ("INFO", 20),
    ("DEBUG", 10), ("NOTSET", 0)]

/-- The refusal of a name that is no level; it holds the name in upper case. -/
structure UnknownLevel where
  name : Text.CodeText
  deriving DecidableEq

def UnknownLevel.message (e : UnknownLevel) : String := "Unknown level: " ++ e.name.quoted

def threshold (name : Text.CodeText) : Except UnknownLevel Nat :=
  match (Text.upper name).toString?.bind (thresholds.lookup ·) with
  | some n => .ok n
  | none => .error ⟨Text.upper name⟩

def above (least : Nat) (records : List Record) : List Record :=
  records.filter fun r => least ≤ r.level.number

end TestRun.Log
