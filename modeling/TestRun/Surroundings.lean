import TestRun.Fault
import TestRun.Host
set_option autoImplicit false

/-!
# The surroundings of a run

What listeners and bodies read and change besides their own state: the clock, the files, the two
text streams and the log. An act changes a state and may end in a fault; what it did before the
fault stays done.
-/

namespace TestRun

open Time Files

structure Surroundings where
  host : Host
  clock : Clock
  /-- The clock of the machine, where it is another one. -/
  wall? : Option WallClock
  disk : Disk
  sink : String
  screen : String
  log : Array Log.Record

/-- A computation over a state that may end in a fault and keeps the state it reached. -/
abbrev Act (σ α : Type) : Type := ExceptT Fault (StateM σ) α

namespace Act

variable {σ τ α : Type}

def perform (act : Act σ α) (s : σ) : Except Fault α × σ := StateT.run (ExceptT.run act) s

def attempt (act : Act σ α) : Act σ (Except Fault α) :=
  ExceptT.mk (do pure (.ok (← ExceptT.run act)))

def within (get : σ → τ) (set : τ → σ → σ) (act : Act τ α) : Act σ α :=
  ExceptT.mk fun s =>
    let (answer, part) := act.perform (get s)
    (answer, set part s)

end Act

namespace Surroundings

/-- The surroundings as they are for who reads the clock of the machine. -/
def onWall (s : Surroundings) : Surroundings :=
  match s.wall? with
  | some w => { s with clock := w.toClock }
  | none => s

/-- What someone who read the clock of the machine leaves of the surroundings. -/
def offWall (s left : Surroundings) : Surroundings :=
  match s.wall? with
  | some w => { left with clock := s.clock, wall? := some (w.moved left.clock) }
  | none => left

def readClock : Act Surroundings Instant := do
  let s ← get
  let (answer, clock) := s.clock.read
  set { s with clock := clock }
  match answer with
  | .ok now => pure now
  | .error e => throw (.time e)

def tick : Nat → Act Surroundings Unit
  | 0 => pure ()
  | n + 1 => do
    let _ ← readClock
    tick n

def note (level : Log.Level) (message : String) : Act Surroundings Unit :=
  modify fun s => { s with log := s.log.push ⟨level, message⟩ }

def warn (message : String) : Act Surroundings Unit := note .warning message

def debug (message : String) : Act Surroundings Unit := note .debug message

def print (line : String) : Act Surroundings Unit :=
  modify fun s => { s with screen := s.screen ++ line ++ "\n" }

def traceText (f : Fault) : String :=
  let last := if f.text.isEmpty then f.qualifiedName else f.qualifiedName ++ ": " ++ f.text
  "Traceback (most recent call last):\n" ++ Thrown.frames ++ last ++ "\n"

def complain (message : String) (f : Fault) : Act Surroundings Unit := do
  warn (message ++ " (" ++ f.typeName ++ ": " ++ f.text ++ ")")
  modify fun s => { s with sink := s.sink ++ message ++ "\n" ++ traceText f }

end Surroundings

end TestRun
