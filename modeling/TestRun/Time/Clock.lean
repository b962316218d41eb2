import TestRun.Time.Duration
set_option autoImplicit false

/-!
# Clocks

A clock is a value; reading it gives an instant and the clock after the reading. A stepping clock
works out its next instant at each reading, so it fails one step before its range ends and then
stays where it is.
-/

namespace TestRun.Time

inductive Clock
  | fixed (instant : Instant)
  /-- Shows `next` and then advances by `step` microseconds. -/
  | stepping (next : Instant) (step : Nat)
  /-- Shows the given instants in turn and the last one for ever. -/
  | listed (current : Instant) (later : List Instant)
  deriving DecidableEq

instance : Inhabited Clock := ⟨.fixed .epoch⟩

structure NegativeStep where
  step : Duration
  deriving DecidableEq

def NegativeStep.message (e : NegativeStep) : String :=
  "Cannot step time by negative amount: " ++ clockText e.step

namespace Clock

def stepping? (start : Instant) (step : Duration) : Except NegativeStep Clock :=
  if step < 0 then .error ⟨step⟩ else .ok (.stepping start step.toNat)

def read : Clock → Except TimeError Instant × Clock
  | .fixed i => (.ok i, .fixed i)
  | .stepping next step =>
    match next.shift step with
    | .ok later => (.ok next, .stepping later step)
    | .error e => (.error e, .stepping next step)
  | .listed current [] => (.ok current, .listed current [])
  | .listed current (i :: later) => (.ok current, .listed i later)

def after (c : Clock) : Nat → Clock
  | 0 => c
  | n + 1 => c.read.2.after n

end Clock

/-- The clock of a machine, which shows the given instants in turn and the last one for ever. -/
structure WallClock where
  current : Instant
  later : List Instant
  deriving DecidableEq

namespace WallClock

def toClock (w : WallClock) : Clock := .listed w.current w.later

/-- A wall clock that has come to show what another clock shows. -/
def moved (w : WallClock) : Clock → WallClock
  | .listed current later => ⟨current, later⟩
  | _ => w

end WallClock

end TestRun.Time
