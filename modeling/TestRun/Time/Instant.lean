set_option autoImplicit false

namespace TestRun.Time

/-- A span in microseconds; negative spans occur only where one is handed in. -/
abbrev Duration := Int

def lowest : Int := -62135596800000000

def highest : Int := 253402300799999999

structure Instant where
  micros : Int
  /-- How far an aware instant's clock face is ahead of universal time. -/
  offset : Option Duration
  lowest_le : lowest ≤ micros
  le_highest : micros ≤ highest
  deriving DecidableEq

inductive TimeError
  | outOfRange
  | mixedKinds
  /-- The span has no end; `started` tells whether it has a start. -/
  | openEnded (started : Bool)
  deriving DecidableEq, Repr

namespace Instant

def ofMicros? (micros : Int) (offset : Option Duration) : Option Instant :=
  if h : lowest ≤ micros ∧ micros ≤ highest then some ⟨micros, offset, h.1, h.2⟩ else none

def epoch : Instant := ⟨0, some 0, by decide, by decide⟩

instance : Inhabited Instant := ⟨epoch⟩

def shift (i : Instant) (d : Duration) : Except TimeError Instant :=
  match ofMicros? (i.micros + d) i.offset with
  | some j => .ok j
  | none => .error .outOfRange

def universal? (i : Instant) : Option Int :=
  i.offset.map fun d => i.micros - d

def since (finish start : Instant) : Except TimeError Duration :=
  match finish.universal?, start.universal? with
  | some f, some s => .ok (f - s)
  | none, none => .ok (finish.micros - start.micros)
  | _, _ => .error .mixedKinds

end Instant

/-- The span between two instants, zero where the finish precedes the start. -/
def elapsed (start finish : Instant) : Except TimeError Duration := do
  let d ← finish.since start
  pure (max d 0)

def elapsed? : Option Instant → Option Instant → Except TimeError Duration
  | start, none => .error (.openEnded start.isSome)
  | some start, some finish => elapsed start finish
  | none, some finish => elapsed finish finish

end TestRun.Time
