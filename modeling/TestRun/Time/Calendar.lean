import TestRun.Text.Digits
import TestRun.Time.Instant
set_option autoImplicit false

namespace TestRun.Time

open TestRun.Text

/-- Every fourth year is a leap year, except centuries not divisible by 400. -/
def isLeap (year : Nat) : Bool :=
  year % 4 == 0 && (year % 100 != 0 || year % 400 == 0)

def daysBefore (year : Nat) : Nat :=
  let y := year - 1
  y * 365 + y / 4 - y / 100 + y / 400

def monthLengths (leap : Bool) : List Nat :=
  [31, if leap then 29 else 28, 31, 30, 31, 30, 31, 31, 30, 31, 30, 31]

def monthLength (year month : Nat) : Nat :=
  if month = 0 then 0 else (monthLengths (isLeap year)).getD (month - 1) 0

/-- The year that holds the day with the given number: an estimate by the mean year, corrected
by at most one. -/
def yearOf (day : Nat) : Nat :=
  let guess := day * 400 / 146097 + 1
  if day < daysBefore guess then guess - 1
  else if daysBefore (guess + 1) ≤ day then guess + 1
  else guess

def monthAndDay : List Nat → Nat → Nat → Nat × Nat
  | [], month, day => (month, day + 1)
  | length :: rest, month, day =>
    if day < length then (month, day + 1) else monthAndDay rest (month + 1) (day - length)

structure CivilDate where
  year : Nat
  month : Nat
  day : Nat
  deriving DecidableEq, Repr

def CivilDate.ofDay (day : Nat) : CivilDate :=
  let year := yearOf day
  let md := monthAndDay (monthLengths (isLeap year)) 1 (day - daysBefore year)
  ⟨year, md.1, md.2⟩

def CivilDate.toDay (d : CivilDate) : Nat :=
  daysBefore d.year + ((monthLengths (isLeap d.year)).take (d.month - 1)).foldl (· + ·) 0 + (d.day - 1)

def CivilDate.text (d : CivilDate) : List Char :=
  digits 10 4 d.year ++ '-' :: digits 10 2 d.month ++ '-' :: digits 10 2 d.day

def wholeSeconds (micros : Int) : Nat := ((micros - lowest).fdiv 1000000).toNat

/-- Year to second of a reading, as a text of nineteen characters. -/
def readingText (micros : Int) : String :=
  let seconds := wholeSeconds micros
  let face := seconds % 86400
  String.ofList ((CivilDate.ofDay (seconds / 86400)).text ++
    'T' :: digits 10 2 (face / 3600) ++
    ':' :: digits 10 2 (face / 60 % 60) ++
    ':' :: digits 10 2 (face % 60))

/-- The reading of the local clock at an instant. A naive instant is a local reading already; an
aware one goes through universal time, which must lie in range as well. -/
def localReading (localOffset : Duration) (i : Instant) : Except TimeError Int :=
  match i.universal? with
  | none => .ok i.micros
  | some u => do
    let utc ← match Instant.ofMicros? u (some 0) with
      | some utc => pure utc
      | none => throw .outOfRange
    let face ← utc.shift localOffset
    pure face.micros

/-- The instant on the local clock, without fractions of a second. -/
def timestampText (localOffset : Duration) (i : Instant) : Except TimeError String := do
  let micros ← localReading localOffset i
  pure (readingText micros)

end TestRun.Time
