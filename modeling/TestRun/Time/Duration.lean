import TestRun.Text.Digits
import TestRun.Time.Instant
set_option autoImplicit false

namespace TestRun.Time

open TestRun.Text

def wholeMillis (d : Duration) : Nat := (d.fdiv 1000).toNat

/-- Seconds with exactly three decimals; a span below one millisecond is just `0`. -/
def secondsText (d : Duration) : String :=
  let ms := wholeMillis d
  if ms = 0 then "0"
  else String.ofList (decimal (ms / 1000) ++ '.' :: digits 10 3 (ms % 1000))

/-- Days rounded down, then hours, minutes and seconds, and microseconds unless they are zero. -/
def clockText (d : Duration) : String :=
  let days := d.fdiv 86400000000
  let rest := (d.fmod 86400000000).toNat
  let seconds := rest / 1000000
  let micros := rest % 1000000
  let dayPart :=
    if days = 0 then ""
    else signedDecimal days ++ (if days.natAbs = 1 then " day, " else " days, ")
  let face := decimal (seconds / 3600) ++ ':' :: digits 10 2 (seconds / 60 % 60) ++
    ':' :: digits 10 2 (seconds % 60)
  let fraction := if micros = 0 then [] else '.' :: digits 10 6 micros
  dayPart ++ String.ofList (face ++ fraction)

end TestRun.Time
