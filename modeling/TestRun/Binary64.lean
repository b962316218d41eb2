import TestRun.Text.Digits
set_option autoImplicit false

namespace TestRun.Binary64

open Text

def pow2 (n : Nat) : Nat := Nat.pow 2 n

def pow10 (n : Nat) : Nat := Nat.pow 10 n

structure Exact where
  isNegative : Bool
  significand : Nat
  exponent : Int

def finite? (x : Float) : Option Exact :=
  let bits := x.toBits.toNat
  let fraction := bits % pow2 52
  match bits / pow2 52 % pow2 11 with
  | 2047 => none
  | 0 => some ⟨pow2 63 ≤ bits, fraction, -1074⟩
  | e => some ⟨pow2 63 ≤ bits, pow2 52 + fraction, (e : Int) - 1075⟩

def toInt? (x : Float) : Option Int := do
  let e ← finite? x
  let scale := pow2 e.exponent.natAbs
  let size ←
    if 0 ≤ e.exponent then some (e.significand * scale)
    else if e.significand % scale = 0 then some (e.significand / scale) else none
  pure (if e.isNegative then -(size : Int) else size)

def infinity : Float := Float.ofBits 0x7ff0000000000000

def nan : Float := Float.ofBits 0x7ff8000000000000

/-- The number nearest to an integer times a power of ten. Far beyond the largest number it is
infinite, far below the smallest it is zero. -/
def ofDecimal (n : Nat) (exponent : Int) : Float :=
  let magnitude : Int := (decimal n).length + exponent
  if n = 0 || magnitude < -400 then 0.0
  else if 400 < magnitude then infinity
  else Float.ofScientific n (exponent < 0) exponent.natAbs

def exponent? : List Char → Option Int
  | [] => some 0
  | e :: rest => do
    guard (e = 'e' ∨ e = 'E')
    let (isNegative, ds) := splitSign rest
    let n ← ofDigits? 10 ds
    pure (if isNegative then -(n : Int) else n)

def ofPlain? (cs : List Char) : Option Float := do
  let whole := cs.takeWhile (digitValue? · |>.isSome)
  let rest := cs.drop whole.length
  let fraction := match rest with
    | '.' :: after => after.takeWhile (digitValue? · |>.isSome)
    | _ => []
  let rest := match rest with
    | '.' :: after => after.drop fraction.length
    | _ => rest
  let n ← ofDigits? 10 (whole ++ fraction)
  let e ← exponent? rest
  pure (ofDecimal n (e - fraction.length))

def ofNumeral? (cs : List Char) : Option Float :=
  let (isNegative, body) := splitSign cs
  let word := String.ofList (body.map Char.toLower)
  let size? :=
    if word = "inf" || word = "infinity" then some infinity
    else if word = "nan" then some nan
    else ofPlain? body
  size?.map fun x => if isNegative then -x else x

/-- The decimals around a value with the given number of digits, of which the first stands just
below `10 ^ top`: the digits of the lower one and whether the upper one comes first, being nearer
or even at the same distance. -/
def neighbour (num den : Nat) (top : Int) (count : Nat) : Nat × Bool :=
  let shift := (count : Int) - top
  let num := num * pow10 shift.toNat
  let den := den * pow10 (-shift).toNat
  let low := num / den
  (low, if 2 * (num % den) = den then low % 2 = 1 else den < 2 * (num % den))

/-- The fewest digits that read back as a positive number, and the power of ten of the last. Of
two such decimals it is the nearer one, or the even one at the same distance. -/
def shortest (x : Float) (e : Exact) : Nat × Int :=
  let num := e.significand * pow2 e.exponent.toNat
  let den := pow2 (-e.exponent).toNat
  let top : Int :=
    if den ≤ num then (decimal (num / den)).length else 1 - (decimal (den / num)).length
  let attempt (count : Nat) : Option (Nat × Int) :=
    let (low, isUpperFirst) := neighbour num den top count
    let place := top - count
    let candidates := if isUpperFirst then [low + 1, low] else [low, low + 1]
    (candidates.find? fun n => ofDecimal n place == x).map fun n => (n, place)
  ((List.range' 1 17).findSome? attempt).getD (num, 0)

/-- The digits of a finite number, laid out: with a point where the first digit stands between
the fourth place behind the point and the sixteenth before it, with an exponent elsewhere. -/
def layout (n : Nat) (place : Int) : List Char :=
  let all := decimal n
  let ds := (all.reverse.dropWhile (· == '0')).reverse
  let point := (all.length : Int) + place
  if -4 < point ∧ point ≤ 16 then
    let padded := List.replicate (1 - point).toNat '0' ++ ds
    let wholeLength := (max point 1).toNat
    let padded := padded ++ List.replicate (wholeLength - padded.length) '0'
    let fraction := padded.drop wholeLength
    padded.take wholeLength ++ '.' :: (if fraction.isEmpty then ['0'] else fraction)
  else
    let e := point - 1
    let tail := if ds.length ≤ 1 then [] else '.' :: ds.drop 1
    let size := decimal e.natAbs
    ds.take 1 ++ tail ++ ['e', if e < 0 then '-' else '+'] ++
      List.replicate (2 - size.length) '0' ++ size

def text (x : Float) : String :=
  match finite? x with
  | none => if x.isNaN then "nan" else if x < 0 then "-inf" else "inf"
  | some e =>
    let size := if e.significand = 0 then "0.0".toList
      else
        let (n, place) := shortest x.abs e
        layout n place
    String.ofList ((if e.isNegative then ['-'] else []) ++ size)

end TestRun.Binary64
