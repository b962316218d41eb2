import TestRun.Binary64
import TestRun.Text.Lower
import TestRun.Text.Numeral
import TestRun.Yaml.Node
set_option autoImplicit false

namespace TestRun.Yaml

open Text Time

structure Timestamp where
  date : CivilDate
  hour : Nat
  minute : Nat
  second : Nat
  micros : Nat
  /-- Minutes ahead of universal time. -/
  offset? : Option Int
  deriving DecidableEq, Repr

namespace Timestamp

def reading (t : Timestamp) : Int :=
  (((t.date.toDay * 24 + t.hour) * 60 + t.minute) * 60 + t.second) * 1000000 + t.micros

/-- Whether two timestamps tell the same time in the same way: locally or universally. -/
def same (s t : Timestamp) : Bool :=
  match s.offset?, t.offset? with
  | none, none => s.reading == t.reading
  | some o, some p => s.reading - o * 60000000 == t.reading - p * 60000000
  | _, _ => false

def text (t : Timestamp) : String :=
  let fraction := if t.micros = 0 then [] else [t.micros]
  let seconds := if t.second = 0 ∧ t.micros = 0 then [] else t.second :: fraction
  let fields := [t.date.year, t.date.month, t.date.day, t.hour, t.minute] ++ seconds
  let zone := match t.offset? with
    | none => ""
    | some 0 => ", tzinfo=datetime.timezone.utc"
    | some o => ", tzinfo=datetime.timezone(" ++ spanText o ++ ")"
  "datetime.datetime(" ++ String.intercalate ", " (fields.map toString) ++ zone ++ ")"

end Timestamp

inductive Atom
  | null
  | bool (b : Bool)
  | int (n : Int)
  | float (x : Float)
  /-- What is no number. It is the same only as what the word of the language stands for, or as
  what came of the same scalar. -/
  | nan (scalar? : Option Nat)
  | text (t : CodeText)
  | bytes (b : ByteArray)
  | date (d : CivilDate)
  | timestamp (t : Timestamp)

namespace Atom

def toInt? : Atom → Option Int
  | bool b => some (if b then 1 else 0)
  | int n => some n
  | float x => Binary64.toInt? x
  | _ => none

def same : Atom → Atom → Bool
  | null, null => true
  | float x, float y => x == y
  | nan i, nan j => i == j
  | text s, text t => s == t
  | bytes a, bytes b => a.data == b.data
  | date d, date e => d == e
  | timestamp s, timestamp t => s.same t
  | a, b =>
    match a.toInt?, b.toInt? with
    | some m, some n => m == n
    | _, _ => false

def isEmpty : Atom → Bool
  | null => true
  | text s => s.isEmpty
  | bytes b => b.isEmpty
  | a => a.toInt? == some 0

def byteText (mark : Char) (b : UInt8) : List Char :=
  let c := Char.ofNat b.toNat
  if c = mark ∨ c = '\\' then ['\\', c]
  else if c = '\n' then ['\\', 'n']
  else if c = '\r' then ['\\', 'r']
  else if c = '\t' then ['\\', 't']
  else if ' ' ≤ c ∧ c ≤ '~' then [c]
  else '\\' :: 'x' :: digits 16 2 b.toNat

def bytesText (b : ByteArray) : String :=
  let bs := b.data.toList
  let has (c : Char) : Bool := bs.any fun b => b.toNat == c.toNat
  let mark := if has '\'' && !has '"' then '"' else '\''
  String.ofList ('b' :: mark :: bs.flatMap (byteText mark) ++ [mark])

/-- A text as messages show it. A surrogate shows as three signs, one for each byte it would
take. -/
def plainText (t : CodeText) : String :=
  String.ofList (t.flatMap fun p => if p.isSurrogate then List.replicate 3 p.shape else [p.shape])

def unshown : String := "<unprintable int object>"

def shown : Atom → String
  | null => "None"
  | bool b => if b then "True" else "False"
  | int n => if digitLimit < (decimal n.natAbs).length then unshown else signedDecimal n
  | float x => Binary64.text x
  | nan _ => "nan"
  | text t => plainText t
  | bytes b => bytesText b
  | date d =>
    "datetime.date(" ++ String.intercalate ", " ([d.year, d.month, d.day].map toString) ++ ")"
  | timestamp t => t.text

def baseLetter? : Nat → Option Char
  | 2 => some 'b'
  | 8 => some 'o'
  | 16 => some 'x'
  | _ => none

def withoutMark (base : Nat) : List Char → List Char
  | '0' :: c :: rest => if some c.toLower = baseLetter? base then rest else '0' :: c :: rest
  | cs => cs

def integer (base : Nat) (t : CodeText) : Except YamlError Int :=
  let (isNegative, body) := splitSign (numeral t)
  let ds := withoutMark base body
  let count := (ds.takeWhile fun c => (ofDigits? base [c]).isSome).length
  if base = 10 ∧ digitLimit < count then .error (.tooManyDigits count)
  else match ofDigits? base ds with
    | some n => .ok (if isNegative then -(n : Int) else n)
    | none => .error (.notInteger base t)

def withoutUnderscores (t : CodeText) : CodeText := t.filter (· != .ofChar '_')

def signedBody (t : CodeText) : Except YamlError (Bool × CodeText) :=
  if t.isEmpty then .error .emptyNumber
  else
    let body := (splitSign t.shapes).2
    .ok (t.head? == some (.ofChar '-'), t.drop (t.length - body.length))

/-- An integer, in the base that its first characters tell. -/
def ofInt (t : CodeText) : Except YamlError Int := do
  let (isNegative, body) ← signedBody (withoutUnderscores t)
  let n ← match body.shapes with
    | [] => throw .emptyNumber
    | ['0'] => pure 0
    | '0' :: 'b' :: _ => integer 2 (body.drop 2)
    | '0' :: 'x' :: _ => integer 16 (body.drop 2)
    | '0' :: _ => integer 8 body
    | cs =>
      if cs.contains ':' then do
        let ns ← (body.pieces ':').mapM (integer 10)
        pure (ns.foldl (fun acc n => acc * 60 + n) 0)
      else integer 10 body
  pure (if isNegative then -n else n)

def decimalFloat (t : CodeText) : Except YamlError Float :=
  match Binary64.ofNumeral? (numeral t) with
  | some x => .ok x
  | none => .error (.notFloat t)

/-- The sum of numbers, from the last on, times the powers of sixty. -/
def sumOfPlaces : List Float → Nat → Float → Except YamlError Float
  | [], _, acc => .ok acc
  | x :: more, weight, acc =>
    let w := Binary64.ofDecimal weight 0
    if w.isInf then .error .placeTooLarge else sumOfPlaces more (weight * 60) (acc + x * w)

def ofFloat (scalar : Nat) (t : CodeText) : Except YamlError Atom := do
  let (isNegative, body) ← signedBody (lower (withoutUnderscores t))
  if body = .ofString ".nan" then pure (.nan none)
  else
    let x ←
      if body = .ofString ".inf" then pure Binary64.infinity
      else if body.shapes.contains ':' then do
        let xs ← (body.pieces ':').mapM decimalFloat
        sumOfPlaces xs.reverse 1 0.0
      else decimalFloat body
    pure (if x.isNaN then .nan (some scalar) else .float (if isNegative then -x else x))

def truthWords : List (String × Bool) :=
  [("yes", true), ("no", false), ("true", true), ("false", false), ("on", true), ("off", false)]

def ofBool (t : CodeText) : Except YamlError Bool :=
  match (lower t).toString?.bind (truthWords.lookup ·) with
  | some b => .ok b
  | none => .error (.notBoolean (lower t))

def field (cs : List Char) : Nat := (ofDigits? 10 cs).getD 0

/-- Minutes east of universal time, less than a day. -/
def offset : Option (Char × List Char × List Char) → Except YamlError Int
  | none => .ok 0
  | some (sign, hours, minutes) =>
    let size : Int := field hours * 60 + field minutes
    let n := if sign = '-' then -size else size
    if n.natAbs < 1440 then .ok n else .error (.offsetOutOfRange n)

def ofStamp (s : Plain.Stamp) : Except YamlError Atom := do
  let date : CivilDate := ⟨field s.year, field s.month, field s.day⟩
  let offset? ← match s.time?, s.zone? with
    | some _, some zone => some <$> offset zone
    | _, _ => pure none
  if date.year = 0 then throw .yearOutOfRange
  if monthLength date.year date.month = 0 then throw .monthOutOfRange
  if date.day = 0 ∨ monthLength date.year date.month < date.day then throw .dayOutOfRange
  match s.time? with
  | none => pure (.date date)
  | some (hours, minutes, seconds, fraction) =>
    let hour := field hours
    let minute := field minutes
    let second := field seconds
    if 24 ≤ hour then throw .hourOutOfRange
    if 60 ≤ minute then throw .minuteOutOfRange
    if 60 ≤ second then throw .secondOutOfRange
    let micros := field ((fraction ++ List.replicate 6 '0').take 6)
    pure (.timestamp ⟨date, hour, minute, second, micros, offset?⟩)

def ofTimestamp (t : CodeText) : Except YamlError Atom :=
  match Plain.stamp? false (Plain.withoutLastFeed t.shapes) with
  | some stamp => ofStamp stamp
  | none => .error .notTimestamp

def sextet? (c : Char) : Option Nat :=
  if 'A' ≤ c ∧ c ≤ 'Z' then some (c.toNat - 65)
  else if 'a' ≤ c ∧ c ≤ 'z' then some (c.toNat - 71)
  else if '0' ≤ c ∧ c ≤ '9' then some (c.toNat + 4)
  else if c = '+' then some 62
  else if c = '/' then some 63
  else none

/-- The bytes that base 64 stands for. Foreign characters are skipped, and padding where it
completes a group of four ends the text. `place` counts the characters of the group, `held` is
the last one, and `pads` counts the padding since. -/
def base64 : List Char → Nat → Nat → Nat → List UInt8 → Except YamlError (List UInt8)
  | [], place, _, _, acc => if place = 0 then .ok acc.reverse else .error .malformed
  | '=' :: rest, place, held, pads, acc =>
    if 2 ≤ place then
      if 4 ≤ place + pads + 1 then .ok acc.reverse else base64 rest place held (pads + 1) acc
    else base64 rest place held pads acc
  | c :: rest, place, held, pads, acc =>
    match sextet? c with
    | none => base64 rest place held pads acc
    | some n =>
      let byte := (held * 64 + n) / Nat.pow 4 (3 - place) % 256
      base64 rest ((place + 1) % 4) n 0 (if place = 0 then acc else byte.toUInt8 :: acc)

def ofBinary (t : CodeText) : Except YamlError ByteArray := do
  if t.any fun p => 0x80 ≤ p.value then throw .malformed
  pure ⟨(← base64 t.shapes 0 0 0 []).toArray⟩

def ofScalar (scalar : Nat) (tag : String) (text : CodeText) : Except YamlError Atom :=
  if tag = Tag.null then .ok .null
  else if tag = Tag.bool then .bool <$> ofBool text
  else if tag = Tag.int then .int <$> ofInt text
  else if tag = Tag.float then ofFloat scalar text
  else if tag = Tag.binary then .bytes <$> ofBinary text
  else if tag = Tag.timestamp then ofTimestamp text
  else if tag = Tag.text then .ok (.text text)
  else .error .malformed

end Atom

end TestRun.Yaml
