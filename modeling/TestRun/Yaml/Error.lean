import TestRun.Text.CodeText
import TestRun.Time.Calendar
set_option autoImplicit false

namespace TestRun.Yaml

inductive YamlError
  | malformed
  | noSuchCharacter (code : Nat)
  | notInteger (base : Nat) (text : Text.CodeText)
  | notFloat (text : Text.CodeText)
  | tooManyDigits (count : Nat)
  /-- A part of a number to the base sixty lies beyond all floating-point numbers. -/
  | placeTooLarge
  | emptyNumber
  | notBoolean (text : Text.CodeText)
  | notTimestamp
  /-- The plain value of a mapping is the mapping itself, perhaps by way of others. -/
  | endless
  | timestampOfMapping
  | yearOutOfRange
  | monthOutOfRange
  | dayOutOfRange
  | hourOutOfRange
  | minuteOutOfRange
  | secondOutOfRange
  /-- A timestamp is a day or more away from universal time. -/
  | offsetOutOfRange (minutes : Int)
  deriving DecidableEq, Repr

def digitLimit : Nat := 4300

/-- The most characters of a quoted text that the refusal of an integer shows. -/
def shownLimit : Nat := 200

/-- The largest number that is taken for a code point at all. -/
def codeLimit : Nat := 2147483647

def spanText (minutes : Int) : String :=
  let days := minutes.fdiv 1440
  let seconds := minutes.fmod 1440 * 60
  let parts := (if days = 0 then [] else ["days=" ++ Text.signedDecimal days]) ++
    (if seconds = 0 then [] else ["seconds=" ++ Text.signedDecimal seconds])
  "datetime.timedelta(" ++ (if parts.isEmpty then "0" else String.intercalate ", " parts) ++ ")"

namespace YamlError

def typeName : YamlError → String
  | malformed => "YAMLError"
  | emptyNumber => "IndexError"
  | notBoolean _ => "KeyError"
  | notTimestamp => "AttributeError"
  | timestampOfMapping => "TypeError"
  | endless => "RecursionError"
  | placeTooLarge => "OverflowError"
  | noSuchCharacter code => if code ≤ codeLimit then "ValueError" else "OverflowError"
  | _ => "ValueError"

def message? : YamlError → Option String
  | malformed => none
  | noSuchCharacter code =>
    some (if code ≤ codeLimit then "chr() arg not in range(0x110000)"
      else "Python int too large to convert to C int")
  | notInteger base text =>
    some ("invalid literal for int() with base " ++ toString base ++ ": " ++
      String.ofList (text.quoted.toList.take shownLimit))
  | notFloat text => some ("could not convert string to float: " ++ text.quoted)
  | tooManyDigits count =>
    some ("Exceeds the limit (" ++ toString digitLimit ++
      " digits) for integer string conversion: value has " ++ toString count ++
      " digits; use sys.set_int_max_str_digits() to increase the limit")
  | placeTooLarge => some "int too large to convert to float"
  | emptyNumber => some "string index out of range"
  | notBoolean text => some text.joined
  | notTimestamp => some "'NoneType' object has no attribute 'groupdict'"
  | endless => some "maximum recursion depth exceeded"
  | timestampOfMapping => some "expected string or bytes-like object, got 'list'"
  | yearOutOfRange => some "year 0 is out of range"
  | monthOutOfRange => some "month must be in 1..12"
  | dayOutOfRange => some "day is out of range for month"
  | hourOutOfRange => some "hour must be in 0..23"
  | minuteOutOfRange => some "minute must be in 0..59"
  | secondOutOfRange => some "second must be in 0..59"
  | offsetOutOfRange minutes =>
    some ("offset must be a timedelta strictly between -timedelta(hours=24) and " ++
      "timedelta(hours=24), not " ++ spanText minutes ++ ".")

end YamlError

end TestRun.Yaml
