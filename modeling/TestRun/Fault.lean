import TestRun.Cause
import TestRun.Files.Disk
import TestRun.Log
import TestRun.Time.Clock
set_option autoImplicit false

namespace TestRun

open Time Files

inductive Fault
  | thrown (t : Thrown)
  | time (e : TimeError)
  | negativeStep (e : NegativeStep)
  | file (e : FileError)
  | zeroInPath
  | unencodable (e : Text.Unencodable)
  /-- The named part of something that is not there. -/
  | absent (part : String)
  | uncounted
  | noBody
  | notInPlan (id : String)
  | unknownNode (id : String)
  | duplicateId (id : String)
  | tooFewWorkers (n : Int)
  | unknownLevel (e : Log.UnknownLevel)

namespace Fault

def nothing : String := "'NoneType'"

def typeName : Fault → String
  | thrown t => t.kind.name
  | time .outOfRange => "OverflowError"
  | time _ | uncounted | noBody => "TypeError"
  | negativeStep _ | zeroInPath | duplicateId _ | tooFewWorkers _ | unknownLevel _ => "ValueError"
  | file e => e.reason.typeName
  | absent _ => "AttributeError"
  | unencodable _ => "UnicodeEncodeError"
  | notInPlan _ | unknownNode _ => "KeyError"

def qualifiedName : Fault → String
  | thrown t => t.kind.qualified
  | f => f.typeName

def key? : Fault → Option Datum
  | thrown ⟨⟨_, _, .key, _, _, _⟩, [d], _⟩ => some d
  | notInPlan id => some (.text ("No identifier " ++ Text.quoted id ++ " in test plan"))
  | unknownNode id => some (.text id)
  | _ => none

def text : Fault → String
  | thrown t => t.text
  | time .outOfRange => "date value out of range"
  | time .mixedKinds => "can't subtract offset-naive and offset-aware datetimes"
  | time (.openEnded started) =>
    "unsupported operand type(s) for -: " ++ nothing ++ " and " ++
      (if started then "'datetime.datetime'" else nothing)
  | negativeStep e => e.message
  | file e => e.message
  | zeroInPath => "embedded null byte"
  | unencodable e => e.message
  | absent part => nothing ++ " object has no attribute '" ++ part ++ "'"
  | uncounted => "object of type " ++ nothing ++ " has no len()"
  | noBody => nothing ++ " object is not callable"
  | notInPlan id => Text.quoted ("No identifier " ++ Text.quoted id ++ " in test plan")
  | unknownNode id => Text.quoted id
  | duplicateId id => "Duplicate unique id " ++ Text.quoted id
  | tooFewWorkers n => "parallelism must be at least 1, got " ++ Text.signedDecimal n
  | unknownLevel e => e.message

/-- The message as an answer shows it: a missing key stands for itself. -/
def message (f : Fault) : Datum := f.key?.getD (.text f.text)

def isInterrupt : Fault → Bool
  | thrown t => t.kind.interrupt
  | _ => false

def isAbort : Fault → Bool
  | thrown t => t.kind.abort
  | _ => false

def cause (f : Fault) : Cause :=
  match f with
  | thrown t => .ofThrown t
  | f => ⟨f.qualifiedName, f.text, Thrown.frames, false⟩

end Fault

end TestRun
