import TestRun.Datum
import TestRun.Package
set_option autoImplicit false

namespace TestRun

inductive Wording
  | plain
  /-- A single argument is quoted, as the missing key of a table. -/
  | key
  /-- A number, a message and perhaps file names, as the operating system reports. -/
  | system
  deriving DecidableEq, Repr

structure ThrownKind where
  name : String
  /-- The name with its module; the same as `name` for built-in types. -/
  qualified : String
  wording : Wording
  assertion : Bool
  abort : Bool
  interrupt : Bool
  deriving DecidableEq, Repr

namespace ThrownKind

def builtin (name : String) : ThrownKind := ⟨name, name, .plain, false, false, false⟩

def assertionError : ThrownKind := { builtin "AssertionError" with assertion := true }
def keyError : ThrownKind := { builtin "KeyError" with wording := .key }
def systemError : ThrownKind := { builtin "OSError" with wording := .system }

/-- The signal by which a test gives up without failing. -/
def testAborted : ThrownKind :=
  { builtin "TestAborted" with qualified := Package.qualified "plan.TestAborted", abort := true }

def systemNames : List (Int × String) :=
  [(1, "PermissionError"), (2, "FileNotFoundError"), (3, "ProcessLookupError"),
    (4, "InterruptedError"), (10, "ChildProcessError"), (11, "BlockingIOError"),
    (13, "PermissionError"), (17, "FileExistsError"), (20, "NotADirectoryError"),
    (21, "IsADirectoryError"), (32, "BrokenPipeError"), (103, "ConnectionAbortedError"),
    (104, "ConnectionResetError"), (108, "BrokenPipeError"), (110, "TimeoutError"),
    (111, "ConnectionRefusedError"), (114, "BlockingIOError"), (115, "BlockingIOError")]

/-- How much was done before a call would have had to wait, which a number in place of the file
tells. -/
def progress? (kind : ThrownKind) (files : List Datum) : Option Int :=
  if kind.name = "BlockingIOError" then files.head?.bind Datum.toInt? else none

/-- A system error with a number and a message is named for its number. -/
def named (kind : ThrownKind) (args : List Datum) : ThrownKind :=
  if kind.wording = .system ∧ 2 ≤ args.length ∧ args.length ≤ 5 then
    match (args.head?.bind Datum.toInt?).bind (systemNames.lookup ·) with
    | some name => { kind with name := name, qualified := name }
    | none => kind
  else kind

end ThrownKind

structure Thrown where
  kind : ThrownKind
  args : List Datum
  /-- Whether it was raised, and so passed through the frames of a body. -/
  raised : Bool

namespace Thrown

def make (kind : ThrownKind) (args : List Datum) (raised : Bool) : Thrown :=
  ⟨kind.named args, args, raised⟩

def amountTooLarge : Thrown :=
  ⟨.builtin "ValueError", [.text "cannot fit 'int' into an index-sized integer"], true⟩

/-- An exception as its type makes it from arguments, unless it refuses them with another one. -/
def build (kind : ThrownKind) (args : List Datum) (raised : Bool) : Except Thrown Thrown :=
  let t := make kind args raised
  match if args.length ≤ 5 then t.kind.progress? (args.drop 2) else none with
  | some n =>
    if -9223372036854775808 ≤ n ∧ n ≤ 9223372036854775807 then .ok t else .error amountTooLarge
  | none => .ok t

def isBrokenPipe (t : Thrown) : Bool :=
  t.kind.wording = .system && 2 ≤ t.args.length && t.args.length ≤ 5 &&
    match t.args.head? with
    | some (.number n) => n = 32
    | _ => false

def frames : String := "  File \"suite.py\", line 1, in body\n"

def plainText : List Datum → String
  | [] => ""
  | [d] => d.shown
  | args => Datum.tupleText args

/-- The file names of a system error, which follow its number and message: the first and, two
places on, the second. -/
def fileNames : List Datum → List Datum
  | [] | .null :: _ => []
  | [first, _, .null] => [first]
  | first :: _ :: second :: _ => [first, second]
  | first :: _ => [first]

def systemText (kind : ThrownKind) : List Datum → String
  | code :: message :: files =>
    if files.length ≤ 3 then
      let base := "[Errno " ++ code.shown ++ "] " ++ message.shown
      match if (kind.progress? files).isSome then [] else fileNames files with
      | [] => base
      | names => base ++ ": " ++ String.intercalate " -> " (Datum.quotedItems names)
    else plainText (code :: message :: files)
  | args => plainText args

def text (t : Thrown) : String :=
  match t.kind.wording with
  | .plain => plainText t.args
  | .key => match t.args with
    | [d] => d.quoted
    | args => plainText args
  | .system => systemText t.kind t.args

end Thrown

end TestRun
