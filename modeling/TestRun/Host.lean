import TestRun.Table
import TestRun.Text.CodeText
import TestRun.Thrown
set_option autoImplicit false

namespace TestRun

open Text

structure Host where
  separator : String
  pathSeparator : String
  lineSeparator : String
  system : String
  release : String
  machine : String
  runtimeVersion : String
  runtimeName : String
  executable : String
  directory : String
  /-- The user's name, or what looking it up raises. -/
  user : Except Thrown String
  name : String
  environment : List (CodeText × CodeText)
  family : String
  version : List Int
  /-- How many microseconds local time is ahead of universal time. -/
  localOffset : Int

namespace Host

/-- The user's name. A user without a name has an empty one. -/
def userName (h : Host) : Except Thrown String :=
  match h.user with
  | .ok name => .ok name
  | .error t =>
    if t.kind = .keyError ∨ t.kind.wording = .system then .ok "" else .error t

def platform (h : Host) (user : String) : List (String × String) :=
  [("file.separator", h.separator),
    ("path.separator", h.pathSeparator),
    ("line.separator", h.lineSeparator),
    ("os.name", h.system),
    ("os.version", h.release),
    ("os.arch", h.machine),
    ("python.version", h.runtimeVersion),
    ("python.implementation", h.runtimeName),
    ("python.executable", h.executable),
    ("user.dir", h.directory),
    ("user.name", user)]

def environmentRows (h : Host) : List (CodeText × CodeText) :=
  h.environment.map fun v => (.ofString "env." ++ v.1, v.2)

def coded (rows : List (String × String)) : List (CodeText × CodeText) :=
  rows.map fun r => (.ofString r.1, .ofString r.2)

def properties (h : Host) (extra : List (CodeText × CodeText)) (withEnvironment : Bool) :
    Except Thrown (List (CodeText × CodeText)) := do
  let user ← h.userName
  let table := Table.ofList (coded (h.platform user))
  let table := if withEnvironment then table.setAll h.environmentRows else table
  pure ((table.setAll extra).rows.mergeSort fun a b => a.1.isAtMost b.1)

end Host

end TestRun
