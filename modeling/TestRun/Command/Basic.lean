set_option autoImplicit false

namespace TestRun

inductive Command
  | run (suite : String) (settingsPath? directory? : Option String) (listOnly : Bool)
  | list (suite : String)
  deriving DecidableEq, Repr

namespace Command

structure Words where
  suites : List String
  settingsPath? : Option String
  directory? : Option String
  listOnly : Bool

inductive Valued
  | settingsPath
  | directory

def Words.set (w : Words) (o : Valued) (value : String) : Words :=
  match o with
  | .settingsPath => { w with settingsPath? := some value }
  | .directory => { w with directory? := some value }

inductive Word
  | plain
  | listOnly
  | valued (o : Valued) (attached? : Option String)
  | unknown

def longNames : List (String × Valued) := [("--config", .settingsPath), ("--out", .directory)]

def letters : List (Char × Valued) := [('c', .settingsPath), ('o', .directory)]

def splitValue (cs : List Char) : String × Option String :=
  let name := cs.takeWhile (· != '=')
  let value? := if name.length < cs.length then some (String.ofList (cs.drop (name.length + 1)))
    else none
  (String.ofList name, value?)

def Word.ofOption (cs : List Char) : Word :=
  let (name, value?) := splitValue cs
  match longNames.lookup name, cs with
  | some o, _ => .valued o value?
  | none, '-' :: '-' :: _ =>
    if name = "--list" ∧ value? = none then .listOnly else .unknown
  | none, '-' :: letter :: rest =>
    match letters.lookup letter with
    | some o => .valued o (if rest.isEmpty then none else some (String.ofList rest))
    | none => .unknown
  | none, _ => .unknown

def isOption (word : String) : Bool := word.startsWith "-" && word != "-"

/-- A word after the name of a command, which may have no options at all. -/
def Word.ofString (hasOptions : Bool) (word : String) : Word :=
  if !isOption word then .plain
  else if hasOptions then .ofOption word.toList
  else .unknown

def readWords (hasOptions : Bool) : List String → Words → Option Words
  | [], w => some w
  | word :: rest, w =>
    if word = "--" then some { w with suites := w.suites ++ rest }
    else match Word.ofString hasOptions word, rest with
      | .plain, rest => readWords hasOptions rest { w with suites := w.suites ++ [word] }
      | .listOnly, rest => readWords hasOptions rest { w with listOnly := true }
      | .valued o (some value), rest => readWords hasOptions rest (w.set o value)
      | .valued o none, value :: rest => readWords hasOptions rest (w.set o value)
      | .valued _ none, [] => none
      | .unknown, _ => none

def ofWords? (name : String) (words : List String) : Option Command := do
  guard (name = "run" ∨ name = "list")
  let w ← readWords (name = "run") words ⟨[], none, none, false⟩
  match w.suites with
  | [suite] =>
    some (if name = "run" then .run suite w.settingsPath? w.directory? w.listOnly
      else .list suite)
  | _ => none

/-- The command of a command line; nothing where the line is misused. -/
def ofLine? : List String → Option Command
  | "--" :: name :: words => ofWords? name words
  | name :: words => ofWords? name words
  | [] => none

end Command

end TestRun
