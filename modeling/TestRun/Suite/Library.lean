import TestRun.Package
import TestRun.Suite.Environment
set_option autoImplicit false

/-!
# The library of suites

Modules that offer suites, found by dotted names. Importing a module imports its parent packages
first and may fail because a module is missing, which need not be the one asked for. A suite is
looked up among the built-in suites and then by its own name; only a missing candidate, or a
missing package above it, leads on to the next. The search needs no more than a way to import
modules, of which the library is one.
-/

namespace TestRun

inductive Offer
  | forest (nodes : List SuiteNode)
  | first (nodes : List SuiteNode)
  | nothing
  | raises (t : Thrown)
  | none

structure SuiteModule where
  name : String
  isPackage : Bool
  imports : List String
  /-- What importing it raises, and the name of a module that is missing then. -/
  raises? : Option (Thrown × Option String)
  offer : Offer

inductive ImportFault
  /-- A module is missing; its name may not be known. -/
  | missing (name? : Option String) (t : Thrown)
  | other (t : Thrown)

inductive SuiteFault
  | notFound (suite : String)
  | noDiscovery (moduleName : String)
  | raised (t : Thrown)

namespace SuiteFault

def kindName : String := "SuiteLoadError"

def typeName : SuiteFault → String
  | raised t => t.kind.name
  | _ => kindName

def text : SuiteFault → String
  | notFound suite => "Test suite " ++ Text.quoted suite ++ " not found"
  | noDiscovery name => "Test suite " ++ Text.quoted name ++ " has no discover() function"
  | raised t => t.text

def message : SuiteFault → Datum
  | raised t => (Fault.thrown t).message
  | f => .text f.text

def isRefusal (f : SuiteFault) : Bool := f.typeName == kindName

end SuiteFault

namespace ImportFault

def absent (name text : String) : ImportFault :=
  missing (some name) (.make (.builtin "ModuleNotFoundError") [.text text] true)

def ofKind (kind text : String) : ImportFault :=
  other (.make (.builtin kind) [.text text] true)

def thrown : ImportFault → Thrown
  | missing _ t => t
  | other t => t

end ImportFault

/-- A way to import modules by name. Importing one may change what is loaded. -/
abbrev Importing (σ : Type) := String → σ → Except ImportFault SuiteModule × σ

structure Library where
  modules : List SuiteModule

namespace Library

def builtins (h : Host) : List SuiteModule :=
  [⟨Package.name, true, [], none, .none⟩,
    ⟨Package.suites, true, [], none, .none⟩,
    ⟨Package.suites ++ ".environment", false, [], none, .forest (Environment.forest h)⟩]

def ofModules (h : Host) (modules : List SuiteModule) : Library := ⟨modules ++ builtins h⟩

def find? (l : Library) (name : String) : Option SuiteModule :=
  l.modules.find? (·.name == name)

def parentName? (name : String) : Option String :=
  let reversed := name.toList.reverse.dropWhile (· != '.')
  match reversed.drop 1 with
  | [] => none
  | parent => some (String.ofList parent.reverse)

def importAll (step : Importing (List SuiteModule)) :
    List String → List SuiteModule → Except ImportFault Unit × List SuiteModule
  | [], loaded => (.ok (), loaded)
  | name :: rest, loaded =>
    match step name loaded with
    | (.ok _, loaded) => importAll step rest loaded
    | (.error e, loaded) => (.error e, loaded)

def loaded? (loaded : List SuiteModule) (name : String) : Option SuiteModule :=
  loaded.find? (·.name == name)

def unload (name : String) (loaded : List SuiteModule) : List SuiteModule :=
  loaded.eraseP (·.name == name)

/-- Runs a module that was found: its imports, then what it raises. A module that fails is not
loaded. -/
def load (step : Importing (List SuiteModule)) (m : SuiteModule) (loaded : List SuiteModule) :
    Except ImportFault SuiteModule × List SuiteModule :=
  match importAll step m.imports (m :: loaded) with
  | (.error e, loaded) => (.error e, unload m.name loaded)
  | (.ok _, loaded) =>
    match m.raises? with
    | none => (.ok m, loaded)
    | some (t, name?) =>
      let fault := if t.kind.name = "ModuleNotFoundError" then .missing name? t
        else ImportFault.other t
      (.error fault, unload m.name loaded)

def importName (l : Library) : Nat → Importing (List SuiteModule)
  | 0, name, loaded => (.error (.absent name ("No module named " ++ Text.quoted name)), loaded)
  | depth + 1, name, loaded =>
    let absent (more : String) (loaded : List SuiteModule) :
        Except ImportFault SuiteModule × List SuiteModule :=
      (.error (.absent name ("No module named " ++ Text.quoted name ++ more)), loaded)
    let here (loaded : List SuiteModule) : Except ImportFault SuiteModule × List SuiteModule :=
      match l.find? name with
      | none => absent "" loaded
      | some m => load (importName l depth) m loaded
    match loaded? loaded name with
    | some m => (.ok m, loaded)
    | none =>
      if name.isEmpty then (.error (.ofKind "ValueError" "Empty module name"), loaded)
      else if name.startsWith "." then
        (.error (.ofKind "TypeError" ("the 'package' argument is required to perform a relative " ++
          "import for " ++ Text.quoted name)), loaded)
      else
        match parentName? name with
        | none => here loaded
        | some parent =>
          match importName l depth parent loaded with
          | (.error e, loaded) => (.error e, loaded)
          | (.ok above, loaded) =>
            match loaded? loaded name with
            | some m => (.ok m, loaded)
            | none =>
              if above.isPackage then here loaded
              else absent ("; " ++ Text.quoted parent ++ " is not a package") loaded

/-- No import goes deeper than this: each module is entered once, each name has fewer parents
than characters. -/
def depthBound (l : Library) (name : String) : Nat :=
  (l.modules.length + 2) *
    l.modules.foldl (fun acc m =>
      m.imports.foldl (fun acc i => acc + i.length + 1) (acc + m.name.length)) (name.length + 2)

def importModule (l : Library) : Importing (List SuiteModule) :=
  fun name => l.importName (l.depthBound name) name

/-- The names that a suite may be found under. A dotted name stands for itself alone. -/
def candidates (suite : String) : List String :=
  if suite.toList.contains '.' then [suite] else [Package.suites ++ "." ++ suite, suite]

def explains (missing candidate : String) : Bool :=
  candidate == missing || candidate.startsWith (missing ++ ".")

/-- Whether an import failed only because the candidate is missing, or a package above it. -/
def leadsOn (candidate : String) : ImportFault → Bool
  | .missing (some m) _ => explains m candidate
  | _ => false

section Search

variable {σ : Type} (importing : Importing σ)

def firstFound : List String → σ → Except Thrown (Option SuiteModule) × σ
  | [], s => (.ok none, s)
  | name :: rest, s =>
    match importing name s with
    | (.ok m, s) => (.ok (some m), s)
    | (.error f, s) => if leadsOn name f then firstFound rest s else (.error f.thrown, s)

end Search

def notIterable (kind : String) : SuiteFault :=
  .raised (.make (.builtin "TypeError") [.text ("'" ++ kind ++ "' object is not iterable")] true)

def Offer.engines (moduleName : String) : Offer → Except SuiteFault (List SuiteNode)
  | .forest nodes => .ok nodes
  | .first [] => .error (notIterable "NoneType")
  | .first (.group true label hooks children :: _) => .ok [.group true label hooks children]
  | .first (.group false _ _ _ :: _) => .error (notIterable "TestContainer")
  | .first (.test _ _ :: _) => .error (notIterable "TestCase")
  | .nothing => .error (notIterable "NoneType")
  | .raises t => .error (.raised t)
  | .none => .error (.noDiscovery moduleName)

def search {σ : Type} (importing : Importing σ) (suite : String) (s : σ) :
    Except SuiteFault (List SuiteNode) × σ :=
  match firstFound importing (candidates suite) s with
  | (.error t, s) => (.error (.raised t), s)
  | (.ok none, s) => (.error (.notFound suite), s)
  | (.ok (some m), s) => (Offer.engines m.name m.offer, s)

def findSuite (l : Library) (suite : String) : Except SuiteFault (List SuiteNode) :=
  (search l.importModule suite []).1

end Library

end TestRun
