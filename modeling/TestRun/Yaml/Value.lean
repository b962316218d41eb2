import TestRun.Yaml.Atom
set_option autoImplicit false

namespace TestRun.Yaml

open Text

inductive Value
  | atom (a : Atom)
  | sequence (items : List Nat)
  | mapping (entries : List (Atom × Nat))
  | set (members : List Atom)
  /-- A sequence of pairs of a key and a value. -/
  | pairs (entries : List (Nat × Nat))

def Value.isEmpty : Value → Bool
  | atom a => a.isEmpty
  | sequence items => items.isEmpty
  | mapping entries => entries.isEmpty
  | set members => members.isEmpty
  | pairs entries => entries.isEmpty

/-- The entries with a key set: it keeps the place and the form of an equal key. -/
def setEntry (entries : List (Atom × Nat)) (key : Atom) (value : Nat) : List (Atom × Nat) :=
  if entries.any fun e => e.1.same key then
    entries.map fun e => if e.1.same key then (e.1, value) else e
  else entries ++ [(key, value)]

structure Document where
  values : Array Value
  root : Nat

namespace Document

def get (d : Document) (i : Nat) : Value := d.values.getD i (.atom .null)

def lookup? (entries : List (Atom × Nat)) (key : String) : Option Nat :=
  (entries.find? fun e => e.1.same (.text (.ofString key))).map (·.2)

end Document

structure Making where
  nodes : Array Node
  values : Array (Option Value)
  pending : List Nat

abbrev Make (α : Type) : Type := StateT Making (Except YamlError) α

namespace Make

def fail {α : Type} : Make α := throw .malformed

def node (i : Nat) : Make Node := do pure ((← get).nodes.getD i default)

def tag (i : Nat) : Make String := do pure (← node i).tag

def setNode (i : Nat) (n : Node) : Make Unit :=
  modify fun s => { s with nodes := s.nodes.setIfInBounds i n }

def setValue (i : Nat) (v : Value) : Make Unit :=
  modify fun s => { s with values := s.values.setIfInBounds i (some v) }

/-- The text of a scalar. A mapping stands for its plain value, if it has one. -/
def scalarText : Nat → Nat → Make CodeText
  | 0, _ => throw .endless
  | steps + 1, i => do
    match ← node i with
    | .scalar _ text => pure text
    | .sequence _ _ => fail
    | .mapping _ entries =>
      match ← entries.findM? fun e => do pure ((← tag e.1) == Tag.value) with
      | some e => scalarText steps e.2
      | none => fail

def emptyCollection? (tag : String) : Option Value :=
  if tag = Tag.sequence then some (.sequence [])
  else if tag = Tag.mapping then some (.mapping [])
  else if tag = Tag.set then some (.set [])
  else if tag = Tag.orderedPairs ∨ tag = Tag.pairs then some (.pairs [])
  else none

/-- Meets a node: an atom is made at once, a collection is to be filled. -/
def meet (i : Nat) : Make Value := do
  let s ← get
  match (s.values.getD i none), emptyCollection? (← tag i) with
  | some v, _ => pure v
  | none, some v => do
    setValue i v
    modify fun s => { s with pending := s.pending ++ [i] }
    pure v
  | none, none => do
    let text ← scalarText (s.nodes.size + 1) i
    let t ← tag i
    if t = Tag.timestamp ∧ !(← node i).isScalar then throw .timestampOfMapping
    let a ← Atom.ofScalar i t text
    setValue i (.atom a)
    pure (.atom a)

def meetKey (i : Nat) : Make Atom := do
  match ← meet i with
  | .atom a => pure a
  | _ => fail

def items (i : Nat) : Make (List Nat) := do
  match ← node i with
  | .sequence _ items => pure items
  | _ => fail

def entries (i : Nat) : Make (List (Nat × Nat)) := do
  match ← node i with
  | .mapping _ entries => pure entries
  | _ => fail

def setEntries (i : Nat) (entries : List (Nat × Nat)) : Make Unit := do
  setNode i (.mapping (← tag i) entries)

mutual

/-- Takes the entries with a merge key out of a mapping, from a position on, and puts what they
name in front. The key of a plain value becomes a text. -/
def merge : Nat → Nat → Nat → List (Nat × Nat) → Make Unit
  | 0, _, _, _ => fail
  | steps + 1, i, position, merged => do
    let here ← entries i
    match here[position]? with
    | none => if !merged.isEmpty then setEntries i (merged ++ here)
    | some (k, v) => do
      let t ← tag k
      if t = Tag.merge then
        setEntries i (here.eraseIdx position)
        let more ← mergedEntries steps v
        merge steps i position (merged ++ more)
      else do
        if t = Tag.value then
          match ← node k with
          | .scalar _ text => setNode k (.scalar Tag.text text)
          | .sequence _ items => setNode k (.sequence Tag.text items)
          | .mapping _ es => setNode k (.mapping Tag.text es)
        merge steps i (position + 1) merged

def mergedEntries : Nat → Nat → Make (List (Nat × Nat))
  | 0, _ => fail
  | steps + 1, v => do
    match ← node v with
    | .scalar _ _ => fail
    | .mapping _ _ => do
      merge steps v 0 []
      entries v
    | .sequence _ items => do
      let parts ← items.mapM fun i => do
        let _ ← entries i
        merge steps i 0 []
        entries i
      pure parts.reverse.flatten

end

def allEntries (i : Nat) : Make (List (Nat × Nat)) := do
  let _ ← entries i
  let size := (← get).nodes.size + 2
  merge (size * size * size) i 0 []
  entries i

def fillMapping (i : Nat) : Make (List (Atom × Nat)) := do
  (← allEntries i).foldlM (fun acc e => do
    let key ← meetKey e.1
    let _ ← meet e.2
    pure (setEntry acc key e.2)) []

def fill (i : Nat) : Make Unit := do
  let t ← tag i
  if t = Tag.sequence then
    let is ← items i
    for j in is do
      let _ ← meet j
    setValue i (.sequence is)
  else if t = Tag.mapping then
    setValue i (.mapping (← fillMapping i))
  else if t = Tag.set then
    setValue i (.set ((← fillMapping i).map (·.1)))
  else
    let es ← (← items i).mapM fun j => do
      match ← entries j with
      | [e] => do
        let _ ← meet e.1
        let _ ← meet e.2
        pure e
      | _ => fail
    setValue i (.pairs es)

def fillAll : Nat → Make Unit
  | 0 => pure ()
  | steps + 1 => do
    match (← get).pending with
    | [] => pure ()
    | i :: rest => do
      modify fun s => { s with pending := rest }
      fill i
      fillAll steps

end Make

def Document.ofGraph (g : Graph) : Except YamlError Document := do
  let make : Make Unit := do
    let _ ← Make.meet g.root
    Make.fillAll (g.nodes.size + 1)
  let (_, s) ← make.run ⟨g.nodes, g.nodes.map fun _ => none, []⟩
  pure ⟨s.values.map fun v => v.getD (.atom .null), g.root⟩

def Document.ofText (cs : List Char) : Except YamlError (Option Document) := do
  match ← Graph.ofText cs with
  | some g => pure (some (← ofGraph g))
  | none => pure none

end TestRun.Yaml
