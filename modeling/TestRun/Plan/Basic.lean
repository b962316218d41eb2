set_option autoImplicit false

namespace TestRun

inductive NodeKind
  | engine
  | container
  | test
  deriving DecidableEq, Repr

def NodeKind.text : NodeKind → String
  | engine => "engine"
  | container => "container"
  | test => "test"

structure Identifier where
  id : String
  name : String
  parent : Option String
  kind : NodeKind
  deriving DecidableEq, Repr

namespace Identifier

def isRoot (i : Identifier) : Bool := i.parent.isNone

def isTest (i : Identifier) : Bool := i.kind = .test

end Identifier

structure Plan where
  /-- Tells apart plans that were made separately. -/
  serial : Nat
  identifiers : List Identifier
  ids_nodup : (identifiers.map (·.id)).Nodup

namespace Plan

def empty (serial : Nat) : Plan := ⟨serial, [], List.nodup_nil⟩

instance : Inhabited Plan := ⟨empty 0⟩

def size (p : Plan) : Nat := p.identifiers.length

def ids (p : Plan) : List String := p.identifiers.map (·.id)

def contains (p : Plan) (id : String) : Bool := p.ids.contains id

def get? (p : Plan) (id : String) : Option Identifier := p.identifiers.find? (·.id == id)

/-- Adds an identifier at the end; an id that is held already keeps its first identifier. -/
def add (p : Plan) (i : Identifier) : Plan :=
  if h : i.id ∈ p.ids then p
  else ⟨p.serial, p.identifiers ++ [i], by
    simp only [List.map_append, List.map_cons, List.map_nil]
    refine List.nodup_append.2 ⟨p.ids_nodup, by simp, ?_⟩
    intro a ha b hb
    simp only [List.mem_singleton] at hb
    exact fun e => h (by rw [← hb, ← e]; exact ha)⟩

def ofList (serial : Nat) (is : List Identifier) : Plan := is.foldl add (empty serial)

theorem add_of_mem {p : Plan} {i : Identifier} (h : i.id ∈ p.ids) : p.add i = p := by
  simp [add, h]

theorem identifiers_add {p : Plan} {i : Identifier} (h : i.id ∉ p.ids) :
    (p.add i).identifiers = p.identifiers ++ [i] := by
  simp [add, h]

@[simp] theorem serial_add (p : Plan) (i : Identifier) : (p.add i).serial = p.serial := by
  unfold add
  split <;> rfl

def roots (p : Plan) : List Identifier := p.identifiers.filter (·.isRoot)

def parent? (p : Plan) (i : Identifier) : Option Identifier := i.parent.bind p.get?

def children (p : Plan) (id : String) : List Identifier :=
  p.identifiers.filter fun i => i.parent == some id

end Plan

end TestRun
