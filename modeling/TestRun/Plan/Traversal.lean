import TestRun.Plan.Basic
set_option autoImplicit false

namespace TestRun.Plan

/-- Takes identifiers from the front of the list and puts their children there instead. -/
def unfold (p : Plan) : Nat → List Identifier → List Identifier
  | 0, _ => []
  | _ + 1, [] => []
  | steps + 1, i :: rest => i :: unfold p steps (p.children i.id ++ rest)

def descendants (p : Plan) (id : String) : List Identifier :=
  p.unfold p.size (p.children id)

def testsUnder (p : Plan) (id : String) : List Identifier :=
  (p.descendants id).filter (·.isTest)

def climb (p : Plan) : Nat → Identifier → List Identifier
  | 0, _ => []
  | steps + 1, i =>
    match p.parent? i with
    | none => []
    | some parent => parent :: climb p steps parent

def ancestors (p : Plan) (i : Identifier) : List Identifier := p.climb p.size i

end TestRun.Plan
