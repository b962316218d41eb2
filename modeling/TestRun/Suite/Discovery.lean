import TestRun.Suite.Basic
set_option autoImplicit false

namespace TestRun

namespace SuiteNode

mutual

def listing (parent? : Option String) : SuiteNode → List (Identifier × SuiteNode)
  | test label body? => [((test label body?).identifier parent?, test label body?)]
  | group isEngine label hooks children =>
    let node := group isEngine label hooks children
    (node.identifier parent?, node) :: listingAll (some (node.uniqueId parent?)) children

def listingAll (parent? : Option String) : List SuiteNode → List (Identifier × SuiteNode)
  | [] => []
  | n :: rest => listing parent? n ++ listingAll parent? rest

end

end SuiteNode

/-- What discovery finds: the identifiers in order, and the node of each. -/
structure Discovery where
  identifiers : List Identifier
  nodes : Table String SuiteNode

namespace Discovery

def empty : Discovery := ⟨[], .empty⟩

/-- Adds a node, unless its unique id is taken. -/
def add (d : Discovery) (entry : Identifier × SuiteNode) : Except Fault Discovery :=
  if (d.nodes.get? entry.1.id).isSome then .error (.duplicateId entry.1.id)
  else .ok ⟨d.identifiers ++ [entry.1], d.nodes.set entry.1.id entry.2⟩

def ofForest (forest : List SuiteNode) : Except Fault Discovery :=
  (SuiteNode.listingAll none forest).foldlM add empty

end Discovery

end TestRun
