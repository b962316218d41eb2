import TestRun.Text.CodeText
set_option autoImplicit false

namespace TestRun.Files

open Text

structure Path where
  /-- The slashes in front: one or two below the root, none below the working directory. -/
  slashes : Nat
  names : List CodeText
  deriving DecidableEq, Repr

namespace Path

def here : Path := ⟨0, []⟩

def slash : CodePoint := .ofChar '/'

/-- The slashes that count of those in front of a path: two stay two, more are one. -/
def slashesOf (t : CodeText) : Nat :=
  match (t.takeWhile (· == slash)).length with
  | 2 => 2
  | n => min n 1

def ofText (t : CodeText) : Path :=
  ⟨slashesOf t, (t.pieces '/').filter fun n => n != .ofString "" && n != .ofString "."⟩

def ofString (s : String) : Path := ofText (.ofString s)

def code (p : Path) : CodeText :=
  if p = here then .ofString "."
  else List.replicate p.slashes slash ++ List.intercalate [slash] p.names

def text (p : Path) : String := String.ofList p.code.shapes

def child (p : Path) (name : CodeText) : Path := ⟨p.slashes, p.names ++ [name]⟩

def ofCode (t : CodeText) : Except Unencodable Path :=
  match unencodable? 0 (ofText t).code with
  | some e => .error e
  | none => .ok (ofText t)

end Path

end TestRun.Files
