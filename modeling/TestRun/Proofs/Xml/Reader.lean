import Mathlib.Data.List.Infix
import TestRun.Xml.Item
set_option autoImplicit false

/-!
# A reader of elements

A machine that reads a document one character at a time and keeps the elements that are open. It
knows double-quoted attributes, whose white space becomes plain spaces, the five predefined
entities, decimal references and comments; white space beside children is dropped.
-/

namespace TestRun.Xml

def IsXmlChar (c : Char) : Prop :=
  c.toNat = 0x9 ∨ c.toNat = 0xa ∨ c.toNat = 0xd ∨ (0x20 ≤ c.toNat ∧ c.toNat ≤ 0xd7ff) ∨
    (0xe000 ≤ c.toNat ∧ c.toNat ≤ 0xfffd) ∨ (0x10000 ≤ c.toNat ∧ c.toNat ≤ 0x10ffff)

instance : DecidablePred IsXmlChar := fun _ => inferInstanceAs (Decidable (_ ∨ _))

def IsXmlText (text : String) : Prop := ∀ c ∈ text.toList, IsXmlChar c

instance : DecidablePred IsXmlText :=
  fun text => List.decidableBAll IsXmlChar text.toList

/-- The rule for comments: no two hyphens in a row, and no hyphen last. -/
def CommentRule (text : List Char) : Prop :=
  ¬ ['-', '-'] <:+: text ∧ text.getLast? ≠ some '-'

instance : DecidablePred CommentRule := fun _ => inferInstanceAs (Decidable (_ ∧ _))

namespace Reader

def isSpace (c : Char) : Bool := c = ' ' || c = '\t' || c = '\n' || c = '\r'

def isNameStart (c : Char) : Bool := c.isAlpha || c = '_' || c = ':'

def isNameChar (c : Char) : Bool := isNameStart c || c.isDigit || c = '-' || c = '.'

def isName : List Char → Bool
  | [] => false
  | c :: rest => isNameStart c && rest.all isNameChar

def numbered? (digits : List Char) : Option Char :=
  if digits.isEmpty || !digits.all Char.isDigit then none
  else
    let c := Char.ofNat (digits.foldl (fun n d => n * 10 + (d.toNat - 48)) 0)
    if IsXmlChar c then some c else none

def resolve? : List Char → Option Char
  | ['a', 'm', 'p'] => some '&'
  | ['l', 't'] => some '<'
  | ['g', 't'] => some '>'
  | ['q', 'u', 'o', 't'] => some '"'
  | ['a', 'p', 'o', 's'] => some '\''
  | '#' :: digits => numbered? digits
  | _ => none

structure Opening where
  tag : List Char
  attributes : List (String × String)

structure Frame where
  opening : Opening
  text : List Char
  children : List Item

/-- The part of the markup that comes next. -/
inductive Mode
  | content
  | reference (name : List Char)
  | angle
  | tag (name : List Char)
  /-- After the closing quote of an attribute. -/
  | quoted (o : Opening)
  | space (o : Opening)
  | attribute (o : Opening) (name : List Char)
  | equals (o : Opening) (name : List Char)
  | value (o : Opening) (name value : List Char)
  | valueReference (o : Opening) (name value reference : List Char)
  /-- After the slash of an element without content. -/
  | slash (o : Opening)
  | closing (name : List Char)
  | bang
  | bangHyphen
  | comment (text : List Char)
  | hyphen (text : List Char)
  | hyphens (text : List Char)

/-- The innermost open element, those around it from the inside out, and what comes next. The
outermost is the document itself. -/
structure State where
  frame : Frame
  outer : List Frame
  mode : Mode

def Frame.close? (f : Frame) : Option Item :=
  match f.children with
  | [] => some (.element (String.ofList f.opening.tag) f.opening.attributes (String.ofList f.text) [])
  | child :: rest =>
    if f.text.all isSpace then
      some (.element (String.ofList f.opening.tag) f.opening.attributes "" (child :: rest))
    else none

def Frame.addText (f : Frame) (cs : List Char) : Frame := { f with text := f.text ++ cs }

def Frame.addChild (f : Frame) (item : Item) : Frame := { f with children := f.children ++ [item] }

namespace State

def turn (s : State) (mode : Mode) : State := { s with mode := mode }

def inContent (s : State) (c : Char) : Option State :=
  if c = '<' then some (s.turn .angle)
  else if c = '&' then some (s.turn (.reference []))
  else if c = '>' && [']', ']'].isSuffixOf s.frame.text then none
  else some { s with frame := s.frame.addText [c] }

def inReference (s : State) (name : List Char) (c : Char) : Option State :=
  if c = ';' then
    (resolve? name).map fun d => { s with frame := s.frame.addText [d], mode := .content }
  else some (s.turn (.reference (name ++ [c])))

def afterAngle (s : State) (c : Char) : Option State :=
  if c = '/' then some (s.turn (.closing []))
  else if c = '!' then some (s.turn .bang)
  else if isNameStart c then some (s.turn (.tag [c]))
  else none

def inTag (s : State) (o : Opening) (c : Char) : Option State :=
  if isSpace c then some (s.turn (.space o))
  else if c = '/' then some (s.turn (.slash o))
  else if c = '>' then some ⟨⟨o, [], []⟩, s.frame :: s.outer, .content⟩
  else none

def inValue (s : State) (o : Opening) (name value : List Char) (c : Char) : Option State :=
  if c = '"' then
    if String.ofList name ∈ o.attributes.map (·.1) then none
    else some (s.turn (.quoted
      ⟨o.tag, o.attributes ++ [(String.ofList name, String.ofList value)]⟩))
  else if c = '<' then none
  else if c = '&' then some (s.turn (.valueReference o name value []))
  else some (s.turn (.value o name (value ++ [if isSpace c then ' ' else c])))

def inValueReference (s : State) (o : Opening) (name value reference : List Char) (c : Char) :
    Option State :=
  if c = ';' then (resolve? reference).map fun d => s.turn (.value o name (value ++ [d]))
  else some (s.turn (.valueReference o name value (reference ++ [c])))

def close (s : State) (name : List Char) : Option State :=
  match s.outer with
  | [] => none
  | f :: outer =>
    if name = s.frame.opening.tag then
      s.frame.close?.map fun item => ⟨f.addChild item, outer, .content⟩
    else none

def add (s : State) (item : Item) : State := ⟨s.frame.addChild item, s.outer, .content⟩

def step (s : State) (c : Char) : Option State :=
  match s.mode with
  | .content => s.inContent c
  | .reference name => s.inReference name c
  | .angle => s.afterAngle c
  | .tag name =>
    if isNameChar c then some (s.turn (.tag (name ++ [c]))) else s.inTag ⟨name, []⟩ c
  | .quoted o => s.inTag o c
  | .space o => if isNameStart c then some (s.turn (.attribute o [c])) else s.inTag o c
  | .attribute o name =>
    if isNameChar c then some (s.turn (.attribute o (name ++ [c])))
    else if c = '=' then some (s.turn (.equals o name))
    else none
  | .equals o name => if c = '"' then some (s.turn (.value o name [])) else none
  | .value o name value => s.inValue o name value c
  | .valueReference o name value reference => s.inValueReference o name value reference c
  | .slash o =>
    if c = '>' then some (s.add (.element (String.ofList o.tag) o.attributes "" [])) else none
  | .closing name =>
    if isNameChar c then some (s.turn (.closing (name ++ [c])))
    else if c = '>' then s.close name
    else none
  | .bang => if c = '-' then some (s.turn .bangHyphen) else none
  | .bangHyphen => if c = '-' then some (s.turn (.comment [])) else none
  | .comment text =>
    if c = '-' then some (s.turn (.hyphen text)) else some (s.turn (.comment (text ++ [c])))
  | .hyphen text =>
    if c = '-' then some (s.turn (.hyphens text))
    else some (s.turn (.comment (text ++ ['-', c])))
  | .hyphens text => if c = '>' then some (s.add (.comment (String.ofList text))) else none

def run (s : State) (cs : List Char) : Option State := cs.foldlM step s

end State

def start : State := ⟨⟨⟨[], []⟩, [], []⟩, [], .content⟩

def root? (s : State) : Option Item :=
  match s.mode, s.outer, s.frame.children with
  | .content, [], [.element tag attributes text children] =>
    if s.frame.text.all isSpace then some (.element tag attributes text children) else none
  | _, _, _ => none

def afterDeclaration : List Char → List Char
  | '?' :: '>' :: rest => rest
  | _ :: rest => afterDeclaration rest
  | [] => []

def body : List Char → List Char
  | '<' :: '?' :: 'x' :: 'm' :: 'l' :: ' ' :: rest => afterDeclaration rest
  | cs => cs

end Reader

def read (document : String) : Option Item :=
  (Reader.start.run (Reader.body document.toList)).bind Reader.root?

end TestRun.Xml
