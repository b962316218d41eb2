import TestRun.Yaml.Token
set_option autoImplicit false

/-!
# Nodes

The nodes of a document as a graph: collections name their members by number, so that an alias is
the number of the node that its anchor marks. Every node has a tag, given or found from its text.
-/

namespace TestRun.Yaml

open Text

namespace Tag

def core (name : String) : String := "tag:yaml.org,2002:" ++ name

def null := core "null"
def bool := core "bool"
def int := core "int"
def float := core "float"
def text := core "str"
def sequence := core "seq"
def mapping := core "map"
def timestamp := core "timestamp"
def binary := core "binary"
def orderedPairs := core "omap"
def pairs := core "pairs"
def set := core "set"
/-- Marks a key whose value is merged into the mapping. -/
def merge := core "merge"
def value := core "value"
/-- Of the marks of tags, anchors and aliases, which stand for nothing by themselves. -/
def mark := core "yaml"

end Tag

namespace Plain

def isDigitOrLine (c : Char) : Bool := isDigit c || c == '_'

def unsigned : List Char → List Char
  | '+' :: rest | '-' :: rest => rest
  | cs => cs

def number? (cs : List Char) : Option (List Char) :=
  match cs with
  | x :: _ => if isDigit x then some (cs.dropWhile isDigitOrLine) else none
  | [] => none

/-- Whether a text is a colon and a number below sixty, any times over; what follows must satisfy
a test. -/
def sixties (atEnd : List Char → Bool) : Nat → List Char → Bool
  | 0, _ => false
  | steps + 1, cs =>
    match cs with
    | ':' :: a :: b :: rest =>
      if isDigit a && isDigit b && a ≤ '5' then
        atEnd rest || sixties atEnd steps rest
      else isDigit a && (atEnd (b :: rest) || sixties atEnd steps (b :: rest))
    | [':', a] => isDigit a && atEnd []
    | _ => false

def isInt (cs : List Char) : Bool :=
  match unsigned cs with
  | [] => false
  | ['0'] => true
  | '0' :: 'b' :: rest => !rest.isEmpty && rest.all fun c => c == '0' || c == '1' || c == '_'
  | '0' :: 'x' :: rest => !rest.isEmpty && rest.all fun c => (Text.hexValue? c).isSome || c == '_'
  | '0' :: rest => rest.all fun c => ('0' ≤ c && c ≤ '7') || c == '_'
  | x :: rest =>
    isDigit x &&
      (rest.all isDigitOrLine ||
        sixties List.isEmpty cs.length (rest.dropWhile isDigitOrLine))

def isExponent : List Char → Bool
  | [] => true
  | e :: s :: rest =>
    (e == 'e' || e == 'E') && (s == '+' || s == '-') && !rest.isEmpty && rest.all isDigit
  | _ => false

def isFraction (mayHaveExponent : Bool) : List Char → Bool
  | '.' :: rest =>
    let tail := rest.dropWhile isDigitOrLine
    if mayHaveExponent then isExponent tail else tail.isEmpty
  | _ => false

def isFloat (cs : List Char) : Bool :=
  let body := unsigned cs
  let infinities := [".inf", ".Inf", ".INF"]
  let nans := [".nan", ".NaN", ".NAN"]
  infinities.contains (String.ofList body) || nans.contains (String.ofList cs) ||
    (match cs with
      | '.' :: rest => (number? rest).elim false isExponent
      | _ => false) ||
    match number? body with
    | none => false
    | some rest => isFraction true rest || sixties (isFraction false) cs.length rest

/-- The parts of a written timestamp; the fields of the time are missing for a mere date. -/
structure Stamp where
  year : List Char
  month : List Char
  day : List Char
  time? : Option (List Char × List Char × List Char × List Char)
  /-- The sign, the hours and the minutes of the offset; nothing for universal time. -/
  zone? : Option (Option (Char × List Char × List Char))

def digitsUpTo (least most : Nat) (cs : List Char) : Option (List Char × List Char) :=
  let ds := (cs.take most).takeWhile isDigit
  if ds.length < least then none else some (ds, cs.drop ds.length)

def expect (c : Char) : List Char → Option (List Char)
  | x :: rest => if x = c then some rest else none
  | [] => none

def isBlank (c : Char) : Bool := c == ' ' || c == '\t'

def zone? (cs : List Char) : Option (Option (Option (Char × List Char × List Char))) :=
  match cs.dropWhile isBlank with
  | [] => if cs.isEmpty then some none else none
  | ['Z'] => some (some none)
  | s :: rest => do
    guard (s = '+' ∨ s = '-')
    let (hours, rest) ← digitsUpTo 1 2 rest
    match rest with
    | [] => some (some (some (s, hours, [])))
    | _ => do
      let (minutes, rest) ← digitsUpTo 2 2 (← expect ':' rest)
      guard rest.isEmpty
      some (some (some (s, hours, minutes)))

/-- Reads a date, or a date and a time. A strict reading wants two digits for the month and the day
of a mere date. -/
def stamp? (isStrict : Bool) (cs : List Char) : Option Stamp := do
  let (year, rest) ← digitsUpTo 4 4 cs
  let (month, rest) ← digitsUpTo 1 2 (← expect '-' rest)
  let (day, rest) ← digitsUpTo 1 2 (← expect '-' rest)
  match rest with
  | [] => do
    guard (!isStrict || (month.length = 2 && day.length = 2))
    some ⟨year, month, day, none, none⟩
  | x :: after => do
    let rest ←
      if x = 'T' ∨ x = 't' then some after
      else do
        guard (isBlank x)
        some (rest.dropWhile isBlank)
    let (hour, rest) ← digitsUpTo 1 2 rest
    let (minute, rest) ← digitsUpTo 2 2 (← expect ':' rest)
    let (second, rest) ← digitsUpTo 2 2 (← expect ':' rest)
    let (fraction, rest) := match rest with
      | '.' :: rest => (rest.takeWhile isDigit, rest.dropWhile isDigit)
      | rest => ([], rest)
    let zone ← zone? rest
    some ⟨year, month, day, some (hour, minute, second, fraction), zone⟩

def boolWords : List String :=
  ["yes", "Yes", "YES", "no", "No", "NO", "true", "True", "TRUE", "false", "False", "FALSE",
    "on", "On", "ON", "off", "Off", "OFF"]

def nullWords : List String := ["", "~", "null", "Null", "NULL"]

def withoutLastFeed (cs : List Char) : List Char :=
  if cs.getLast? = some '\n' ∧ cs ≠ ['\n'] then cs.dropLast else cs

/-- The tag that a text has by itself. A line feed at its end does not matter. -/
def tagOf (text : List Char) : String :=
  let cs := withoutLastFeed text
  let s := String.ofList cs
  if boolWords.contains s then Tag.bool
  else if isFloat cs then Tag.float
  else if isInt cs then Tag.int
  else if s = "<<" then Tag.merge
  else if nullWords.contains s then Tag.null
  else if (stamp? true cs).isSome then Tag.timestamp
  else if s = "=" then Tag.value
  else if s = "!" ∨ s = "&" ∨ s = "*" then Tag.mark
  else Tag.text

end Plain

inductive Node
  | scalar (tag : String) (text : CodeText)
  | sequence (tag : String) (items : List Nat)
  | mapping (tag : String) (entries : List (Nat × Nat))
  deriving Inhabited

def Node.tag : Node → String
  | scalar t _ | sequence t _ | mapping t _ => t

def Node.isScalar : Node → Bool
  | scalar _ _ => true
  | _ => false

structure Building where
  tokens : List Token
  stop? : Option YamlError
  nodes : Array Node
  anchors : List (String × Nat)
  handles : List (String × String)

abbrev Build (α : Type) : Type := StateT Building (Except YamlError) α

namespace Build

def fail {α : Type} : Build α := throw .malformed

def peek : Build Token := do
  match (← get).tokens with
  | t :: _ => pure t
  | [] => throw ((← get).stop?.getD .malformed)

def drop : Build Unit := modify fun s => { s with tokens := s.tokens.drop 1 }

def sees (ts : List Token) : Build Bool := do pure (ts.contains (← peek))

def accept (t : Token) : Build Bool := do
  if (← peek) = t then
    drop
    pure true
  else pure false

def expect (t : Token) : Build Unit := do
  if !(← accept t) then fail

def addNode (n : Node) : Build Nat := do
  let s ← get
  set { s with nodes := s.nodes.push n }
  pure s.nodes.size

def setNode (i : Nat) (n : Node) : Build Unit :=
  modify fun s => { s with nodes := s.nodes.setIfInBounds i n }

def emptyNode : Build Nat := addNode (.scalar Tag.null [])

/-- Marks the node that is added next. An anchor must not mark two nodes. -/
def markNext (anchor? : Option String) : Build Unit := do
  match anchor? with
  | none => pure ()
  | some a =>
    let s ← get
    if (s.anchors.lookup a).isSome then fail
    set { s with anchors := (a, s.nodes.size) :: s.anchors }

def fullTag : Option String → String → Build String
  | none, suffix => pure suffix
  | some handle, suffix => do
    match (← get).handles.lookup handle with
    | some meaning => pure (meaning ++ suffix)
    | none => fail

def properties : Build (Option String × Option String) := do
  match ← peek with
  | .anchor a => do
    drop
    match ← peek with
    | .tag h s => do
      drop
      pure (some a, some (← fullTag h s))
    | _ => pure (some a, none)
  | .tag h s => do
    drop
    let anchor? ← match ← peek with
      | .anchor a => do
        drop
        pure (some a)
      | _ => pure none
    pure (anchor?, some (← fullTag h s))
  | _ => pure (none, none)

/-- The tag of a collection; a lone mark stands for the usual one. -/
def collectionTag (usual : String) : Option String → String
  | none | some "!" => usual
  | some t => t

/-- The tag of a scalar; a lone mark asks for the tag that the text has when it is plain. -/
def scalarTag (text : CodeText) (isPlain : Bool) : Option String → String
  | none => if isPlain then Plain.tagOf text.shapes else Tag.text
  | some "!" => Plain.tagOf text.shapes
  | some t => t

mutual

/-- A node. Block collections may stand only in a block, and a sequence that is not indented only
as a key or a value. The number bounds the steps. -/
def node : Nat → Bool → Bool → Build Nat
  | 0, _, _ => fail
  | steps + 1, inBlock, mayStandOut => do
    match ← peek with
    | .alias a => do
      drop
      match (← get).anchors.lookup a with
      | some i => pure i
      | none => fail
    | _ => do
      let (anchor?, tag?) ← properties
      let t ← peek
      match t with
      | .scalar text isPlain => do
        drop
        markNext anchor?
        addNode (.scalar (scalarTag text isPlain tag?) text)
      | .flowSequenceStart => do
        drop
        markNext anchor?
        let i ← addNode (.sequence (collectionTag Tag.sequence tag?) [])
        let items ← flowItems steps true []
        setNode i (.sequence (collectionTag Tag.sequence tag?) items)
        pure i
      | .flowMappingStart => do
        drop
        markNext anchor?
        let i ← addNode (.mapping (collectionTag Tag.mapping tag?) [])
        let entries ← flowEntries steps true []
        setNode i (.mapping (collectionTag Tag.mapping tag?) entries)
        pure i
      | _ =>
        if mayStandOut && t = .blockEntry then
          markNext anchor?
          let i ← addNode (.sequence (collectionTag Tag.sequence tag?) [])
          let items ← blockItems steps true []
          setNode i (.sequence (collectionTag Tag.sequence tag?) items)
          pure i
        else if inBlock && t = .blockSequenceStart then
          drop
          markNext anchor?
          let i ← addNode (.sequence (collectionTag Tag.sequence tag?) [])
          let items ← blockItems steps false []
          setNode i (.sequence (collectionTag Tag.sequence tag?) items)
          pure i
        else if inBlock && t = .blockMappingStart then
          drop
          markNext anchor?
          let i ← addNode (.mapping (collectionTag Tag.mapping tag?) [])
          let entries ← blockEntries steps []
          setNode i (.mapping (collectionTag Tag.mapping tag?) entries)
          pure i
        else if anchor?.isSome || tag?.isSome then
          markNext anchor?
          addNode (.scalar (scalarTag [] true tag?) [])
        else fail

/-- The items of a block sequence. One that stands out has no end of its own. -/
def blockItems : Nat → Bool → List Nat → Build (List Nat)
  | 0, _, _ => fail
  | steps + 1, standsOut, acc => do
    if ← accept .blockEntry then
      let closers := if standsOut then [Token.blockEntry, .key, .value, .blockEnd]
        else [Token.blockEntry, .blockEnd]
      let i ← if ← sees closers then emptyNode else node steps true false
      blockItems steps standsOut (i :: acc)
    else if standsOut then pure acc.reverse
    else do
      expect .blockEnd
      pure acc.reverse

def blockEntries : Nat → List (Nat × Nat) → Build (List (Nat × Nat))
  | 0, _ => fail
  | steps + 1, acc => do
    if ← accept .key then
      let closers := [Token.key, .value, .blockEnd]
      let k ← if ← sees closers then emptyNode else node steps true true
      let v ←
        if ← accept .value then
          if ← sees closers then emptyNode else node steps true true
        else emptyNode
      blockEntries steps ((k, v) :: acc)
    else do
      expect .blockEnd
      pure acc.reverse

/-- The items of a flow sequence. A single pair makes a mapping of its own. -/
def flowItems : Nat → Bool → List Nat → Build (List Nat)
  | 0, _, _ => fail
  | steps + 1, isFirst, acc => do
    if ← accept .flowSequenceEnd then pure acc.reverse
    else do
      if !isFirst then expect .flowEntry
      if ← accept .key then
        let closers := [Token.flowEntry, .flowSequenceEnd]
        let i ← addNode (.mapping Tag.mapping [])
        let k ← if ← sees (.value :: closers) then emptyNode else node steps false false
        let v ←
          if ← accept .value then
            if ← sees closers then emptyNode else node steps false false
          else emptyNode
        setNode i (.mapping Tag.mapping [(k, v)])
        flowItems steps false (i :: acc)
      else if ← accept .flowSequenceEnd then pure acc.reverse
      else do
        let i ← node steps false false
        flowItems steps false (i :: acc)

/-- The entries of a flow mapping. A key alone has an empty value. -/
def flowEntries : Nat → Bool → List (Nat × Nat) → Build (List (Nat × Nat))
  | 0, _, _ => fail
  | steps + 1, isFirst, acc => do
    if ← accept .flowMappingEnd then pure acc.reverse
    else do
      if !isFirst then expect .flowEntry
      if ← accept .key then
        let closers := [Token.flowEntry, .flowMappingEnd]
        let k ← if ← sees (.value :: closers) then emptyNode else node steps false false
        let v ←
          if ← accept .value then
            if ← sees closers then emptyNode else node steps false false
          else emptyNode
        flowEntries steps false ((k, v) :: acc)
      else if ← accept .flowMappingEnd then pure acc.reverse
      else do
        let k ← node steps false false
        let v ← emptyNode
        flowEntries steps false ((k, v) :: acc)

end

def usualHandles : List (String × String) := [("!", "!"), ("!!", Tag.core "")]

def directives : Nat → Bool → Build Unit
  | 0, _ => fail
  | steps + 1, hasVersion => do
    match ← peek with
    | .version major => do
      drop
      if hasVersion || major != 1 then fail
      directives steps true
    | .tagHandle handle meaning => do
      drop
      let s ← get
      if (s.handles.lookup handle).isSome then fail
      set { s with handles := (handle, meaning) :: s.handles }
      directives steps hasVersion
    | .otherDirective => do
      drop
      directives steps hasVersion
    | _ => pure ()

def dropEnds : Nat → Build Unit
  | 0 => pure ()
  | steps + 1 => do
    if ← accept .documentEnd then dropEnds steps

/-- The root of the only document; nothing where the text holds none. What follows it is read up
to the start of another document, and refused. -/
def document (steps : Nat) : Build (Option Nat) := do
  if ← accept .streamEnd then pure none
  else
    let isMarked ← match ← peek with
      | .documentStart | .version _ | .tagHandle _ _ | .otherDirective => pure true
      | _ => pure false
    let root ←
      if isMarked then do
        directives steps false
        modify fun s => { s with handles := s.handles ++ usualHandles }
        expect .documentStart
        match ← peek with
        | .documentStart | .documentEnd | .streamEnd
        | .version _ | .tagHandle _ _ | .otherDirective => emptyNode
        | _ => node steps true false
      else do
        modify fun s => { s with handles := usualHandles }
        node steps true false
    dropEnds steps
    if ← accept .streamEnd then pure (some root)
    else do
      modify fun s => { s with handles := [] }
      directives steps false
      fail

end Build

structure Graph where
  nodes : Array Node
  root : Nat

def Graph.ofText (cs : List Char) : Except YamlError (Option Graph) := do
  if !cs.all isAdmitted then throw .malformed
  let (tokens, stop?) := tokens cs
  let (root?, s) ← (Build.document (4 * tokens.length + 16)).run ⟨tokens, stop?, #[], [], []⟩
  pure (root?.map fun root => ⟨s.nodes, root⟩)

end TestRun.Yaml
