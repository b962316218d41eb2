import TestRun.Yaml.Scalar
set_option autoImplicit false

/-!
# Tokens

A document's text as a sequence of tokens. Indentation becomes explicit starts and ends of block
collections. A key without a mark of its own is known only by the colon after it, so its token is
put in front of it when the colon is reached.
-/

namespace TestRun.Yaml

open Text

inductive Token
  | version (major : Nat)
  | tagHandle (handle meaning : String)
  | otherDirective
  | documentStart
  | documentEnd
  | blockSequenceStart
  | blockMappingStart
  | blockEnd
  | flowSequenceStart
  | flowSequenceEnd
  | flowMappingStart
  | flowMappingEnd
  | blockEntry
  | flowEntry
  | key
  | value
  | alias (name : String)
  | anchor (name : String)
  /-- A tag; without a handle its suffix is the whole tag. -/
  | tag (handle? : Option String) (suffix : String)
  | scalar (text : CodeText) (isPlain : Bool)
  | streamEnd
  deriving DecidableEq, Repr

/-- A place where a key may have begun. -/
structure KeyPlace where
  flow : Nat
  /-- The number of tokens before it. -/
  position : Nat
  /-- Whether nothing but a key can stand there. -/
  isRequired : Bool
  index : Nat
  line : Nat
  column : Nat

/-- The longest key that needs no mark of its own. -/
def keyLimit : Nat := 1024

structure Reading where
  cursor : Cursor
  tokens : Array Token
  flow : Nat
  /-- The indentation of the innermost block collection, -1 outside of all. -/
  indent : Int
  outer : List Int
  /-- Whether a key without a mark may begin here. -/
  keyAllowed : Bool
  keyPlaces : List KeyPlace

abbrev Step (α : Type) : Type := Except YamlError α

namespace Reading

def ofText (cs : List Char) : Reading := ⟨.ofText cs, #[], 0, -1, [], true, []⟩

def push (r : Reading) (t : Token) : Reading := { r with tokens := r.tokens.push t }

def moveTo (r : Reading) (c : Cursor) : Reading := { r with cursor := c }

def allowKey (r : Reading) (b : Bool) : Reading := { r with keyAllowed := b }

def isStale (r : Reading) (k : KeyPlace) : Bool :=
  k.line != r.cursor.line || keyLimit < r.cursor.index - k.index

def forgetKeys (r : Reading) : Step Reading :=
  if r.keyPlaces.any fun k => r.isStale k && k.isRequired then .error .malformed
  else .ok { r with keyPlaces := r.keyPlaces.filter fun k => !r.isStale k }

def dropKey (r : Reading) : Step Reading :=
  if r.keyPlaces.any fun k => k.flow == r.flow && k.isRequired then .error .malformed
  else .ok { r with keyPlaces := r.keyPlaces.filter fun k => k.flow != r.flow }

def noteKey (r : Reading) : Step Reading :=
  if r.keyAllowed then do
    let isRequired := r.flow == 0 && r.indent == (r.cursor.column : Int)
    let place : KeyPlace :=
      ⟨r.flow, r.tokens.size, isRequired, r.cursor.index, r.cursor.line, r.cursor.column⟩
    let r ← r.dropKey
    pure { r with keyPlaces := place :: r.keyPlaces }
  else .ok r

def unwindFrom (column : Int) : List Int → Int → Array Token → List Int × Int × Array Token
  | [], indent, tokens => ([], indent, tokens)
  | o :: outer, indent, tokens =>
    if column < indent then unwindFrom column outer o (tokens.push .blockEnd)
    else (o :: outer, indent, tokens)

def unwind (r : Reading) (column : Int) : Reading :=
  if r.flow != 0 then r
  else
    let (outer, indent, tokens) := unwindFrom column r.outer r.indent r.tokens
    { r with outer := outer, indent := indent, tokens := tokens }

/-- Begins a block collection where a column is indented beyond the innermost one; its token goes
to the given position. -/
def indentTo (r : Reading) (column : Nat) (position : Nat) (start : Token) : Reading :=
  if r.indent < (column : Int) then
    { r with
      indent := column
      outer := r.indent :: r.outer
      tokens := r.tokens.insertIdxIfInBounds position start }
  else r

def mark (r : Reading) (length : Nat) (t : Token) : Reading :=
  (r.moveTo (r.cursor.skip length)).push t

/-- Past blanks, comments and breaks. After a break, outside of flow collections, a key may
begin. -/
def skipBlanks : Nat → Reading → Reading
  | 0, r => r
  | steps + 1, r =>
    let c := (r.cursor.skipWhile (· == ' ')).skipComment
    match c.lineBreak? with
    | none => r.moveTo c
    | some (_, c) =>
      let r := r.moveTo c
      skipBlanks steps (if r.flow == 0 then r.allowKey true else r)

def name (c : Cursor) : Step (String × Cursor) :=
  let (cs, c) := c.span isNameChar
  if cs.isEmpty then .error .malformed else .ok (String.ofList cs, c)

def tagHandle (c : Cursor) (mayBeBare : Bool) : Step (String × Cursor) :=
  if c.peek != '!' then .error .malformed
  else if mayBeBare && c.peekAt 1 == ' ' then .ok ("!", c.next)
  else
    let (cs, c) := c.next.span isNameChar
    if c.peek == '!' then .ok (String.ofList ('!' :: cs ++ ['!']), c.next)
    else .error .malformed

def isUriChar (c : Char) : Bool :=
  c.isAlphanum || "-;/?:@&=+$,_.!~*'()[]%".toList.contains c

def uriBytes : Nat → Cursor → Array UInt8 → Step (Array UInt8 × Cursor)
  | 0, c, acc => .ok (acc, c)
  | steps + 1, c, acc =>
    if c.peek == '%' then
      match hexValue? (c.peekAt 1), hexValue? (c.peekAt 2) with
      | some a, some b => uriBytes steps (c.skip 3) (acc.push (a * 16 + b).toUInt8)
      | _, _ => .error .malformed
    else .ok (acc, c)

def uriChars : Nat → Cursor → List Char → Step (List Char × Cursor)
  | 0, c, acc => .ok (acc, c)
  | steps + 1, c, acc =>
    if c.peek == '%' then do
      let (bytes, c) ← uriBytes c.rest.length c #[]
      match String.fromUTF8? ⟨bytes⟩ with
      | some s => uriChars steps c (acc ++ s.toList)
      | none => throw .malformed
    else if isUriChar c.peek then uriChars steps c.next (acc ++ [c.peek])
    else .ok (acc, c)

def uri (c : Cursor) : Step (String × Cursor) :=
  if isUriChar c.peek then do
    let (cs, c) ← uriChars c.rest.length c []
    pure (String.ofList cs, c)
  else .error .malformed

def versionNumber (c : Cursor) : Step (Nat × Cursor) :=
  let (ds, c) := c.span isDigit
  match ofDigits? 10 ds with
  | none => .error .malformed
  | some n => if digitLimit < ds.length then .error (.tooManyDigits ds.length) else .ok (n, c)

def directive (c : Cursor) : Step (Token × Cursor) := do
  let (name, c) ← name c.next
  if !isSpaceOrEnd c.peek then throw .malformed
  let skip (c : Cursor) : Cursor := c.skipWhile (· == ' ')
  if name = "YAML" then
    let (major, c) ← versionNumber (skip c)
    if c.peek != '.' then throw .malformed
    let (_, c) ← versionNumber c.next
    if !isSpaceOrEnd c.peek then throw .malformed
    pure (.version major, ← c.skipLineEnd)
  else if name = "TAG" then
    let (handle, c) ← tagHandle (skip c) true
    if c.peek != ' ' then throw .malformed
    let (meaning, c) ← uri (skip c)
    if !isSpaceOrEnd c.peek then throw .malformed
    pure (.tagHandle handle meaning, ← c.skipLineEnd)
  else
    pure (.otherDirective, ← (c.skipWhile fun x => !isBreakOrEnd x).skipLineEnd)

def reference (make : String → Token) (c : Cursor) : Step (Token × Cursor) := do
  let (name, c) ← name c.next
  if isBlankOrEnd c.peek || "?:,]\x7d%@`".toList.contains c.peek then pure (make name, c)
  else throw .malformed

def tag (c : Cursor) : Step (Token × Cursor) := do
  let (t, c) ←
    if c.peekAt 1 == '<' then do
      let (suffix, c) ← uri (c.skip 2)
      if c.peek != '>' then throw .malformed
      pure (Token.tag none suffix, c.next)
    else if isBlankOrEnd (c.peekAt 1) then pure (Token.tag none "!", c.next)
    else if ((c.rest.drop 1).takeWhile fun x => !isSpaceOrEnd x).contains '!' then do
      let (handle, c) ← tagHandle c false
      let (suffix, c) ← uri c
      pure (Token.tag (some handle) suffix, c)
    else do
      let (suffix, c) ← uri c.next
      pure (Token.tag (some "!") suffix, c)
  if isSpaceOrEnd c.peek then pure (t, c) else throw .malformed

/-- A token that may begin a key: an alias, an anchor, a tag. -/
def property (r : Reading) (scan : Cursor → Step (Token × Cursor)) : Step Reading := do
  let r ← r.noteKey
  let (t, c) ← scan r.cursor
  pure (((r.allowKey false).moveTo c).push t)

def addScalar (r : Reading) (s : Scalar) (mayKeyFollow : Bool) : Reading :=
  ((r.allowKey mayKeyFollow).moveTo s.cursor).push (.scalar s.text s.isPlain)

def outermost (r : Reading) : Step Reading := do
  let r ← (r.unwind (-1)).dropKey
  pure (r.allowKey false)

def flowStart (r : Reading) (t : Token) : Step Reading := do
  let r ← r.noteKey
  pure (({ r with flow := r.flow + 1 }.allowKey true).mark 1 t)

def flowEnd (r : Reading) (t : Token) : Step Reading := do
  if r.flow == 0 then throw .malformed
  let r ← r.dropKey
  pure (({ r with flow := r.flow - 1 }.allowKey false).mark 1 t)

/-- Begins a block collection at the cursor, outside of flow collections, where a key may
begin. -/
def blockStart (r : Reading) (start : Token) : Step Reading :=
  if r.flow != 0 then .ok r
  else if !r.keyAllowed then .error .malformed
  else .ok (r.indentTo r.cursor.column r.tokens.size start)

def blockEntry (r : Reading) : Step Reading := do
  let r ← (← r.blockStart .blockSequenceStart).dropKey
  pure ((r.allowKey true).mark 1 .blockEntry)

def key (r : Reading) : Step Reading := do
  let r ← (← r.blockStart .blockMappingStart).dropKey
  pure ((r.allowKey (r.flow == 0)).mark 1 .key)

/-- A colon makes a key of what began at the noted place. -/
def value (r : Reading) : Step Reading := do
  match r.keyPlaces.find? fun k => k.flow == r.flow with
  | some k =>
    let r := { r with
      keyPlaces := r.keyPlaces.filter fun k => k.flow != r.flow
      tokens := r.tokens.insertIdxIfInBounds k.position .key }
    let r := if r.flow == 0 then r.indentTo k.column k.position .blockMappingStart else r
    pure ((r.allowKey false).mark 1 .value)
  | none =>
    let r ← (← r.blockStart .blockMappingStart).dropKey
    pure ((r.allowKey (r.flow == 0)).mark 1 .value)

def startsPlain (r : Reading) : Bool :=
  let x := r.cursor.peek
  let marks := "-?:,[]\x7b\x7d#&*!|>'\"%@`".toList
  !(isBlankOrEnd x || marks.contains x) ||
    (!isBlankOrEnd (r.cursor.peekAt 1) && (x == '-' || (r.flow == 0 && (x == '?' || x == ':'))))

def token (r : Reading) : Step Reading := do
  let c := r.cursor
  let x := c.peek
  let inFlow := r.flow != 0
  let isMark := isBlankOrEnd (c.peekAt 1)
  if x == '%' && c.column == 0 then
    let r ← r.outermost
    let (t, c) ← directive c
    pure ((r.moveTo c).push t)
  else if c.column == 0 && c.marks '-' then pure ((← r.outermost).mark 3 .documentStart)
  else if c.column == 0 && c.marks '.' then pure ((← r.outermost).mark 3 .documentEnd)
  else if x == '[' then r.flowStart .flowSequenceStart
  else if x == '\x7b' then r.flowStart .flowMappingStart
  else if x == ']' then r.flowEnd .flowSequenceEnd
  else if x == '\x7d' then r.flowEnd .flowMappingEnd
  else if x == ',' then pure ((← (r.allowKey true).dropKey).mark 1 .flowEntry)
  else if x == '-' && isMark then r.blockEntry
  else if x == '?' && (inFlow || isMark) then r.key
  else if x == ':' && (inFlow || isMark) then r.value
  else if x == '*' then r.property (reference .alias)
  else if x == '&' then r.property (reference .anchor)
  else if x == '!' then r.property tag
  else if (x == '|' || x == '>') && !inFlow then
    let r ← (r.allowKey true).dropKey
    pure (r.addScalar (← scanBlock (x == '>') r.indent c) true)
  else if x == '\'' || x == '"' then
    let r ← r.noteKey
    pure (r.addScalar (← scanQuoted (x == '"') c) false)
  else if r.startsPlain then
    let r ← r.noteKey
    let s := scanPlain inFlow (r.indent + 1) c
    pure (r.addScalar s s.crossed)
  else throw .malformed

/-- The number of tokens that no key can change any more. -/
def settled (r : Reading) : Nat :=
  (r.keyPlaces.filter fun k => !r.isStale k).foldl (fun least k => min least k.position)
    r.tokens.size

def advance (r : Reading) : Step Reading := do
  let r ← (skipBlanks (r.cursor.rest.length + 1) r).forgetKeys
  let r := r.unwind r.cursor.column
  if r.cursor.rest.isEmpty then pure ((← (r.unwind (-1)).dropKey).push .streamEnd)
  else r.token

/-- Reads to the end of the text, or to the first error, which comes after the tokens that were
settled before it. -/
def run : Nat → Reading → List Token × Option YamlError
  | 0, r => (r.tokens.toList, some .malformed)
  | steps + 1, r =>
    if r.tokens.back? = some .streamEnd then (r.tokens.toList, none)
    else match r.advance with
      | .error e => (r.tokens.toList.take r.settled, some e)
      | .ok r => run steps r

end Reading

def tokens (cs : List Char) : List Token × Option YamlError :=
  let r := Reading.ofText cs
  let r := if r.cursor.peek == '\ufeff' then r.moveTo r.cursor.next else r
  r.run (cs.length + 3)

end TestRun.Yaml
