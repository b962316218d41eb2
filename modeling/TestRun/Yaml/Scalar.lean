import TestRun.Text.Digits
import TestRun.Yaml.Cursor
set_option autoImplicit false

namespace TestRun.Yaml

open Text

/-- The text that joins two lines: the breaks between them but one, or a space. -/
def joint (first : Char) (more : List Char) : List Char :=
  if first != '\n' then first :: more else if more.isEmpty then [' '] else more

def endsPlain (inFlow : Bool) (x : Char) (rest : List Char) : Bool :=
  isBlankOrEnd x ||
    (x == ':' && (isBlankOrEnd (rest.headD '\x00') ||
      (inFlow && [',', '[', ']', '\x7b', '\x7d'].contains (rest.headD '\x00')))) ||
    (inFlow && [',', '?', '[', ']', '\x7b', '\x7d'].contains x)

def plainRun (inFlow : Bool) : List Char → List Char
  | [] => []
  | x :: rest => if endsPlain inFlow x rest then [] else x :: plainRun inFlow rest

structure Gap where
  /-- The text they stand for; none before the mark of a document. -/
  text : List Char
  cursor : Cursor
  crossed : Bool

/-- The further breaks of a gap; `none` where the mark of a document stops it. -/
def gapBreaks : Nat → Cursor → List Char → Option (List Char) × Cursor
  | 0, c, acc => (some acc.reverse, c)
  | steps + 1, c, acc =>
    if c.peek == ' ' then gapBreaks steps c.next acc
    else match c.lineBreak? with
      | none => (some acc.reverse, c)
      | some (b, c) => if c.atSeparator then (none, c) else gapBreaks steps c (b :: acc)

def plainGap (c : Cursor) : Gap :=
  let (blanks, c) := c.span (· == ' ')
  match c.lineBreak? with
  | none => ⟨blanks, c, false⟩
  | some (b, c) =>
    if c.atSeparator then ⟨[], c, true⟩
    else match gapBreaks c.rest.length c [] with
      | (none, c) => ⟨[], c, true⟩
      | (some more, c) => ⟨joint b more, c, true⟩

structure Scalar where
  text : CodeText
  isPlain : Bool
  cursor : Cursor
  /-- Whether it was left on another line than it ended on. -/
  crossed : Bool

/-- The parts of a plain scalar from a place on; `gap` stands before the next part. -/
def plainParts (inFlow : Bool) (margin : Int) : Nat → Gap → List Char → Scalar
  | 0, gap, acc => ⟨.ofChars acc, true, gap.cursor, gap.crossed⟩
  | steps + 1, gap, acc =>
    let run := plainRun inFlow gap.cursor.rest
    if gap.cursor.peek == '#' || run.isEmpty then
      ⟨.ofChars acc, true, gap.cursor, gap.crossed⟩
    else
      let acc := acc ++ gap.text ++ run
      let gap := plainGap (gap.cursor.skip run.length)
      if gap.text.isEmpty || gap.cursor.peek == '#' ||
          (!inFlow && (gap.cursor.column : Int) < margin) then
        ⟨.ofChars acc, true, gap.cursor, gap.crossed⟩
      else plainParts inFlow margin steps gap acc

def scanPlain (inFlow : Bool) (margin : Int) (c : Cursor) : Scalar :=
  plainParts inFlow margin (c.rest.length + 1) ⟨[], c, false⟩ []

def escapes : List (Char × Char) :=
  [('0', '\x00'), ('a', '\x07'), ('b', '\x08'), ('t', '\t'), ('\t', '\t'), ('n', '\n'),
    ('v', '\x0b'), ('f', '\x0c'), ('r', '\r'), ('e', '\x1b'), (' ', ' '), ('"', '"'),
    ('\\', '\\'), ('/', '/'), ('N', '\u0085'), ('_', '\u00a0'), ('L', '\u2028'),
    ('P', '\u2029')]

def escapeWidth? (c : Char) : Option Nat :=
  if c == 'x' then some 2 else if c == 'u' then some 4 else if c == 'U' then some 8 else none

def quotedBreaks : Nat → Cursor → List Char → Except YamlError (List Char × Cursor)
  | 0, c, acc => .ok (acc, c)
  | steps + 1, c, acc =>
    if c.atSeparator then .error .malformed
    else
      let c := c.skipWhile fun x => x == ' ' || x == '\t'
      match c.lineBreak? with
      | none => .ok (acc, c)
      | some (b, c) => quotedBreaks steps c (acc ++ [b])

structure Quoting where
  text : CodeText
  cursor : Cursor

namespace Quoting

def add (q : Quoting) (cs : List Char) (c : Cursor) : Quoting :=
  ⟨q.text ++ .ofChars cs, c⟩

def escape (q : Quoting) : Except YamlError Quoting :=
  let c := q.cursor.next
  match escapes.lookup c.peek, escapeWidth? c.peek with
  | some x, _ => .ok (q.add [x] c.next)
  | none, some width =>
    let c := c.next
    let ds := c.rest.take width
    match ofDigits? 16 ds with
    | none => .error .malformed
    | some n =>
      if ds.length < width then .error .malformed
      else if h : n < 0x110000 then .ok ⟨q.text ++ [⟨n, h⟩], c.skip width⟩
      else .error (.noSuchCharacter n)
  | none, none =>
    match c.lineBreak? with
    | none => .error .malformed
    | some (_, c) => do
      let (more, c) ← quotedBreaks (c.rest.length + 1) c []
      pure (q.add more c)

def blanks (q : Quoting) : Except YamlError Quoting :=
  let (kept, c) := q.cursor.span fun x => x == ' ' || x == '\t'
  if c.peek == '\x00' then .error .malformed
  else match c.lineBreak? with
    | none => .ok (q.add kept c)
    | some (b, c) => do
      let (more, c) ← quotedBreaks (c.rest.length + 1) c []
      pure (q.add (joint b more) c)

def scan (isDouble : Bool) : Nat → Quoting → Except YamlError Scalar
  | 0, _ => .error .malformed
  | steps + 1, q =>
    let x := q.cursor.peek
    if x == '\'' && !isDouble && q.cursor.peekAt 1 == '\'' then
      scan isDouble steps (q.add ['\''] (q.cursor.skip 2))
    else if x == (if isDouble then '"' else '\'') then
      .ok ⟨q.text, false, q.cursor.next, false⟩
    else if x == '\\' && isDouble then do
      scan isDouble steps (← q.escape)
    else if isBlankOrEnd x then do
      scan isDouble steps (← q.blanks)
    else
      let (cs, c) := q.cursor.span fun x =>
        !(x == '\'' || x == '"' || x == '\\' || isBlankOrEnd x)
      if cs.isEmpty then scan isDouble steps (q.add [x] q.cursor.next)
      else scan isDouble steps (q.add cs c)

end Quoting

def scanQuoted (isDouble : Bool) (c : Cursor) : Except YamlError Scalar :=
  Quoting.scan isDouble (c.rest.length + 1) ⟨[], c.next⟩

/-- What becomes of the breaks at the end of a block. -/
inductive Chomping
  | clip
  | strip
  | keep
  deriving DecidableEq

def blockHead (c : Cursor) : Except YamlError (Chomping × Option Nat × Cursor) :=
  let chomping? (c : Cursor) : Option Chomping :=
    if c.peek == '+' then some .keep else if c.peek == '-' then some .strip else none
  let indent? (c : Cursor) : Option Nat := if isDigit c.peek then digitValue? c.peek else none
  let (chomping, indent, c) :=
    match chomping? c, indent? c with
    | some ch, _ =>
      let c := c.next
      match indent? c with
      | some n => (ch, some n, c.next)
      | none => (ch, none, c)
    | none, some n =>
      let c := c.next
      match chomping? c with
      | some ch => (ch, some n, c.next)
      | none => (.clip, some n, c)
    | none, none => (.clip, none, c)
  if indent == some 0 || !isSpaceOrEnd c.peek then .error .malformed
  else do pure (chomping, indent, ← c.skipLineEnd)

def blockLead : Nat → Cursor → List Char → Nat → List Char × Nat × Cursor
  | 0, c, acc, widest => (acc, widest, c)
  | steps + 1, c, acc, widest =>
    if c.peek == ' ' then blockLead steps c.next acc (max widest c.next.column)
    else match c.lineBreak? with
      | some (b, c) => blockLead steps c (acc ++ [b]) widest
      | none => (acc, widest, c)

def toColumn (column : Nat) : Nat → Cursor → Cursor
  | 0, c => c
  | steps + 1, c => if c.column < column && c.peek == ' ' then toColumn column steps c.next else c

def blockBreaks (indent : Nat) : Nat → Cursor → List Char → List Char × Cursor
  | 0, c, acc => (acc, c)
  | steps + 1, c, acc =>
    let c := toColumn indent (indent + 1) c
    match c.lineBreak? with
    | some (b, c) => blockBreaks indent steps c (acc ++ [b])
    | none => (acc, c)

/-- The lines of a block. `breaks` are the empty lines before the next one. -/
def blockLines (folded : Bool) (chomping : Chomping) (indent : Nat) :
    Nat → Cursor → List Char → List Char → List Char → Scalar
  | 0, c, _, _, acc => ⟨.ofChars acc, false, c, false⟩
  | steps + 1, c, last, breaks, acc =>
    if c.column == indent && c.peek != '\x00' then
      let flush := !(c.peek == ' ' || c.peek == '\t')
      let (line, c) := c.span fun x => !isBreakOrEnd x
      let acc := acc ++ breaks ++ line
      let (last, c) := match c.lineBreak? with
        | some (b, c) => ([b], c)
        | none => ([], c)
      let (breaks, c) := blockBreaks indent (c.rest.length + 1) c []
      if c.column == indent && c.peek != '\x00' then
        let folds := folded && last == ['\n'] && flush && !(c.peek == ' ' || c.peek == '\t')
        let acc := if folds then (if breaks.isEmpty then acc ++ [' '] else acc) else acc ++ last
        blockLines folded chomping indent steps c [] breaks acc
      else finish c last breaks acc
    else finish c last breaks acc
where
  finish (c : Cursor) (last breaks acc : List Char) : Scalar :=
    let acc := match chomping with
      | .strip => acc
      | .clip => acc ++ last
      | .keep => acc ++ last ++ breaks
    ⟨.ofChars acc, false, c, false⟩

def scanBlock (folded : Bool) (outer : Int) (c : Cursor) : Except YamlError Scalar := do
  let (chomping, given?, c) ← blockHead c.next
  let least := (max (outer + 1) 1).toNat
  let steps := c.rest.length + 1
  match given? with
  | some n =>
    let indent := least + n - 1
    let (breaks, c) := blockBreaks indent steps c []
    pure (blockLines folded chomping indent steps c [] breaks [])
  | none =>
    let (breaks, widest, c) := blockLead steps c [] 0
    pure (blockLines folded chomping (max least widest) steps c [] breaks [])

end TestRun.Yaml
