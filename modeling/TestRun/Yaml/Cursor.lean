import TestRun.Yaml.Error
set_option autoImplicit false

namespace TestRun.Yaml

def isBreak (c : Char) : Bool :=
  c == '\r' || c == '\n' || c == '\u0085' || c == '\u2028' || c == '\u2029'

def isBreakOrEnd (c : Char) : Bool := isBreak c || c == '\x00'

def isSpaceOrEnd (c : Char) : Bool := isBreakOrEnd c || c == ' '

def isBlankOrEnd (c : Char) : Bool := isSpaceOrEnd c || c == '\t'

def isDigit (c : Char) : Bool := '0' ≤ c && c ≤ '9'

def isNameChar (c : Char) : Bool := c.isAlphanum || c == '-' || c == '_'

def isAdmitted (c : Char) : Bool :=
  let n := c.toNat
  n == 9 || n == 10 || n == 13 || (0x20 ≤ n && n ≤ 0x7e) || n == 0x85 ||
    (0xa0 ≤ n && n ≤ 0xd7ff) || (0xe000 ≤ n && n ≤ 0xfffd) || 0x10000 ≤ n

structure Cursor where
  rest : List Char
  index : Nat
  line : Nat
  column : Nat

namespace Cursor

def ofText (cs : List Char) : Cursor := ⟨cs, 0, 0, 0⟩

def peekAt (c : Cursor) (n : Nat) : Char := c.rest.getD n '\x00'

def peek (c : Cursor) : Char := c.peekAt 0

/-- One character on. A byte order mark has no width. -/
def next (c : Cursor) : Cursor :=
  match c.rest with
  | [] => c
  | x :: rest =>
    if x == '\n' || x == '\u0085' || x == '\u2028' || x == '\u2029' ||
        (x == '\r' && rest.head? != some '\n') then
      ⟨rest, c.index + 1, c.line + 1, 0⟩
    else if x == '\ufeff' then ⟨rest, c.index + 1, c.line, c.column⟩
    else ⟨rest, c.index + 1, c.line, c.column + 1⟩

def skip (c : Cursor) : Nat → Cursor
  | 0 => c
  | n + 1 => c.next.skip n

def span (c : Cursor) (p : Char → Bool) : List Char × Cursor :=
  let cs := c.rest.takeWhile p
  (cs, c.skip cs.length)

def skipWhile (c : Cursor) (p : Char → Bool) : Cursor := (c.span p).2

/-- A line break ahead, read as a line feed unless it is one of the two separators. -/
def lineBreak? (c : Cursor) : Option (Char × Cursor) :=
  if c.peek == '\r' && c.peekAt 1 == '\n' then some ('\n', c.skip 2)
  else if c.peek == '\u2028' || c.peek == '\u2029' then some (c.peek, c.next)
  else if isBreak c.peek then some ('\n', c.next)
  else none

def marks (c : Cursor) (x : Char) : Bool :=
  c.peek == x && c.peekAt 1 == x && c.peekAt 2 == x && isBlankOrEnd (c.peekAt 3)

def atSeparator (c : Cursor) : Bool := c.marks '-' || c.marks '.'

def skipComment (c : Cursor) : Cursor :=
  if c.peek == '#' then c.skipWhile (fun x => !isBreakOrEnd x) else c

def skipLineEnd (c : Cursor) : Except YamlError Cursor :=
  let c := (c.skipWhile (· == ' ')).skipComment
  match c.lineBreak? with
  | some (_, c) => .ok c
  | none => if isBreakOrEnd c.peek then .ok c else .error .malformed

end Cursor

end TestRun.Yaml
