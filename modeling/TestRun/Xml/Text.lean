import TestRun.Text.Digits
set_option autoImplicit false

namespace TestRun.Xml

open Text

def isLegal (c : Char) : Bool :=
  c == '\t' || c == '\n' || c == '\r' || (0x20 ≤ c.toNat && c.toNat ≤ 0xd7ff) ||
    (0xe000 ≤ c.toNat && c.toNat ≤ 0xfffd) || 0x10000 ≤ c.toNat

def cleanChar (c : Char) : List Char :=
  if isLegal c then [c] else '&' :: '#' :: (decimal c.toNat ++ [';'])

def clean (s : String) : String := String.ofList (s.toList.flatMap cleanChar)

/-- Puts a space into each pair of hyphens, pair by pair from the left. -/
def splitHyphens : List Char → List Char
  | '-' :: '-' :: rest => '-' :: ' ' :: '-' :: splitHyphens rest
  | c :: rest => c :: splitHyphens rest
  | [] => []

def cleanComment (s : String) : String :=
  let cs := splitHyphens (s.toList.flatMap cleanChar)
  String.ofList (if cs.getLast? = some '-' then cs ++ [' '] else cs)

def escapeTextChar (c : Char) : List Char :=
  match c with
  | '&' => "&amp;".toList
  | '<' => "&lt;".toList
  | '>' => "&gt;".toList
  | '"' => "&quot;".toList
  | '\'' => "&apos;".toList
  | c => [c]

/-- A character of an attribute's value: white space is escaped too, for a reader would turn it
into plain spaces. -/
def escapeAttributeChar (c : Char) : List Char :=
  match c with
  | '\n' => "&#10;".toList
  | '\r' => "&#13;".toList
  | '\t' => "&#9;".toList
  | c => escapeTextChar c

def escapeText (s : String) : String := String.ofList (s.toList.flatMap escapeTextChar)

def escapeAttribute (s : String) : String := String.ofList (s.toList.flatMap escapeAttributeChar)

end TestRun.Xml
