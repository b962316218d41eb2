set_option autoImplicit false

namespace TestRun.Text

/-- What follows an escape sequence, if a text begins with one: an escape, a bracket, parameters
and a letter. -/
def afterSequence? : List Char → Option (List Char)
  | '\x1b' :: '[' :: rest =>
    match rest.dropWhile fun c => c.isDigit || c == ';' || c == '?' with
    | c :: more => if c.isAlpha then some more else none
    | [] => none
  | _ => none

def dropSequences : Nat → List Char → List Char
  | 0, cs => cs
  | steps + 1, cs =>
    match afterSequence? cs, cs with
    | some more, _ => dropSequences steps more
    | none, c :: rest => c :: dropSequences steps rest
    | none, [] => []

def withoutSequences (s : String) : String :=
  String.ofList (dropSequences s.toList.length s.toList)

end TestRun.Text
