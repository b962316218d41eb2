import TestRun.Text.Digits
import TestRun.Text.Printable
set_option autoImplicit false

namespace TestRun.Text

/-- A single quote, unless the text holds single quotes and no double quote. -/
def quoteMark (s : String) : Char :=
  if s.toList.contains '\'' && !s.toList.contains '"' then '"' else '\''

def quotedChar (mark c : Char) : List Char :=
  if c = mark ∨ c = '\\' then ['\\', c]
  else if c = '\n' then ['\\', 'n']
  else if c = '\r' then ['\\', 'r']
  else if c = '\t' then ['\\', 't']
  else if isPrintable c then [c]
  else if c.toNat < 0x100 then '\\' :: 'x' :: digits 16 2 c.toNat
  else if c.toNat < 0x10000 then '\\' :: 'u' :: digits 16 4 c.toNat
  else '\\' :: 'U' :: digits 16 8 c.toNat

def quoted (s : String) : String :=
  let mark := quoteMark s
  String.ofList (mark :: s.toList.flatMap (quotedChar mark) ++ [mark])

end TestRun.Text
