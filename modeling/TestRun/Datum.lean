import TestRun.Text.Quoted
set_option autoImplicit false

namespace TestRun

open Text

inductive Datum
  | null
  | flag (b : Bool)
  | number (n : Int)
  | text (s : String)
  | list (items : List Datum)
  | record (fields : List (String × Datum))

namespace Datum

instance : Inhabited Datum := ⟨.null⟩

def toInt? : Datum → Option Int
  | number n => some n
  | flag b => some (if b then 1 else 0)
  | _ => none

/-- Nothing, zero and whatever is empty count as false. -/
def isTruthy : Datum → Bool
  | null => false
  | flag b => b
  | number n => n != 0
  | text s => !s.isEmpty
  | list items => !items.isEmpty
  | record fields => !fields.isEmpty

mutual

def quoted : Datum → String
  | null => "None"
  | flag true => "True"
  | flag false => "False"
  | number n => signedDecimal n
  | text s => Text.quoted s
  | list items => "[" ++ String.intercalate ", " (quotedItems items) ++ "]"
  | record fields => "\x7b" ++ String.intercalate ", " (quotedFields fields) ++ "\x7d"

def quotedItems : List Datum → List String
  | [] => []
  | d :: rest => d.quoted :: quotedItems rest

def quotedFields : List (String × Datum) → List String
  | [] => []
  | (k, d) :: rest => (Text.quoted k ++ ": " ++ d.quoted) :: quotedFields rest

end

def shown : Datum → String
  | text s => s
  | d => d.quoted

def tupleText (items : List Datum) : String :=
  "(" ++ String.intercalate ", " (quotedItems items) ++ ")"

end Datum

end TestRun
