import TestRun.Text.Digits
set_option autoImplicit false

namespace TestRun.Settings

/-- A step from a value to a part of it. -/
inductive Place
  | name (s : String)
  | number (n : Int)
  deriving DecidableEq, Repr

inductive Complaint
  /-- Neither a mapping nor a record of the named kind. -/
  | notRecord (kind : String)
  | notMapping
  | notText
  | brokenText
  | notInteger
  | notIntegerText
  | integerTooLong
  | fractional
  | notFinite
  | belowOne
  | notTruthValue
  /-- A number or a text that names no truth value. -/
  | noTruthWord
  deriving DecidableEq, Repr

namespace Complaint

def code : Complaint → String
  | notRecord _ => "model_type"
  | notMapping => "dict_type"
  | notText => "string_type"
  | brokenText => "string_unicode"
  | notInteger => "int_type"
  | notIntegerText => "int_parsing"
  | integerTooLong => "int_parsing_size"
  | fractional => "int_from_float"
  | notFinite => "finite_number"
  | belowOne => "greater_than_equal"
  | notTruthValue => "bool_type"
  | noTruthWord => "bool_parsing"

def message : Complaint → String
  | notRecord kind => "Input should be a valid dictionary or instance of " ++ kind
  | notMapping => "Input should be a valid dictionary"
  | notText => "Input should be a valid string"
  | brokenText =>
    "Input should be a valid string, unable to parse raw data as a unicode string"
  | notInteger => "Input should be a valid integer"
  | notIntegerText =>
    "Input should be a valid integer, unable to parse string as an integer"
  | integerTooLong =>
    "Unable to parse input string as an integer, exceeded maximum size"
  | fractional => "Input should be a valid integer, got a number with a fractional part"
  | notFinite => "Input should be a finite number"
  | belowOne => "Input should be greater than or equal to 1"
  | notTruthValue => "Input should be a valid boolean"
  | noTruthWord => "Input should be a valid boolean, unable to interpret input"

end Complaint

structure Issue where
  /-- The way from the whole value to the part at fault. -/
  place : List Place
  complaint : Complaint
  deriving DecidableEq, Repr

def Place.text : Place → String
  | .name s => s
  | .number n => Text.signedDecimal n

def Issue.text (i : Issue) : String :=
  String.intercalate "." (i.place.map Place.text) ++ ": " ++ i.complaint.message
abbrev Check (α : Type) : Type := Except (List Issue) α

namespace Check

variable {α β γ : Type}

def refuse (c : Complaint) : Check α := .error [⟨[], c⟩]

def within (place : List Place) (check : Check α) : Check α :=
  check.mapError fun issues => issues.map fun i => { i with place := place ++ i.place }

/-- Joins two checks; the issues of the first come before those of the second. -/
def both (f : α → β → γ) : Check α → Check β → Check γ
  | .ok a, .ok b => .ok (f a b)
  | .ok _, .error issues => .error issues
  | .error issues, .ok _ => .error issues
  | .error first, .error second => .error (first ++ second)

end Check

end TestRun.Settings
