import TestRun.Text.Quoted
set_option autoImplicit false

namespace TestRun.Package

def name : String := "reportkit"

def qualified (path : String) : String := name ++ "." ++ path

def suites : String := qualified "testsuites"

def offered : List (String × String) :=
  [("TestRunner", qualified "runners.runner.TestRunner"),
    ("XmlReportsWritingListener", qualified "reporters.junit.XmlReportsWritingListener"),
    ("ConsoleReporter", qualified "reporters.console.ConsoleReporter")]

structure NotOffered where
  asked : String
  deriving DecidableEq, Repr

namespace NotOffered

def typeName : String := "AttributeError"

def message (e : NotOffered) : String :=
  "module '" ++ Package.name ++ "' has no attribute " ++ Text.quoted e.asked

end NotOffered

def find (asked : String) : Except NotOffered String :=
  match offered.lookup asked with
  | some q => .ok q
  | none => .error ⟨asked⟩

end TestRun.Package
