import TestRun.Tree.Verdict
set_option autoImplicit false

namespace TestRun

open Time

structure Testcase where
  id : String
  name : String
  className : String
  time : Duration
  verdict : Verdict

structure EngineReport where
  id : String
  name : String
  hostName : String
  timestamp : Instant
  time : Duration
  properties : List (String × String)
  testcases : List Testcase

namespace EngineReport

def count (r : EngineReport) (o : Outcome) : Nat :=
  (r.testcases.filter fun t => t.verdict.outcome = o).length

def tests (r : EngineReport) : Nat := r.testcases.length
def skipped (r : EngineReport) : Nat := r.count .skipped
def failures (r : EngineReport) : Nat := r.count .failure
def errors (r : EngineReport) : Nat := r.count .error
def successes (r : EngineReport) : Nat := r.count .success

end EngineReport

end TestRun
