import TestRun.Report.Basic
import TestRun.Time.Calendar
import TestRun.Xml.Item
set_option autoImplicit false

namespace TestRun

open Time Xml

def idComment (id : String) : Item := .comment (cleanComment ("Unique ID: " ++ id))

namespace Verdict

def causeItem (tag : String) (c : Cause) : Item :=
  let message := if c.message.isEmpty then [] else [("message", clean c.message)]
  .element tag (message ++ [("type", clean c.typeName)]) (clean c.render) []

def items : Verdict → List Item
  | success => []
  | skipped reason => [.element "skipped" [] (clean reason) []]
  | failure cause => (cause.map (causeItem "failure")).toList
  | error cause => (cause.map (causeItem "error")).toList

end Verdict

def Testcase.item (t : Testcase) : Item :=
  .element "testcase"
    [("name", clean t.name), ("classname", clean t.className), ("time", secondsText t.time)] ""
    (idComment t.id :: t.verdict.items)

def propertyItem (p : String × String) : Item :=
  .element "property" [("name", clean p.1), ("value", clean p.2)] "" []

namespace EngineReport

def item (r : EngineReport) (timestamp : String) : Item :=
  .element "testsuite"
    [("name", clean r.name),
      ("tests", toString r.tests),
      ("skipped", toString r.skipped),
      ("failures", toString r.failures),
      ("errors", toString r.errors),
      ("hostname", clean r.hostName),
      ("time", secondsText r.time),
      ("timestamp", timestamp)] ""
    (idComment r.id :: .element "properties" [] "" (r.properties.map propertyItem) ::
      r.testcases.map Testcase.item)

/-- The text of the report; the timestamp must lie in range on the local clock. -/
def render (r : EngineReport) (indent : Option String) (localOffset : Int) :
    Except TimeError String := do
  let timestamp ← timestampText localOffset r.timestamp
  pure (documentText indent (r.item timestamp))

end EngineReport

end TestRun
