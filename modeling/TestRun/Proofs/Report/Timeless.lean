import TestRun.Report.Document
set_option autoImplicit false

namespace TestRun

open Time Xml

namespace Xml.Item

mutual

/-- The item without the attributes that tell how long something took. -/
def timeless : Item → Item
  | comment text => comment text
  | element tag attributes text children =>
    element tag (attributes.filter (·.1 != "time")) text (timelessAll children)

def timelessAll : List Item → List Item
  | [] => []
  | item :: rest => timeless item :: timelessAll rest

end

theorem timelessAll_eq_map (items : List Item) : timelessAll items = items.map timeless := by
  induction items with
  | nil => rfl
  | cons item items ih => rw [timelessAll, ih, List.map_cons]

end Xml.Item

def Testcase.timeless (t : Testcase) : Testcase := { t with time := 0 }

theorem Testcase.timeless_item (t : Testcase) : t.timeless.item.timeless = t.item.timeless := rfl

namespace EngineReport

def timeless (r : EngineReport) : EngineReport :=
  { r with time := 0, testcases := r.testcases.map Testcase.timeless }

def document (r : EngineReport) (localOffset : Int) : Except TimeError Item :=
  (timestampText localOffset r.timestamp).map r.item

theorem render_eq (r : EngineReport) (indent : Option String) (localOffset : Int) :
    r.render indent localOffset = (r.document localOffset).map (documentText indent) := by
  unfold render document
  cases timestampText localOffset r.timestamp <;> rfl

theorem count_timeless (r : EngineReport) (o : Outcome) : r.timeless.count o = r.count o := by
  unfold count timeless
  rw [List.filter_map, List.length_map]
  rfl

theorem timeless_item (r : EngineReport) (timestamp : String) :
    (r.timeless.item timestamp).timeless = (r.item timestamp).timeless := by
  have htests : r.timeless.tests = r.tests := List.length_map _
  have hcases : (r.timeless.testcases.map Testcase.item).map Item.timeless =
      (r.testcases.map Testcase.item).map Item.timeless := by
    change ((r.testcases.map Testcase.timeless).map Testcase.item).map Item.timeless = _
    simp only [List.map_map]
    exact List.map_congr_left fun t _ => t.timeless_item
  unfold item skipped failures errors
  simp only [count_timeless, htests, Item.timeless, Item.timelessAll_eq_map, List.map_cons, hcases]
  rfl

theorem timeless_document {r r' : EngineReport} (h : r.timeless = r'.timeless)
    (localOffset : Int) :
    (r.document localOffset).map Item.timeless = (r'.document localOffset).map Item.timeless := by
  have htimestamp := congrArg timestamp h
  change r.timestamp = r'.timestamp at htimestamp
  unfold document
  rw [htimestamp]
  cases timestampText localOffset r'.timestamp with
  | error e => rfl
  | ok text =>
    change Except.ok (r.item text).timeless = .ok (r'.item text).timeless
    rw [← r.timeless_item, ← r'.timeless_item, h]

end EngineReport

end TestRun
