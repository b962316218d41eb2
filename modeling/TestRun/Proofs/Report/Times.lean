import TestRun.Proofs.Report.Counts
import TestRun.Proofs.Report.Document
import TestRun.Proofs.Time.Seconds
set_option autoImplicit false

namespace TestRun

open Xml Time

namespace Xml.Item

def time? (item : Item) : Option ℚ := (item.attribute? "time").bind Text.rational?

/-- Each testcase shows a time, not below zero and not above that of the suite. -/
def TimesFit (suite : Item) : Prop :=
  ∃ total, suite.time? = some total ∧
    ∀ c ∈ suite.tagged ["testcase"], ∃ time, c.time? = some time ∧ 0 ≤ time ∧ time ≤ total

def TimesAdd (suite : Item) : Prop :=
  ∃ (total : ℚ) (times : List ℚ), suite.time? = some total ∧
    (suite.tagged ["testcase"]).map time? = times.map some ∧ times.sum ≤ total

end Xml.Item

theorem Testcase.time?_item (t : Testcase) : t.item.time? = some (shownSeconds t.time) :=
  rational?_secondsText t.time

namespace EngineReport

theorem time?_item (r : EngineReport) (timestamp : String) :
    (r.item timestamp).time? = some (shownSeconds r.time) :=
  rational?_secondsText r.time

theorem timesFit_item {r : EngineReport} (h : ∀ c ∈ r.testcases, c.time ≤ r.time)
    (timestamp : String) : (r.item timestamp).TimesFit := by
  refine ⟨_, r.time?_item timestamp, fun item hitem => ?_⟩
  rw [tagged_testcase_item] at hitem
  obtain ⟨c, hc, rfl⟩ := List.mem_map.1 hitem
  exact ⟨_, c.time?_item, shownSeconds_nonneg _, shownSeconds_mono (h c hc)⟩

theorem timesAdd_item {r : EngineReport} (hnonneg : ∀ c ∈ r.testcases, 0 ≤ c.time)
    (hsum : (r.testcases.map (·.time)).sum ≤ r.time) (timestamp : String) :
    (r.item timestamp).TimesAdd := by
  refine ⟨_, (r.testcases.map (·.time)).map shownSeconds, r.time?_item timestamp, ?_, ?_⟩
  · rw [tagged_testcase_item, List.map_map, List.map_map, List.map_map]
    exact List.map_congr_left fun c _ => c.time?_item
  · refine le_trans (sum_shownSeconds_le fun d hd => ?_) (shownSeconds_mono hsum)
    obtain ⟨c, hc, rfl⟩ := List.mem_map.1 hd
    exact hnonneg c hc

end EngineReport

end TestRun
