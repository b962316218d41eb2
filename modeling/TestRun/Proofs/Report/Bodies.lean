import TestRun.Proofs.Report.Document
import TestRun.Proofs.Xml.LineEnds
set_option autoImplicit false

namespace TestRun

open Time Xml

theorem cr_mem_cleanChar {c : Char} : '\r' ∈ cleanChar c ↔ c = '\r' := by
  unfold cleanChar
  split
  · simp [eq_comm]
  next hillegal =>
    refine iff_of_false (fun hmem => ?_) ?_
    · simp only [List.mem_cons, List.mem_append, List.not_mem_nil, or_false] at hmem
      rcases hmem with h | h | h | h
      · exact absurd h (by decide)
      · exact absurd h (by decide)
      · exact absurd (Nat.isDigit_of_mem_toDigits (by decide) (by decide) h) (by decide)
      · exact absurd h (by decide)
    · rintro rfl
      exact hillegal rfl

theorem cr_mem_clean {s : String} : '\r' ∈ (clean s).toList ↔ '\r' ∈ s.toList := by
  unfold clean
  rw [String.toList_ofList, List.mem_flatMap]
  simp only [cr_mem_cleanChar, exists_eq_right]

namespace Verdict

def body? : Verdict → Option String
  | success => none
  | skipped reason => some reason
  | failure cause | error cause => cause.map (·.render)

/-- What a processor delivers of an outcome: the element that tells it, its text with line ends
unified. -/
inductive DeliveredBy (v : Verdict) : List Item → Prop
  | silent : v.body? = none → v.ToldBy [] → DeliveredBy v []
  | body {tag : String} {attributes : List (String × String)} {body : String} :
      v.body? = some body → v.ToldBy [.element tag attributes (clean body) []] →
      DeliveredBy v [.element tag attributes (unifyText (clean body)) []]

theorem deliveredBy_items (v : Verdict) : v.DeliveredBy (v.items.map Item.unified) := by
  have htold := v.toldBy_items
  cases v with
  | success => exact .silent rfl htold
  | skipped reason => exact .body rfl htold
  | failure cause =>
    cases cause with
    | none => exact .silent rfl htold
    | some c => exact .body rfl htold
  | error cause =>
    cases cause with
    | none => exact .silent rfl htold
    | some c => exact .body rfl htold

end Verdict

def Testcase.DeliveredBy (t : Testcase) (item : Item) : Prop :=
  ∃ outcome, t.verdict.DeliveredBy outcome ∧
    item = .element "testcase"
      [("name", clean t.name), ("classname", clean t.className), ("time", secondsText t.time)] ""
      (.comment (unifyText (cleanComment ("Unique ID: " ++ t.id))) :: outcome)

theorem Testcase.deliveredBy_item (t : Testcase) : t.DeliveredBy t.item.unified := by
  refine ⟨_, t.verdict.deliveredBy_items, ?_⟩
  unfold Testcase.item
  rw [Item.unified, Item.unifiedAll, Item.unifiedAll_eq_map]
  rfl

namespace EngineReport

variable {r : EngineReport} {indent : Option String} {localOffset : Int} {timestamp : String}

/-- A processor delivers all attributes of a report, and the text of each outcome with its line
ends unified: as it was cleaned just where it has no carriage return. -/
theorem bodies_processed (htime : timestampText localOffset r.timestamp = .ok timestamp)
    (hindent : IsBlank indent) (hid : CommentRule (cleanComment ("Unique ID: " ++ r.id)).toList)
    (hids : ∀ t ∈ r.testcases, CommentRule (cleanComment ("Unique ID: " ++ t.id)).toList) :
    (∀ body, unifyText (clean body) = clean body ↔ '\r' ∉ body.toList) ∧
      ∃ text cases, r.render indent localOffset = .ok text ∧
        List.Forall₂ Testcase.DeliveredBy r.testcases cases ∧
        process text = some (.element "testsuite"
          [("name", clean r.name), ("tests", toString r.tests), ("skipped", toString r.skipped),
            ("failures", toString r.failures), ("errors", toString r.errors),
            ("hostname", clean r.hostName), ("time", secondsText r.time),
            ("timestamp", timestamp)] ""
          (.comment (unifyText (cleanComment ("Unique ID: " ++ r.id))) ::
            .element "properties" [] "" (r.properties.map fun p =>
              .element "property" [("name", clean p.1), ("value", clean p.2)] "" []) ::
            cases)) := by
  have hproper := proper_item (isXmlText_timestampText htime) hid hids
  have hrender : r.render indent localOffset = .ok (documentText indent (r.item timestamp)) := by
    unfold render
    rw [htime]
    rfl
  have hproperties : (r.properties.map propertyItem).map Item.unified =
      r.properties.map propertyItem := by
    rw [List.map_map]
    rfl
  refine ⟨fun body => by rw [unifyText_eq_self_iff, cr_mem_clean], _,
    (r.testcases.map Testcase.item).map Item.unified, hrender, ?_, ?_⟩
  · rw [List.map_map, List.forall₂_map_right_iff, List.forall₂_same]
    exact fun t _ => t.deliveredBy_item
  · unfold item
    rw [process_documentText hindent hproper, Item.unified, Item.unifiedAll, Item.unifiedAll,
      Item.unified, Item.unifiedAll_eq_map, Item.unifiedAll_eq_map, hproperties]
    rfl

/-- A message with a carriage return: delivered as it is in the attribute, but not in the text. -/
theorem bodies_processed_carriage :
    let boom : Cause := ⟨"suite.Boom", "a\rb", "", true⟩
    let t : Testcase := ⟨"e:t", "t", "e", 1500, .failure (some boom)⟩
    let r : EngineReport := ⟨"e", "e", "host", .epoch, 2500, [], [t]⟩
    timestampText 0 r.timestamp = .ok "1970-01-01T00:00:00" ∧ IsBlank none ∧
      CommentRule (cleanComment ("Unique ID: " ++ r.id)).toList ∧
      (∀ t ∈ r.testcases, CommentRule (cleanComment ("Unique ID: " ++ t.id)).toList) ∧
      ∃ text case, r.render none 0 = .ok text ∧ t.DeliveredBy case ∧
        process text = some (.element "testsuite"
          [("name", "e"), ("tests", "1"), ("skipped", "0"), ("failures", "1"), ("errors", "0"),
            ("hostname", "host"), ("time", "0.002"), ("timestamp", "1970-01-01T00:00:00")] ""
          [.comment "Unique ID: e", .element "properties" [] "" [], case]) ∧
        clean boom.render = "suite.Boom: a\rb" ∧
        unifyText (clean boom.render) = "suite.Boom: a\nb" := by
  intro boom t r
  have htime : timestampText 0 r.timestamp = .ok "1970-01-01T00:00:00" := by decide
  have hindent : IsBlank none := fun _ h => nomatch h
  have hid : CommentRule (cleanComment ("Unique ID: " ++ r.id)).toList := by decide
  have hids : ∀ t ∈ r.testcases, CommentRule (cleanComment ("Unique ID: " ++ t.id)).toList :=
    List.forall_mem_singleton.2 (by decide)
  obtain ⟨-, text, cases, hrender, hcases, hprocess⟩ := bodies_processed htime hindent hid hids
  obtain ⟨case, rest, hcase, hrest, rfl⟩ := List.forall₂_cons_left_iff.1 hcases
  obtain rfl := List.forall₂_nil_left_iff.1 hrest
  have hname : clean r.name = "e" := by decide
  have hhost : clean r.hostName = "host" := by decide
  have hseconds : secondsText r.time = "0.002" := by decide
  have hcomment : unifyText (cleanComment ("Unique ID: " ++ r.id)) = "Unique ID: e" := by decide
  have hcounts : toString r.tests = "1" ∧ toString r.skipped = "0" ∧ toString r.failures = "1" ∧
      toString r.errors = "0" := by decide
  obtain ⟨htests, hskipped, hfailures, herrors⟩ := hcounts
  rw [hname, hhost, hseconds, hcomment, htests, hskipped, hfailures, herrors] at hprocess
  exact ⟨htime, hindent, hid, hids, text, case, hrender, hcase, hprocess, by decide, by decide⟩

end EngineReport

end TestRun
