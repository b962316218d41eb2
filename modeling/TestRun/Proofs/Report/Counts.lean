import TestRun.Proofs.Listener.Watching
import TestRun.Proofs.Tree.Inheritance
set_option autoImplicit false

namespace TestRun

open Xml

namespace Verdict

def Explained : Verdict → Prop
  | success | skipped _ => True
  | failure cause? | error cause? => cause?.isSome = true

theorem explained_ofCause (c : Cause) : (ofCause c).Explained := by
  unfold ofCause
  split <;> rfl

theorem explained_ofEnding (e : Ending) : (ofEnding e).Explained := by
  cases e with
  | skipped reason => trivial
  | finished result =>
    obtain ⟨status, cause?⟩ := result
    cases status with
    | successful | aborted => trivial
    | failed => exact explained_ofCause _

theorem explained_below (ends : List Ending) (hasStarted : Bool) :
    (below ends hasStarted).Explained := by
  unfold below
  cases ends.findSome? Ending.withdrawal? with
  | some reason => trivial
  | none =>
    unfold underFailed
    cases ends.head?.bind Ending.failure? with
    | some cause => exact explained_ofCause cause
    | none => cases hasStarted <;> trivial

end Verdict

theorem Tree.explained_classify (t : Tree) (i : Identifier) : (t.classify i).Explained := by
  unfold classify
  cases (t.node? i.id).bind (·.ending) with
  | some e => exact Verdict.explained_ofEnding e
  | none =>
    rw [inherited_eq]
    exact Verdict.explained_below _ _

theorem Writer.Run.explained_of_report {run : Run} {id : String} {finishedAt? : Option Time.Instant}
    {r : EngineReport} (h : run.report id finishedAt? = .ok r) :
    ∀ t ∈ r.testcases, t.verdict.Explained := by
  intro t ht
  obtain ⟨-, htests, -⟩ := Run.report_eq_ok h
  have hrow : (t.id, t.name, t.className, t.verdict) ∈
      (run.tree.plan.testsUnder id).map fun t => (t.id, t.name, id, run.tree.classify t) := by
    rw [← htests]
    exact List.mem_map_of_mem ht
  obtain ⟨test, -, heq⟩ := List.mem_map.1 hrow
  simp only [Prod.mk.injEq] at heq
  rw [← heq.2.2.2]
  exact run.tree.explained_classify test

namespace Xml.Item

def tag? : Item → Option String
  | comment _ => none
  | element tag _ _ _ => some tag

def attribute? (name : String) : Item → Option String
  | comment _ => none
  | element _ attributes _ _ => attributes.lookup name

def children : Item → List Item
  | comment _ => []
  | element _ _ _ children => children

def hasTag (tags : List String) (item : Item) : Bool := item.tag?.any (· ∈ tags)

def tagged (tags : List String) (item : Item) : List Item := item.children.filter (hasTag tags)

def casesWith (tags : List String) (suite : Item) : List Item :=
  (suite.tagged ["testcase"]).filter fun c => !(c.tagged tags).isEmpty

def casesWithout (tags : List String) (suite : Item) : List Item :=
  (suite.tagged ["testcase"]).filter fun c => (c.tagged tags).isEmpty

/-- The numbers that a suite tells of itself are those of its testcases and of what they hold. -/
structure Reconciles (suite : Item) : Prop where
  tests_eq : suite.attribute? "tests" = some (toString (suite.tagged ["testcase"]).length)
  skipped_eq : suite.attribute? "skipped" = some (toString (suite.casesWith ["skipped"]).length)
  failures_eq : suite.attribute? "failures" = some (toString (suite.casesWith ["failure"]).length)
  errors_eq : suite.attribute? "errors" = some (toString (suite.casesWith ["error"]).length)
  one_outcome : ∀ c ∈ suite.tagged ["testcase"],
    (c.tagged ["skipped", "failure", "error"]).length ≤ 1
  typed : ∀ c ∈ suite.tagged ["testcase"], ∀ child ∈ c.tagged ["failure", "error"],
    (child.attribute? "type").isSome = true
  tests_split : (suite.tagged ["testcase"]).length =
    (suite.casesWith ["skipped"]).length + (suite.casesWith ["failure"]).length +
      (suite.casesWith ["error"]).length +
        (suite.casesWithout ["skipped", "failure", "error"]).length

end Xml.Item

def Outcome.tag? : Outcome → Option String
  | success => none
  | skipped => some "skipped"
  | failure => some "failure"
  | error => some "error"

namespace Verdict

theorem tag?_of_mem_items (v : Verdict) : ∀ item ∈ v.items, item.tag? = v.outcome.tag? := by
  cases v with
  | success => exact List.forall_mem_nil _
  | skipped reason => exact List.forall_mem_singleton.2 rfl
  | failure cause? | error cause? =>
    cases cause? with
    | none => exact List.forall_mem_nil _
    | some c => exact List.forall_mem_singleton.2 rfl

theorem length_items_le (v : Verdict) : v.items.length ≤ 1 := by
  cases v with
  | success => exact Nat.zero_le 1
  | skipped reason => exact Nat.le_refl 1
  | failure cause? | error cause? => cases cause? <;> simp [items]

theorem isEmpty_items {v : Verdict} (h : v.Explained) :
    v.items.isEmpty = v.outcome.tag?.isNone := by
  cases v with
  | success | skipped reason => rfl
  | failure cause? | error cause? =>
    cases cause? with
    | none => cases h
    | some c => rfl

theorem typed_items {v : Verdict} (h : v.outcome.tag?.any (· ∈ ["failure", "error"]) = true) :
    ∀ item ∈ v.items, (item.attribute? "type").isSome = true := by
  have htyped (tag : String) (c : Cause) :
      ((causeItem tag c).attribute? "type").isSome = true := by
    unfold causeItem
    cases c.message.isEmpty <;> rfl
  cases v with
  | success => cases h
  | skipped reason => cases h
  | failure cause? | error cause? =>
    cases cause? with
    | none => exact List.forall_mem_nil _
    | some c => exact List.forall_mem_singleton.2 (htyped _ c)

end Verdict

theorem Testcase.tagged_item (t : Testcase) (tags : List String) :
    t.item.tagged tags =
      if t.verdict.outcome.tag?.any (· ∈ tags) then t.verdict.items else [] := by
  have htags : ∀ item ∈ t.verdict.items,
      item.hasTag tags = t.verdict.outcome.tag?.any (· ∈ tags) := by
    intro item hitem
    rw [Item.hasTag, t.verdict.tag?_of_mem_items item hitem]
  change t.verdict.items.filter (Item.hasTag tags) = _
  rw [List.filter_congr htags]
  cases t.verdict.outcome.tag?.any (· ∈ tags) with
  | false => exact List.filter_false _
  | true => exact List.filter_true _

namespace EngineReport

variable {r : EngineReport} {timestamp : String}

theorem tagged_testcase_item (r : EngineReport) (timestamp : String) :
    (r.item timestamp).tagged ["testcase"] = r.testcases.map Testcase.item := by
  have hcases : ∀ item ∈ r.testcases.map Testcase.item, item.hasTag ["testcase"] = true := by
    intro item hitem
    obtain ⟨t, -, rfl⟩ := List.mem_map.1 hitem
    rfl
  exact List.filter_eq_self.2 hcases

theorem isEmpty_tagged {t : Testcase} (h : t.verdict.Explained) (tags : List String) :
    (t.item.tagged tags).isEmpty = !t.verdict.outcome.tag?.any (· ∈ tags) := by
  rw [t.tagged_item]
  cases hany : t.verdict.outcome.tag?.any (· ∈ tags) with
  | false => rfl
  | true =>
    rw [if_pos rfl, Verdict.isEmpty_items h]
    cases htag : t.verdict.outcome.tag? with
    | none =>
      rw [htag] at hany
      cases hany
    | some tag => rfl

theorem length_casesWith (h : ∀ t ∈ r.testcases, t.verdict.Explained) (tags : List String) :
    ((r.item timestamp).casesWith tags).length =
      (r.testcases.filter fun t => t.verdict.outcome.tag?.any (· ∈ tags)).length := by
  unfold Item.casesWith
  rw [tagged_testcase_item, List.filter_map, List.length_map]
  refine congrArg List.length (List.filter_congr fun t ht => ?_)
  rw [Function.comp_apply, isEmpty_tagged (h t ht), Bool.not_not]

theorem length_casesWith_tag (h : ∀ t ∈ r.testcases, t.verdict.Explained) {o : Outcome}
    {tag : String} (htag : o.tag? = some tag) :
    ((r.item timestamp).casesWith [tag]).length = r.count o := by
  rw [length_casesWith h]
  refine congrArg List.length (List.filter_congr fun t _ => ?_)
  have hsame (o' : Outcome) : o'.tag?.any (· ∈ [tag]) = decide (o' = o) := by
    cases o <;> cases htag <;> cases o' <;> rfl
  exact hsame t.verdict.outcome

theorem length_casesWithout (h : ∀ t ∈ r.testcases, t.verdict.Explained) :
    ((r.item timestamp).casesWithout ["skipped", "failure", "error"]).length = r.successes := by
  unfold Item.casesWithout
  rw [tagged_testcase_item, List.filter_map, List.length_map]
  refine congrArg List.length (List.filter_congr fun t ht => ?_)
  rw [Function.comp_apply, isEmpty_tagged (h t ht)]
  cases t.verdict.outcome <;> rfl

theorem tests_eq_sum (r : EngineReport) :
    r.tests = r.skipped + r.failures + r.errors + r.successes := by
  unfold tests skipped failures errors successes count
  induction r.testcases with
  | nil => rfl
  | cons t rest ih =>
    simp only [List.filter_cons, List.length_cons]
    cases t.verdict.outcome <;> simp <;> omega

theorem reconciles_item (h : ∀ t ∈ r.testcases, t.verdict.Explained) (timestamp : String) :
    (r.item timestamp).Reconciles := by
  have htests := tagged_testcase_item r timestamp
  refine ⟨?_, ?_, ?_, ?_, ?_, ?_, ?_⟩
  · rw [htests, List.length_map]
    rfl
  · rw [length_casesWith_tag h (o := .skipped) rfl]
    rfl
  · rw [length_casesWith_tag h (o := .failure) rfl]
    rfl
  · rw [length_casesWith_tag h (o := .error) rfl]
    rfl
  · intro c hc
    rw [htests] at hc
    obtain ⟨t, -, rfl⟩ := List.mem_map.1 hc
    rw [t.tagged_item]
    split
    · exact t.verdict.length_items_le
    · exact Nat.zero_le 1
  · intro c hc child hchild
    rw [htests] at hc
    obtain ⟨t, -, rfl⟩ := List.mem_map.1 hc
    rw [t.tagged_item] at hchild
    split at hchild
    · next hany => exact Verdict.typed_items hany child hchild
    · cases hchild
  · rw [htests, List.length_map, length_casesWith_tag h (o := .skipped) rfl,
      length_casesWith_tag h (o := .failure) rfl, length_casesWith_tag h (o := .error) rfl,
      length_casesWithout h]
    exact r.tests_eq_sum

end EngineReport

namespace Writer

theorem Run.explained_of_gives {run : Run} {pending : List Identifier}
    {reports : List EngineReport} (h : run.Gives pending reports) {r : EngineReport}
    (hr : r ∈ reports) : ∀ t ∈ r.testcases, t.verdict.Explained := by
  obtain ⟨root, -, finishedAt?, hreport⟩ := h r hr
  exact explained_of_report hreport

theorem explained_of_built {e : Event} {w : Writer} {s : Surroundings} {r : EngineReport}
    (hr : r ∈ built e w s) : ∀ t ∈ r.testcases, t.verdict.Explained := by
  have hend (run : Run) (i : Identifier) (ending : Ending) (hr : r ∈ run.builtAtEnd i ending s) :
      ∀ t ∈ r.testcases, t.verdict.Explained := by
    unfold Run.builtAtEnd at hr
    split at hr
    · exact Run.explained_of_gives (Run.gives_completion _ _ _) hr
    · cases hr
  have hclose (run : Run) (hr : r ∈ run.builtAtClose s) :
      ∀ t ∈ r.testcases, t.verdict.Explained := by
    unfold Run.builtAtClose at hr
    split at hr
    · exact Run.explained_of_gives (Run.gives_completions _ _ _) hr
    · cases hr
  unfold built at hr
  split at hr
  · exact hend _ _ _ hr
  · exact hend _ _ _ hr
  · exact hclose _ hr
  · cases hr

/-- Whatever a writer hears, the document of each report that it builds counts its own elements. -/
theorem documents_reconcile (o : Settings) (s : Surroundings) (events : List Event) (e : Event)
    {r : EngineReport} (hr : r ∈ (watch o s events).built e) (indent : Option String)
    (localOffset : Int) :
    (∀ timestamp, (r.item timestamp).Reconciles) ∧
      r.render indent localOffset = (Time.timestampText localOffset r.timestamp).map
        fun timestamp => documentText indent (r.item timestamp) := by
  refine ⟨EngineReport.reconciles_item (explained_of_built hr), ?_⟩
  unfold EngineReport.render
  cases Time.timestampText localOffset r.timestamp <;> rfl

/-- A failure and an abort that came without a cause, and a test that never ran below a failure. -/
theorem documents_reconcile_bare :
    let o : Settings := ⟨.ofString "out", none, [], false, none⟩
    let failed : Identifier := ⟨"a", "a", some "e", .test⟩
    let aborted : Identifier := ⟨"b", "b", some "e", .test⟩
    let broken : Identifier := ⟨"c", "c", some "e", .container⟩
    let p := Plan.ofList 1 [⟨"e", "e", none, .engine⟩, failed, aborted, broken,
      ⟨"d", "d", some "c", .test⟩]
    let events : List Event := [.planStarted p, .finished failed ⟨.failed, none⟩,
      .finished aborted ⟨.aborted, none⟩, .finished broken (.failed ⟨"Boom", "", "", true⟩)]
    let e : Event := .finished ⟨"e", "e", none, .engine⟩ ⟨.successful, none⟩
    ∃ r, (watch o (.bare (.fixed .epoch)) events).built e = [r] ∧
      [r.tests, r.skipped, r.failures, r.errors] = [3, 1, 1, 1] ∧
      (∀ timestamp, (r.item timestamp).Reconciles) ∧
      r.render none 0 = (Time.timestampText 0 r.timestamp).map
        fun timestamp => documentText none (r.item timestamp) := by
  intro o failed aborted broken p events e
  have hbuilt : ((watch o (.bare (.fixed .epoch)) events).built e).map
      (fun r => [r.tests, r.skipped, r.failures, r.errors]) = [[3, 1, 1, 1]] := by cbv
  obtain ⟨r, hr, hcounts⟩ := List.map_eq_singleton_iff.1 hbuilt
  have hmem : r ∈ (watch o (.bare (.fixed .epoch)) events).built e := by
    rw [hr]
    exact List.mem_singleton_self r
  obtain ⟨hreconciles, hrender⟩ := documents_reconcile o _ events e hmem none 0
  exact ⟨r, hr, hcounts, hreconciles, hrender⟩

end Writer

end TestRun
