import TestRun.Proofs.Report.Document
import TestRun.Proofs.Xml.Comments
set_option autoImplicit false

namespace TestRun

open Time Xml

def idText (id : String) : String := cleanComment ("Unique ID: " ++ id)

/-- The comment for an id keeps to the rule unless the id has three hyphens in a row. -/
theorem commentRule_idText (id : String) :
    CommentRule (idText id).toList ↔ ¬ hyphens <:+: id.toList := by
  have hlabel : '-' ∉ "Unique ID: ".toList := by decide
  unfold idText
  rw [commentRule_cleanComment, String.toList_append, hyphens_infix_append hlabel]

namespace EngineReport

def ids (r : EngineReport) : List String := r.id :: r.testcases.map (·.id)

def anonymous (r : EngineReport) : EngineReport :=
  { r with id := "", testcases := r.testcases.map fun t => { t with id := "" } }

variable {r r' : EngineReport} {indent : Option String} {localOffset : Int} {timestamp : String}

theorem count_anonymous (r : EngineReport) (o : Outcome) : r.anonymous.count o = r.count o := by
  unfold count anonymous
  rw [List.filter_map, List.length_map]
  rfl

theorem tests_anonymous (r : EngineReport) : r.anonymous.tests = r.tests := List.length_map _

theorem silent_item (r : EngineReport) (timestamp : String) :
    (r.item timestamp).silent = (r.anonymous.item timestamp).silent := by
  have hcases : (r.testcases.map Testcase.item).map Item.silent =
      (r.anonymous.testcases.map Testcase.item).map Item.silent := by
    unfold anonymous
    rw [List.map_map, List.map_map, List.map_map]
    rfl
  unfold item
  simp only [Item.silent, Item.silentAll, Item.silentAll_eq_map, hcases, tests_anonymous, skipped,
    failures, errors, count_anonymous]
  rfl

theorem comments_items (v : Verdict) : v.items.flatMap Item.comments = [] := by
  cases v with
  | success | skipped reason => rfl
  | failure cause | error cause => cases cause <;> rfl

theorem comments_testcase (t : Testcase) : t.item.comments = [idText t.id] := by
  unfold Testcase.item
  rw [Item.comments, Item.commentsAll, Item.commentsAll_eq_flatMap, comments_items]
  rfl

theorem comments_properties (rows : List (String × String)) :
    (rows.map propertyItem).flatMap Item.comments = [] := by
  rw [List.flatMap_eq_nil_iff]
  intro item hitem
  obtain ⟨p, -, rfl⟩ := List.mem_map.1 hitem
  rfl

theorem comments_item (r : EngineReport) (timestamp : String) :
    (r.item timestamp).comments = r.ids.map idText := by
  have hcases : (r.testcases.map Testcase.item).flatMap Item.comments =
      r.testcases.map fun t => idText t.id := by
    rw [List.flatMap_map, List.map_eq_flatMap]
    exact congrArg (List.flatMap · r.testcases) (funext comments_testcase)
  calc (r.item timestamp).comments
    _ = idText r.id :: ((r.properties.map propertyItem).flatMap Item.comments ++
          (r.testcases.map Testcase.item).flatMap Item.comments) := by
        unfold item
        rw [Item.comments, Item.commentsAll, Item.commentsAll, Item.comments,
          Item.commentsAll_eq_flatMap, Item.commentsAll_eq_flatMap]
        rfl
    _ = idText r.id :: r.testcases.map fun t => idText t.id := by
        rw [comments_properties, hcases, List.nil_append]
    _ = r.ids.map idText := by
        unfold ids
        rw [List.map_cons, List.map_map]
        rfl

theorem reads_back (htime : timestampText localOffset r.timestamp = .ok timestamp)
    (hindent : IsBlank indent) (hids : ∀ id ∈ r.ids, ¬ hyphens <:+: id.toList) :
    ∃ text, r.render indent localOffset = .ok text ∧ read text = some (r.item timestamp) := by
  have hrule : ∀ id ∈ r.ids, CommentRule (idText id).toList :=
    fun id hid => (commentRule_idText id).2 (hids id hid)
  have hproper : (r.item timestamp).Proper :=
    proper_item (isXmlText_timestampText htime) (hrule r.id List.mem_cons_self)
      fun t ht => hrule t.id (List.mem_cons_of_mem _ (List.mem_map_of_mem ht))
  refine ⟨_, ?_, read_documentText hindent hproper⟩
  unfold render
  rw [htime]
  rfl

/-- An id breaks out of its comment only with three hyphens in a row. Without these, a comment ends
at its own end and nowhere before, and whatever the ids are, the elements of a document are the
same, with one comment for each id. -/
theorem ids_stay_in_comments (htime : timestampText localOffset r.timestamp = .ok timestamp)
    (hindent : IsBlank indent) (hsame : r.anonymous = r'.anonymous)
    (hids : ∀ id ∈ r.ids, ¬ hyphens <:+: id.toList)
    (hids' : ∀ id ∈ r'.ids, ¬ hyphens <:+: id.toList) :
    (∀ id, CommentRule (idText id).toList ↔ ¬ hyphens <:+: id.toList) ∧
      (∀ id ∈ r.ids, ∀ before after,
        (idText id ++ "-->").toList = before ++ '-' :: '-' :: after → before = (idText id).toList) ∧
      ∃ text text' item item',
        r.render indent localOffset = .ok text ∧ r'.render indent localOffset = .ok text' ∧
        read text = some item ∧ read text' = some item' ∧ item.silent = item'.silent ∧
        item.comments = r.ids.map idText ∧ item'.comments = r'.ids.map idText := by
  have htimestamp : r.anonymous.timestamp = r'.anonymous.timestamp := by rw [hsame]
  have htime' : timestampText localOffset r'.timestamp = .ok timestamp :=
    (congrArg (timestampText localOffset) htimestamp).symm.trans htime
  obtain ⟨text, hrender, hread⟩ := reads_back htime hindent hids
  obtain ⟨text', hrender', hread'⟩ := reads_back htime' hindent hids'
  have hsilent : (r.item timestamp).silent = (r'.item timestamp).silent := by
    rw [silent_item, hsame, ← silent_item]
  refine ⟨commentRule_idText, fun id hid before after heq => ?_, text, text', _, _, hrender,
    hrender', hread, hread', hsilent, comments_item r timestamp, comments_item r' timestamp⟩
  rw [String.toList_append] at heq
  exact ((commentRule_idText id).2 (hids id hid)).ends_last heq

/-- Ids with markup, and with the end of a comment. -/
theorem ids_stay_in_comments_markup :
    let report (engine test : String) : EngineReport := ⟨engine, "n", "host", .epoch, 2500,
      [("k", "v")], [⟨test, "t", "n", 1500, .skipped "later"⟩]⟩
    let r := report "e" "e:t"
    let r' := report "--><evil a=\"1\"/><!--" "-"
    timestampText 0 r.timestamp = .ok "1970-01-01T00:00:00" ∧ IsBlank (some "  ") ∧
      r.anonymous = r'.anonymous ∧ (∀ id ∈ r.ids, ¬ hyphens <:+: id.toList) ∧
      (∀ id ∈ r'.ids, ¬ hyphens <:+: id.toList) ∧
      ∃ text text' item item', r.render (some "  ") 0 = .ok text ∧
        r'.render (some "  ") 0 = .ok text' ∧ read text = some item ∧ read text' = some item' ∧
        item.silent = item'.silent ∧ item.comments = ["Unique ID: e", "Unique ID: e:t"] ∧
        item'.comments = ["Unique ID: - -><evil a=\"1\"/><!- - ", "Unique ID: - "] := by
  intro report r r'
  have htime : timestampText 0 r.timestamp = .ok "1970-01-01T00:00:00" := by decide
  have hindent : IsBlank (some "  ") := by
    intro text htext
    cases htext
    simp
  have hsame : r.anonymous = r'.anonymous := rfl
  have hids : ∀ id ∈ r.ids, ¬ hyphens <:+: id.toList := by decide
  have hids' : ∀ id ∈ r'.ids, ¬ hyphens <:+: id.toList := by decide
  obtain ⟨-, -, text, text', item, item', hrender, hrender', hread, hread', hsilent, hcomments,
    hcomments'⟩ := ids_stay_in_comments htime hindent hsame hids hids'
  have hshown : r.ids.map idText = ["Unique ID: e", "Unique ID: e:t"] := by decide
  have hshown' : r'.ids.map idText =
      ["Unique ID: - -><evil a=\"1\"/><!- - ", "Unique ID: - "] := by decide
  exact ⟨htime, hindent, hsame, hids, hids', text, text', item, item', hrender, hrender', hread,
    hread', hsilent, hcomments.trans hshown, hcomments'.trans hshown'⟩

end EngineReport

end TestRun
