import Mathlib
import TestRun.Command.Perform
import TestRun.Proofs.Act
import TestRun.Proofs.Plan.Descent
import TestRun.Proofs.Suite.Positions
set_option autoImplicit false

namespace TestRun

variable {forest : List SuiteNode}

namespace Discovery

variable {d : Discovery} {seen : List (Identifier × SuiteNode)} {entry : Identifier × SuiteNode}

theorem Finds.add_repeated (h : d.Finds seen) (hentry : entry.1.id ∈ seen.map (·.1.id)) :
    d.add entry = .error (.duplicateId entry.1.id) := by
  obtain ⟨e, he, hid⟩ := List.mem_map.1 hentry
  have htaken : (d.nodes.get? entry.1.id).isSome = true := by
    rw [← hid, h.get?_mem e.1 e.2 he]
    rfl
  exact if_pos htaken

theorem Finds.add_new (h : d.Finds seen) (hentry : entry.1.id ∉ seen.map (·.1.id)) :
    ∃ d', d.add entry = .ok d' := by
  have hfree : ¬ (d.nodes.get? entry.1.id).isSome = true := by
    rw [h.get?_none _ hentry]
    exact Bool.false_ne_true
  exact ⟨_, if_neg hfree⟩

theorem Finds.addAll_cases (h : d.Finds seen) (more : List (Identifier × SuiteNode)) :
    (∃ d', more.foldlM Discovery.add d = .ok d') ∨
      ∃ before entry after, more = before ++ entry :: after ∧
        ((seen ++ before).map (·.1.id)).Nodup ∧ entry.1.id ∈ (seen ++ before).map (·.1.id) ∧
        more.foldlM Discovery.add d = .error (.duplicateId entry.1.id) := by
  induction more generalizing d seen with
  | nil => exact .inl ⟨d, rfl⟩
  | cons entry more ih =>
    by_cases hentry : entry.1.id ∈ seen.map (·.1.id)
    · refine .inr ⟨[], entry, more, rfl, ?_, ?_, ?_⟩
      · simpa using h.nodup
      · simpa using hentry
      · rw [List.foldlM_cons, h.add_repeated hentry]
        rfl
    · obtain ⟨d₁, hadd⟩ := h.add_new hentry
      have hfold : (entry :: more).foldlM Discovery.add d = more.foldlM Discovery.add d₁ := by
        rw [List.foldlM_cons, hadd]
        rfl
      rw [hfold]
      rcases ih (h.add hadd) with hok | ⟨before, e, after, rfl, hnodup, hmem, herror⟩
      · exact .inl hok
      · refine .inr ⟨entry :: before, e, after, rfl, ?_, ?_, herror⟩
        · simpa using hnodup
        · simpa using hmem

theorem exists_of_nodup {forest : List SuiteNode}
    (h : ((SuiteNode.identifiersInAll none forest).map (·.id)).Nodup) :
    ∃ d, ofForest forest = .ok d := by
  rcases empty_finds.addAll_cases (SuiteNode.listingAll none forest) with
    hok | ⟨before, entry, after, hsplit, -, hmem, -⟩
  · exact hok
  · unfold SuiteNode.identifiersInAll at h
    rw [List.map_map, hsplit, List.map_append, List.nodup_append] at h
    exact absurd rfl (h.2.2 _ hmem _ List.mem_cons_self)

end Discovery

namespace Position

/-- The first position, by the tour, that has the id of one before it. -/
structure RepeatsFirst (q : Position forest) : Prop where
  repeats : ∃ r : Position forest, r.place < q.place ∧ r.id = q.id
  first : ∀ r s : Position forest, s.place < r.place → s.id = r.id → ¬ r.place < q.place

variable {tour before after : List (Position forest)} {q : Position forest}

theorem Tours.repeatsFirst (h : Tours tour fun _ => True) (htour : tour = before ++ q :: after)
    (hnodup : (before.map id).Nodup) (hq : q.id ∈ before.map id) : q.RepeatsFirst := by
  have hsorted := h.sorted
  rw [htour, List.pairwise_append, List.pairwise_cons] at hsorted
  obtain ⟨hbefore, ⟨hafter, -⟩, hapart⟩ := hsorted
  have hearlier : ∀ r : Position forest, r.place < q.place → r ∈ before := by
    intro r hr
    have hmem : r ∈ before ++ q :: after := htour ▸ (h.mem_iff r).2 trivial
    rcases List.mem_append.1 hmem with hmem | hmem
    · exact hmem
    · rcases List.mem_cons.1 hmem with rfl | hmem
      · exact absurd hr (List.lt_irrefl _)
      · exact absurd hr (List.lt_asymm (hafter r hmem))
  refine ⟨?_, fun r s hsr hid hrq => ?_⟩
  · obtain ⟨r, hr, hid⟩ := List.mem_map.1 hq
    exact ⟨r, hapart r hr q List.mem_cons_self, hid⟩
  · have hs := hearlier s (List.lt_trans hsr hrq)
    obtain rfl := List.inj_on_of_nodup_map hnodup hs (hearlier r hrq) hid
    exact List.lt_irrefl _ hsr

end Position

open Position (Tours)

theorem Discovery.ofForest_cases (forest : List SuiteNode) :
    (∃ d, ofForest forest = .ok d ∧ ∀ q r : Position forest, q.id = r.id → q = r) ∨
      ∃ q : Position forest, q.RepeatsFirst ∧ ofForest forest = .error (.duplicateId q.id) := by
  obtain ⟨tour, hlisting, htours⟩ := Position.tours_listing forest
  rcases empty_finds.addAll_cases (SuiteNode.listingAll none forest) with
    ⟨d, hd⟩ | ⟨before, entry, after, hsplit, hnodup, hmem, herror⟩
  · refine .inl ⟨d, hd, fun q r => ?_⟩
    have hnodup := (finds_of_forest hd).nodup
    rw [hlisting, List.map_map] at hnodup
    exact List.inj_on_of_nodup_map hnodup ((htours.mem_iff q).2 trivial)
      ((htours.mem_iff r).2 trivial)
  · rw [hlisting] at hsplit
    obtain ⟨front, rest, htour, rfl, hrest⟩ := List.map_eq_append_iff.1 hsplit
    obtain ⟨q, back, rfl, rfl, -⟩ := List.map_eq_cons_iff.1 hrest
    rw [List.nil_append, List.map_map] at hnodup hmem
    exact .inr ⟨q, htours.repeatsFirst htour hnodup hmem, herror⟩

/-- The kinds and names of a node and of what is below it. -/
inductive Outline
  | node (kind : NodeKind) (name : String) (below : List Outline)

namespace SuiteNode

mutual

def outline : SuiteNode → Outline
  | test label _ => .node .test label.givenName []
  | group isEngine label _ children =>
    .node (if isEngine then .engine else .container) label.givenName (outlineAll children)

def outlineAll : List SuiteNode → List Outline
  | [] => []
  | n :: rest => outline n :: outlineAll rest

end

theorem outlineAll_eq (ns : List SuiteNode) : outlineAll ns = ns.map outline := by
  induction ns with
  | nil => rw [outlineAll, List.map_nil]
  | cons n rest ih => rw [outlineAll, ih, List.map_cons]

theorem outline_eq (n : SuiteNode) :
    n.outline = .node n.kind n.label.givenName (n.children.map outline) := by
  cases n with
  | test label body? => rw [outline]; rfl
  | group isEngine label hooks children =>
    rw [outline, outlineAll_eq]
    cases isEngine <;> rfl

end SuiteNode

namespace Plan

/-- The outline of an identifier, by the children that the plan gives; down to a depth only. -/
def outlineOf (p : Plan) : Nat → Identifier → Outline
  | 0, i => .node i.kind i.name []
  | depth + 1, i => .node i.kind i.name ((p.children i.id).map (outlineOf p depth))

def outlines (p : Plan) : List Outline := p.roots.map (p.outlineOf p.size)

/-- The plan has the positions of a forest and shows how they lie in it. -/
structure Depicts (p : Plan) (forest : List SuiteNode) : Prop where
  identifiers_eq : ∃ tour : List (Position forest), Tours tour (fun _ => True) ∧
    p.identifiers = tour.map (·.identifier)
  roots_eq : p.roots = (Position.roots forest).map (·.identifier)
  children_eq : ∀ q : Position forest, p.children q.identifier.id = q.children.map (·.identifier)
  parent?_root : ∀ k : Fin forest.length, p.parent? (Position.root k).identifier = none
  parent?_child : ∀ (q : Position forest) k, p.parent? (q.child k).identifier = some q.identifier
  identifiers_by_root : p.identifiers = p.roots.flatMap fun e => e :: p.descendants e.id
  outlines_eq : p.outlines = forest.map (·.outline)

variable {p : Plan}

theorem Lists.mem_listing (q : Position forest) :
    (q.identifier, q.node) ∈ SuiteNode.listingAll none forest := by
  obtain ⟨tour, hlisting, htours⟩ := Position.tours_listing forest
  rw [hlisting]
  exact List.mem_map_of_mem ((htours.mem_iff q).2 trivial)

theorem Lists.children_position (h : p.Lists forest) (q : Position forest) :
    p.children q.identifier.id = q.children.map (·.identifier) := by
  rw [h.children_eq (Lists.mem_listing q), ← q.map_node_children, List.map_map]
  apply List.map_congr_left
  intro r hr
  obtain ⟨k, -, rfl⟩ := List.mem_map.1 hr
  rw [Position.identifier_eq (q.child k), Position.parentId?_child]
  rfl

theorem Lists.parent?_child (h : p.Lists forest) (q : Position forest)
    (k : Fin q.node.children.length) :
    p.parent? (q.child k).identifier = some q.identifier := by
  apply isParent_of_mem_children (h.mem (Lists.mem_listing q))
  rw [h.children_position]
  exact List.mem_map_of_mem (List.mem_map_of_mem (List.mem_finRange k))

theorem Lists.identifiers_by_root (h : p.Lists forest) :
    p.identifiers = p.roots.flatMap fun e => e :: p.descendants e.id := by
  have hroot (n : SuiteNode) (hn : n ∈ forest) : n.identifiersIn none =
      n.identifier none :: p.descendants (n.identifier none).id := by
    have hmem : (n.identifier none, n) ∈ SuiteNode.listingAll none forest := by
      rw [SuiteNode.mem_listingAll]
      refine ⟨n, hn, ?_⟩
      rw [SuiteNode.listing_eq]
      exact List.mem_cons_self
    rw [h.descendants_eq hmem]
    exact n.identifiersIn_eq none
  calc p.identifiers
    _ = SuiteNode.identifiersInAll none forest := h
    _ = forest.flatMap (SuiteNode.identifiersIn none) := by
        rw [SuiteNode.identifiersInAll, SuiteNode.listingAll_eq_flatMap, List.map_flatMap]
        rfl
    _ = forest.flatMap fun n => n.identifier none :: p.descendants (n.identifier none).id :=
        List.flatMap_congr hroot
    _ = p.roots.flatMap fun e => e :: p.descendants e.id := by rw [h.roots_eq, List.flatMap_map]

theorem Lists.outlineOf_eq (h : p.Lists forest) (depth : Nat) (q : Position forest)
    (hdepth : (q.node.listing q.parentId?).length ≤ depth) :
    p.outlineOf depth q.identifier = q.node.outline := by
  -- each level down leaves out one identifier at least of what a node lists
  induction depth generalizing q with
  | zero =>
    rw [SuiteNode.listing_eq] at hdepth
    simp at hdepth
  | succ depth ih =>
    have hbelow : ∀ r ∈ q.children, p.outlineOf depth r.identifier = r.node.outline := by
      intro r hr
      obtain ⟨k, -, rfl⟩ := List.mem_map.1 hr
      apply ih
      have hsub : (q.node.children[k].listing (some q.id)).Sublist
          (SuiteNode.listingAll (some q.id) q.node.children) :=
        SuiteNode.sublist_listing (List.getElem_mem k.isLt)
      rw [SuiteNode.listing_eq, List.length_cons, Position.uniqueId_node] at hdepth
      rw [Position.parentId?_child, Position.node_child]
      exact Nat.le_trans hsub.length_le (Nat.le_of_succ_le_succ hdepth)
    have hchildren : (q.children.map Position.identifier).map (p.outlineOf depth) =
        q.node.children.map SuiteNode.outline := by
      calc (q.children.map Position.identifier).map (p.outlineOf depth)
        _ = q.children.map fun r => p.outlineOf depth r.identifier := List.map_map
        _ = q.children.map fun r => r.node.outline := List.map_congr_left hbelow
        _ = (q.children.map Position.node).map SuiteNode.outline := List.map_map.symm
        _ = q.node.children.map SuiteNode.outline := by rw [q.map_node_children]
    rw [outlineOf, h.children_position, hchildren, q.node.outline_eq]
    rfl

theorem Lists.roots_position (h : p.Lists forest) :
    p.roots = (Position.roots forest).map (·.identifier) := by
  have hnodes := Position.map_node_roots forest
  rw [h.roots_eq]
  conv_lhs => rw [← hnodes, List.map_map]
  apply List.map_congr_left
  intro r hr
  obtain ⟨k, -, rfl⟩ := List.mem_map.1 hr
  rw [Position.identifier_eq, Position.parentId?_root]
  rfl

theorem Lists.outlines_eq (h : p.Lists forest) : p.outlines = forest.map (·.outline) := by
  rw [outlines, h.roots_position, List.map_map]
  conv_rhs => rw [← Position.map_node_roots forest, List.map_map]
  apply List.map_congr_left
  intro r hr
  obtain ⟨k, -, rfl⟩ := List.mem_map.1 hr
  apply h.outlineOf_eq
  have hsub : (forest[k].listing none).Sublist (SuiteNode.listingAll none forest) :=
    SuiteNode.sublist_listing (List.getElem_mem k.isLt)
  have hsize : p.size = (SuiteNode.listingAll none forest).length := by
    rw [size, show p.identifiers = _ from h, SuiteNode.identifiersInAll, List.length_map]
  rw [Position.parentId?_root, Position.node_root, hsize]
  exact hsub.length_le

theorem Lists.depicts (h : p.Lists forest) : p.Depicts forest where
  identifiers_eq := by
    obtain ⟨tour, hlisting, htours⟩ := Position.tours_listing forest
    refine ⟨tour, htours, ?_⟩
    rw [show p.identifiers = _ from h, SuiteNode.identifiersInAll, hlisting, List.map_map]
    rfl
  roots_eq := h.roots_position
  children_eq := h.children_position
  parent?_root k := p.parent?_of_isRoot rfl
  parent?_child := h.parent?_child
  identifiers_by_root := h.identifiers_by_root
  outlines_eq := h.outlines_eq

end Plan

namespace Command

theorem foldl_echo (lines : List String) (s : Surroundings) :
    lines.foldl echo s = { s with
      screen := s.screen ++ String.join (lines.map fun line => Text.withoutSequences line ++ "\n") } := by
  induction lines generalizing s with
  | nil => simp
  | cons line lines ih =>
    rw [List.foldl_cons, ih]
    simp [echo, String.append_assoc]

theorem perform_list {l : Library} {suite : String} (hsuite : l.findSuite suite = .ok forest)
    {d : Discovery} (hd : Discovery.ofForest forest = .ok d) (s : Surroundings) :
    (Command.list suite).perform l s = (.exited 0, { s with
      screen := s.screen ++ String.join
        (d.identifiers.map fun i => Text.withoutSequences i.id ++ "\n") }) := by
  have hlist : (Command.list suite).perform l s = listIds forest s := by
    simp only [perform, hsuite]
  rw [hlist]
  simp only [listIds, hd]
  rw [foldl_echo, List.map_map]
  rfl

end Command

/-- Discovery fails just where two positions have the same id, and names the first that has the id
of one before it. Otherwise the plan loses nothing of the forest, and the ids are printed in its
order. -/
theorem Discovery.faithful (forest : List SuiteNode) :
    ((∃ f, ofForest forest = .error f) ↔ ∃ q r : Position forest, q ≠ r ∧ q.id = r.id) ∧
      (∀ f, ofForest forest = .error f → f.typeName = "ValueError" ∧
        ∃ q : Position forest, q.RepeatsFirst ∧ f = .duplicateId q.id) ∧
      ∀ d, ofForest forest = .ok d → ∀ serial,
        (Plan.ofList serial d.identifiers).Depicts forest ∧
        ∀ (l : Library) suite, l.findSuite suite = .ok forest → ∀ s,
          (Command.list suite).perform l s = (.exited 0, { s with
            screen := s.screen ++ String.join ((Plan.ofList serial d.identifiers).identifiers.map
              fun i => Text.withoutSequences i.id ++ "\n") }) := by
  refine ⟨?_, fun f hf => ?_, fun d hd serial => ⟨?_, fun l suite hsuite s => ?_⟩⟩
  · rcases ofForest_cases forest with ⟨d, hd, hdistinct⟩ | ⟨q, hq, herror⟩
    · refine iff_of_false ?_ ?_
      · rintro ⟨f, hf⟩
        cases hd.symm.trans hf
      · rintro ⟨q, r, hne, hid⟩
        exact hne (hdistinct q r hid)
    · refine iff_of_true ⟨_, herror⟩ ?_
      obtain ⟨r, hlt, hid⟩ := hq.repeats
      refine ⟨r, q, ?_, hid⟩
      rintro rfl
      exact List.lt_irrefl _ hlt
  · rcases ofForest_cases forest with ⟨d, hd, -⟩ | ⟨q, hq, herror⟩
    · cases hd.symm.trans hf
    · cases herror.symm.trans hf
      exact ⟨rfl, q, hq, rfl⟩
  · exact (Plan.ofList_lists hd serial).depicts
  · have hlists := Plan.ofList_lists hd serial
    rw [Command.perform_list hsuite hd s, show (Plan.ofList serial d.identifiers).identifiers = _
      from hlists, SuiteNode.identifiersInAll, (finds_of_forest hd).identifiers_eq]

/-- Ids may hold colons themselves, so that different ways down can join to one id. -/
theorem Discovery.faithful_colons :
    let deep := SuiteNode.group false ⟨"b", none, none⟩ .none [.test ⟨"c", none, none⟩ none]
    let forest := [SuiteNode.group true ⟨"a", some "First", none⟩ .none [deep],
      .group true ⟨"e", some "", none⟩ .none [.test ⟨"b:c", some "Third", none⟩ none]]
    let clashing := [SuiteNode.group true ⟨"a", none, none⟩ .none
      [deep, .test ⟨"b:c", none, none⟩ none]]
    let l : Library := ⟨[⟨"x.y", false, [], none, .forest forest⟩, ⟨"x", true, [], none, .none⟩]⟩
    let s := Surroundings.bare (.fixed .epoch)
    (∃ f, ofForest clashing = .error f ∧ f.typeName = "ValueError" ∧
      ∃ q : Position clashing, q.RepeatsFirst ∧ q.id = "a:b:c") ∧
    ∃ d, ofForest forest = .ok d ∧ (Plan.ofList 1 d.identifiers).Depicts forest ∧
      (Plan.ofList 1 d.identifiers).outlines =
        [.node .engine "First" [.node .container "b" [.node .test "c" []]],
          .node .engine "e" [.node .test "Third" []]] ∧
      l.findSuite "x.y" = .ok forest ∧
      ((Command.list "x.y").perform l s).2.screen = "a\na:b\na:b:c\ne\ne:b:c\n" := by
  intro deep forest clashing l s
  have hsuite : l.findSuite "x.y" = .ok forest := by cbv
  obtain ⟨d, hd, hids⟩ : ∃ d, ofForest forest = .ok d ∧
      (Plan.ofList 1 d.identifiers).identifiers.map (·.id) =
        ["a", "a:b", "a:b:c", "e", "e:b:c"] := ⟨_, rfl, by decide⟩
  have hclash : ofForest clashing = .error (.duplicateId "a:b:c") := rfl
  obtain ⟨-, hfault, -⟩ := faithful clashing
  obtain ⟨-, -, hplan⟩ := faithful forest
  obtain ⟨hname, q, hq, hnamed⟩ := hfault _ hclash
  obtain ⟨hdepicts, hlist⟩ := hplan d hd 1
  have houtlines : forest.map SuiteNode.outline =
      [.node .engine "First" [.node .container "b" [.node .test "c" []]],
        .node .engine "e" [.node .test "Third" []]] := rfl
  refine ⟨⟨_, hclash, hname, q, hq, (Fault.duplicateId.inj hnamed).symm⟩, d, hd, hdepicts,
    hdepicts.outlines_eq.trans houtlines, hsuite, ?_⟩
  have hlines := congrArg (List.map fun id => Text.withoutSequences id ++ "\n") hids
  rw [List.map_map] at hlines
  rw [hlist l "x.y" hsuite s]
  change "" ++ String.join _ = _
  rw [show ((Plan.ofList 1 d.identifiers).identifiers.map fun i =>
    Text.withoutSequences i.id ++ "\n") = _ from hlines]
  cbv

end TestRun
