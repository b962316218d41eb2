import TestRun.Proofs.Suite.Paths
set_option autoImplicit false

namespace TestRun

open TestRun.Tree (Call endIn)
open Writer (Closes BuildsAll)

namespace SuiteNode

variable {p : Plan} {forest : List SuiteNode} {e t : SuiteNode} {ms : List Moment}
variable {log : List Call}

theorem not_closes_of_below (hp : p.Lists forest) (he : e ∈ forest) {c : Call}
    (hc : c.identifier ∈ identifiersInAll (some (e.uniqueId none)) e.children)
    (log : List Call) : ¬ Closes p log c := by
  rintro ⟨-, ⟨root, hroot, hid⟩, -⟩
  obtain ⟨hmem, hisRoot⟩ := List.mem_filter.1 hroot
  have hlisted : c.identifier ∈ p.identifiers := by
    rw [show p.identifiers = _ from hp]
    apply mem_identifiersInAll.2
    refine ⟨e, he, ?_⟩
    rw [identifiersIn_eq]
    exact List.mem_cons_of_mem _ hc
  have hsame : some root = some c.identifier := by
    rw [← Plan.get?_of_mem hmem, ← Plan.get?_of_mem hlisted, hid]
  cases hsame
  rw [isRoot_below hc] at hisRoot
  cases hisRoot

theorem mem_roots (hp : p.Lists forest) (he : e ∈ forest) : e.identifier none ∈ p.roots := by
  rw [hp.roots_eq]
  exact List.mem_map_of_mem he

theorem Runs.last_closes (hp : p.Lists forest) (he : e ∈ forest) (h : Runs none e ms)
    (hlog : endIn log (e.uniqueId none) = none) :
    ∃ first c, callsOf ms = first ++ [c] ∧ c.identifier = e.identifier none ∧
      (∀ d ∈ first, ∀ log, ¬ Closes p log d) ∧ Closes p (log ++ first) c := by
  have hroot := mem_roots hp he
  rcases h.calls_eq with ⟨reason, -, hcalls⟩ | ⟨-, below, hcalls, hopen, hclosed⟩
  · refine ⟨[], _, hcalls, rfl, nofun, rfl, ⟨_, hroot, rfl⟩, ?_⟩
    rw [List.append_nil]
    exact hlog
  · have hbelow : ∀ d ∈ below,
        d.identifier ∈ identifiersInAll (some (e.uniqueId none)) e.children := by
      intro d hd
      cases hopens : e.isOpen with
      | false =>
        rw [hclosed hopens] at hd
        cases hd
      | true =>
        obtain ⟨inner, hinner, rfl⟩ := hopen hopens
        exact hinner.identifier_mem hd
    refine ⟨.started (e.identifier none) :: below, _, hcalls, rfl, fun d hd log => ?_, rfl,
      ⟨_, hroot, rfl⟩, ?_⟩
    · rcases List.mem_cons.1 hd with rfl | hd
      · exact Writer.not_closes_of_ending rfl
      · exact not_closes_of_below hp he (hbelow d hd) log
    · have hnone : endIn below (e.uniqueId none) = none :=
        Tree.endIn_eq_none fun d hd => id_ne_of_below (hbelow d hd)
      change endIn (log ++ .started (e.identifier none) :: below) (e.uniqueId none) = none
      rw [Tree.endIn_append, Tree.endIn_cons_started, hnone, hlog]
      rfl

/-- The report tells what a schedule of the engine decides. -/
structure ReportedBy (p : Plan) (e : SuiteNode) (r : EngineReport) : Prop where
  exists_log : ∃ xs log, Runs none e xs ∧ r.Tells p log (e.uniqueId none) ∧
    ∀ i ∈ e.identifiersIn none, endIn log i.id = endIn (callsOf xs) i.id

theorem ReportedBy.id_eq {r : EngineReport} (h : ReportedBy p e r) : r.id = e.uniqueId none := by
  obtain ⟨xs, log, -, htells, -⟩ := h.exists_log
  exact htells.id_eq

section Engines

variable {es : List SuiteNode} {reports : List EngineReport}

theorem ids_of_reported (h : List.Forall₂ (ReportedBy p) es reports) :
    reports.map (·.id) = es.map (uniqueId · none) := by
  induction h with
  | nil => rfl
  | cons hr _ ih => rw [List.map_cons, List.map_cons, ih, hr.id_eq]

theorem exists_reported (h : List.Forall₂ (ReportedBy p) es reports) (he : e ∈ es) :
    ∃ r ∈ reports, ReportedBy p e r := by
  induction h with
  | nil => cases he
  | cons hr _ ih =>
    rcases List.mem_cons.1 he with rfl | he
    · exact ⟨_, List.mem_cons_self, hr⟩
    · obtain ⟨r, hmem, hreported⟩ := ih he
      exact ⟨r, List.mem_cons_of_mem _ hmem, hreported⟩

end Engines

theorem RunsForest.reports {before rest : List SuiteNode} (hp : p.Lists forest)
    (hfront : before ++ rest <+: forest) (h : RunsForest rest ms)
    (hlog : ∀ c ∈ log, c.identifier ∈ identifiersInAll none before)
    {reports : List EngineReport} (hbuilds : BuildsAll p log (callsOf ms) reports) :
    List.Forall₂ (ReportedBy p) rest reports := by
  induction h generalizing before log reports with
  | nil =>
    cases hbuilds
    exact .nil
  | @cons e rest xs ys hxs hys ih =>
    have hmem : e ∈ forest := hfront.subset (List.mem_append_right _ List.mem_cons_self)
    have hapart : ∀ c ∈ log, ∀ i ∈ e.identifiersIn none, c.identifier.id ≠ i.id := by
      intro c hc i hi
      obtain ⟨more, hmore⟩ := hfront
      have hnodup := hp.nodup
      rw [← hmore, List.append_assoc, identifiersInAll_append, List.map_append,
        List.nodup_append] at hnodup
      apply hnodup.2.2 _ (List.mem_map_of_mem (hlog c hc)) _
      apply List.mem_map_of_mem
      exact mem_identifiersInAll.2 ⟨e, List.mem_append_left _ List.mem_cons_self, hi⟩
    have hfresh : ∀ i ∈ e.identifiersIn none, endIn log i.id = none :=
      fun i hi => Tree.endIn_eq_none fun c hc => hapart c hc i hi
    have hself : e.identifier none ∈ e.identifiersIn none := by
      rw [identifiersIn_eq]
      exact List.mem_cons_self
    rw [callsOf_append] at hbuilds
    obtain ⟨first, later, rfl, hfirst, hlater⟩ := hbuilds.split
    obtain ⟨calls, c, hcalls, hc, hquiet, hcloses⟩ :=
      hxs.last_closes hp hmem (hfresh _ hself)
    have hfirst' := hfirst
    rw [hcalls] at hfirst'
    obtain ⟨r, rfl, htells⟩ := hfirst'.eq_singleton hquiet hcloses
    rw [← hcalls, hc] at htells
    have hreported : ReportedBy p e r := by
      refine ⟨xs, log ++ callsOf xs, hxs, htells, fun i hi => ?_⟩
      rw [Tree.endIn_append, hfresh i hi]
      rfl
    have hfront' : (before ++ [e]) ++ rest <+: forest := by
      rw [List.append_assoc]
      exact hfront
    refine .cons hreported (ih hfront' ?_ hlater)
    · intro c hc
      rw [identifiersInAll_append, List.mem_append]
      rcases List.mem_append.1 hc with hc | hc
      · exact .inl (hlog c hc)
      · exact .inr (mem_identifiersInAll.2 ⟨e, List.mem_singleton.2 rfl, hxs.identifier_mem hc⟩)

theorem RunsForest.identifier_mem (h : RunsForest forest ms) {c : Call} (hc : c ∈ callsOf ms) :
    c.identifier ∈ identifiersInAll none forest := by
  induction h with
  | nil => cases hc
  | cons hxs _ ih =>
    rw [callsOf_append] at hc
    rw [identifiersInAll_cons, List.mem_append]
    rcases List.mem_append.1 hc with hc | hc
    · exact .inl (hxs.identifier_mem hc)
    · exact .inr (ih hc)

theorem RunsForest.id_mem_ids (h : RunsForest forest ms) (hp : p.Lists forest) :
    ∀ c ∈ callsOf ms, c.identifier.id ∈ p.ids := by
  intro c hc
  apply List.mem_map_of_mem
  rw [show p.identifiers = _ from hp]
  exact h.identifier_mem hc

theorem RunsForest.ends (h : RunsForest forest ms) (he : e ∈ forest) :
    endIn (callsOf ms) (e.uniqueId none) ≠ none := by
  induction h with
  | nil => cases he
  | @cons e' rest xs ys hxs _ ih =>
    rw [callsOf_append, Tree.endIn_append]
    rcases List.mem_cons.1 he with rfl | he
    · rw [hxs.endIn_self]
      exact nofun
    · intro hnone
      exact ih he (Option.or_eq_none_iff.1 hnone).2

theorem testsUnder_eq (hp : p.Lists forest) (he : e ∈ forest) :
    p.testsUnder (e.uniqueId none) =
      (identifiersInAll (some (e.uniqueId none)) e.children).filter Identifier.isTest := by
  have hlisted : (e.identifier none, e) ∈ listingAll none forest := by
    apply mem_listingAll.2
    refine ⟨e, he, ?_⟩
    rw [listing_eq]
    exact List.mem_cons_self
  exact congrArg (List.filter Identifier.isTest) (hp.descendants_eq hlisted)

theorem Leads.mem_testsUnder (hp : p.Lists forest) (he : e ∈ forest) {path : List SuiteNode}
    (hpath : Leads e path t) (hne : path ≠ []) (ht : t.kind = .test) :
    t.identifier (parentAlong none path) ∈ p.testsUnder (e.uniqueId none) := by
  rw [testsUnder_eq hp he]
  apply List.mem_filter.2
  constructor
  · cases hpath with
    | here => exact absurd rfl hne
    | down hm hrest =>
      exact mem_identifiersInAll.2 ⟨_, hm, mem_identifiersIn hrest.mem_listing⟩
  · unfold Identifier.isTest
    exact decide_eq_true ht

theorem mem_of_testsUnder (hp : p.Lists forest) (he : e ∈ forest) {i : Identifier}
    (hi : i ∈ p.testsUnder (e.uniqueId none)) : i ∈ p.identifiers := by
  rw [testsUnder_eq hp he] at hi
  have hmem := (List.mem_filter.1 hi).1
  rw [show p.identifiers = _ from hp]
  apply mem_identifiersInAll.2
  refine ⟨e, he, ?_⟩
  rw [identifiersIn_eq]
  exact List.mem_cons_of_mem _ hmem

theorem verdictBy_along (hp : p.Lists forest) (he : e ∈ forest) {path : List SuiteNode}
    (hpath : Leads e path t) (h : Runs none e ms)
    (hlog : ∀ i ∈ e.identifiersIn none, endIn log i.id = endIn (callsOf ms) i.id)
    (hasStarted : Bool) :
    Tree.verdictBy p log hasStarted (t.identifier (parentAlong none path)) =
      if path.all isOpen then .ofEnding t.ending
      else .below (endsAlong path).reverse hasStarted := by
  have hnodup : ((e.identifiersIn none).map (·.id)).Nodup :=
    ((sublist_of_mem he).map _).nodup hp.nodup
  obtain ⟨hgroups, hnode⟩ := h.ends_along hpath hnodup
  have hself := hlog _ (mem_identifiersIn hpath.mem_listing)
  have hends : Tree.endsOf log (p.ancestors (t.identifier (parentAlong none path))) =
      (endsAlong path).reverse := by
    rw [hp.ancestors_eq he hpath, Tree.endsOf, List.filterMap_reverse, ← hgroups]
    congr 1
    apply List.filterMap_congr
    intro i hi
    exact hlog i (hpath.identifiersAlong_mem hi)
  unfold Tree.verdictBy
  rw [hself, hends, show (t.identifier (parentAlong none path)).id = t.uniqueId _ from rfl, hnode]
  cases path.all isOpen <;> rfl

theorem verdictIn_along (hp : p.Lists forest) (he : e ∈ forest) {path : List SuiteNode}
    (hpath : Leads e path t) (h : Runs none e ms)
    (hlog : ∀ i ∈ e.identifiersIn none, endIn log i.id = endIn (callsOf ms) i.id) :
    ∃ hasStarted, Tree.verdictIn p log (t.identifier (parentAlong none path)) =
      if path.all isOpen then .ofEnding t.ending
      else .below (endsAlong path).reverse hasStarted :=
  ⟨_, verdictBy_along hp he hpath h hlog _⟩

end SuiteNode

namespace EngineReport

/-- The report shows an identifier with a verdict, and with no other. -/
structure Shows (r : EngineReport) (i : Identifier) (v : Verdict) : Prop where
  exists_testcase : ∃ c ∈ r.testcases, c.id = i.id ∧ c.name = i.name ∧ c.className = r.id
  verdict_eq : ∀ c ∈ r.testcases, c.id = i.id → c.verdict = v

end EngineReport

namespace SuiteNode

variable {p : Plan} {forest : List SuiteNode} {e t : SuiteNode}

theorem ReportedBy.shows {r : EngineReport} (h : ReportedBy p e r) (hp : p.Lists forest)
    (he : e ∈ forest) {path : List SuiteNode} (hpath : Leads e path t) (hne : path ≠ [])
    (ht : t.kind = .test) :
    ∃ hasStarted, r.Shows (t.identifier (parentAlong none path))
      (if path.all isOpen then .ofEnding t.ending
        else .below (endsAlong path).reverse hasStarted) := by
  obtain ⟨xs, log, hxs, htells, hlog⟩ := h.exists_log
  obtain ⟨hasStarted, hverdict⟩ := verdictIn_along hp he hpath hxs hlog
  have htest := hpath.mem_testsUnder hp he hne ht
  refine ⟨hasStarted, ?_, fun c hc hid => ?_⟩
  · have hmem : (t.uniqueId (parentAlong none path), t.label.shownName, e.uniqueId none,
        Tree.verdictIn p log (t.identifier (parentAlong none path))) ∈
        r.testcases.map fun c => (c.id, c.name, c.className, c.verdict) := by
      rw [htells.testcases_eq]
      exact List.mem_map.2 ⟨_, htest, rfl⟩
    obtain ⟨c, hc, heq⟩ := List.mem_map.1 hmem
    simp only [Prod.mk.injEq] at heq
    obtain ⟨hid, hname, hclass, -⟩ := heq
    exact ⟨c, hc, hid, hname, hclass.trans htells.id_eq.symm⟩
  · have hmem : (c.id, c.name, c.className, c.verdict) ∈
        (p.testsUnder (e.uniqueId none)).map fun i =>
          (i.id, i.name, e.uniqueId none, Tree.verdictIn p log i) := by
      rw [← htells.testcases_eq]
      exact List.mem_map.2 ⟨c, hc, rfl⟩
    obtain ⟨i, hi, heq⟩ := List.mem_map.1 hmem
    simp only [Prod.mk.injEq] at heq
    obtain ⟨hiid, -, -, hiverdict⟩ := heq
    have hsame : some i = some (t.identifier (parentAlong none path)) := by
      rw [← Plan.get?_of_mem (mem_of_testsUnder hp he hi),
        ← Plan.get?_of_mem (mem_of_testsUnder hp he htest), hiid, hid]
    rw [← hiverdict, Option.some.inj hsame]
    exact hverdict

end SuiteNode

end TestRun
