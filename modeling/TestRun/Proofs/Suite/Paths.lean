import TestRun.Proofs.Suite.Schedule
set_option autoImplicit false

namespace TestRun

open TestRun.Tree (Call endIn)

namespace Tree

theorem endIn_eq_none {log : List Call} {id : String}
    (h : ∀ c ∈ log, c.identifier.id ≠ id) : endIn log id = none := by
  apply List.findSome?_eq_none_iff.2
  intro c hc
  exact if_neg (h c hc)

theorem endIn_cons_started (i : Identifier) (log : List Call) (id : String) :
    endIn (.started i :: log) id = endIn log id := by
  rw [endIn_cons, Call.ending?, ite_self, Option.none_or]

end Tree

namespace SuiteNode

variable {parent? : Option String} {n m t : SuiteNode} {ms : List Moment}

theorem nodup_children (h : ((n.identifiersIn parent?).map (·.id)).Nodup) :
    ((identifiersInAll (some (n.uniqueId parent?)) n.children).map (·.id)).Nodup := by
  rw [identifiersIn_eq, List.map_cons, List.nodup_cons] at h
  exact h.2

theorem id_ne_of_below {i : Identifier}
    (hi : i ∈ identifiersInAll (some (n.uniqueId parent?)) n.children) :
    i.id ≠ n.uniqueId parent? := by
  intro heq
  obtain ⟨m, -, him⟩ := mem_identifiersInAll.1 hi
  have hle := length_le_of_mem him
  have hlonger := length_uniqueId m (n.uniqueId parent?)
  rw [heq] at hle
  omega

theorem Runs.endIn_self (h : Runs parent? n ms) :
    endIn (callsOf ms) (n.uniqueId parent?) = some n.ending := by
  unfold ending
  rcases h.calls_eq with ⟨reason, hskip, hcalls⟩ | ⟨hskip, below, hcalls, hopen, hclosed⟩
  · rw [hcalls, hskip]
    simp [endIn, Call.identifier, Call.ending?, identifier]
  · have hbelow : endIn below (n.uniqueId parent?) = none := by
      apply Tree.endIn_eq_none
      intro c hc
      cases hopens : n.isOpen with
      | false =>
        rw [hclosed hopens] at hc
        cases hc
      | true =>
        obtain ⟨inner, hinner, rfl⟩ := hopen hopens
        exact id_ne_of_below (hinner.identifier_mem hc)
    rw [hcalls, Tree.endIn_cons_started, Tree.endIn_append, hbelow, hskip]
    simp [endIn, Call.identifier, Call.ending?, identifier]

theorem isOpen_of_skip {reason : String} (h : n.label.skip? = some reason) : n.isOpen = false := by
  unfold isOpen
  rw [h]
  rfl

theorem endIn_between {i : Identifier} (below : List Call) (result : ExecutionResult)
    {id : String} (h : i.id ≠ id) :
    endIn (.started i :: (below ++ [.finished i result])) id = endIn below id := by
  rw [Tree.endIn_cons_started, Tree.endIn_append]
  have hlast : endIn [.finished i result] id = none := by
    apply Tree.endIn_eq_none
    intro c hc
    obtain rfl := List.mem_singleton.1 hc
    exact h
  rw [hlast, Option.or_none]

theorem Runs.endIn_open (h : Runs parent? n ms) (hopens : n.isOpen = true) :
    ∃ inner, RunsAll (some (n.uniqueId parent?)) n.children inner ∧
      ∀ i ∈ identifiersInAll (some (n.uniqueId parent?)) n.children,
        endIn (callsOf ms) i.id = endIn (callsOf inner) i.id := by
  rcases h.calls_eq with ⟨reason, hskip, -⟩ | ⟨-, below, hcalls, hopen, -⟩
  · rw [isOpen_of_skip hskip] at hopens
    cases hopens
  · obtain ⟨inner, hinner, rfl⟩ := hopen hopens
    refine ⟨inner, hinner, fun i hi => ?_⟩
    rw [hcalls]
    exact endIn_between _ _ (id_ne_of_below hi).symm

theorem Runs.endIn_closed (h : Runs parent? n ms) (hcloses : n.isOpen = false) {i : Identifier}
    (hi : i ∈ identifiersInAll (some (n.uniqueId parent?)) n.children) :
    endIn (callsOf ms) i.id = none := by
  have hne := (id_ne_of_below hi).symm
  rcases h.calls_eq with ⟨reason, -, hcalls⟩ | ⟨-, below, hcalls, -, hclosed⟩
  · rw [hcalls]
    apply Tree.endIn_eq_none
    intro c hc
    obtain rfl := List.mem_singleton.1 hc
    exact hne
  · rw [hcalls, hclosed hcloses]
    exact endIn_between _ _ hne

theorem RunsAll.endIn_mem {ns : List SuiteNode} (h : RunsAll parent? ns ms)
    (hnodup : ((identifiersInAll parent? ns).map (·.id)).Nodup) (hm : m ∈ ns) :
    ∃ xs, Runs parent? m xs ∧
      ∀ i ∈ m.identifiersIn parent?, endIn (callsOf ms) i.id = endIn (callsOf xs) i.id := by
  induction ns generalizing ms with
  | nil => cases hm
  | cons n rest ih =>
    rw [identifiersInAll_cons, List.map_append, List.nodup_append] at hnodup
    obtain ⟨-, hrestNodup, hapart⟩ := hnodup
    cases h with
    | @cons _ _ _ xs ys _ hn hrest hmix =>
      have hmix' := hmix.filterMap Moment.call?
      rcases List.mem_cons.1 hm with rfl | hm
      · refine ⟨xs, hn, fun i hi => hmix'.findSome?_left fun c hc => if_neg fun heq => ?_⟩
        have hci := hrest.identifier_mem hc
        exact hapart _ (List.mem_map_of_mem hi) _ (List.mem_map_of_mem hci) heq.symm
      · obtain ⟨xs', hxs', hends⟩ := ih hrest hrestNodup hm
        refine ⟨xs', hxs', fun i hi => ?_⟩
        rw [← hends i hi]
        refine hmix'.findSome?_right fun c hc => if_neg fun heq => ?_
        have hci := hn.identifier_mem hc
        have hi' : i ∈ identifiersInAll parent? rest := mem_identifiersInAll.2 ⟨m, hm, hi⟩
        exact hapart _ (List.mem_map_of_mem hci) _ (List.mem_map_of_mem hi') heq

/-- The groups of a path lead from the first node down to the last, outermost first. -/
inductive Leads : SuiteNode → List SuiteNode → SuiteNode → Prop
  | here {n : SuiteNode} : Leads n [] n
  | down {n m t : SuiteNode} {path : List SuiteNode} : m ∈ n.children → Leads m path t →
      Leads n (n :: path) t

def parentAlong : Option String → List SuiteNode → Option String
  | parent?, [] => parent?
  | parent?, g :: path => parentAlong (some (g.uniqueId parent?)) path

def identifiersAlong : Option String → List SuiteNode → List Identifier
  | _, [] => []
  | parent?, g :: path => g.identifier parent? :: identifiersAlong (some (g.uniqueId parent?)) path

/-- The ends of those groups of a path that are executed. -/
def endsAlong : List SuiteNode → List Ending
  | [] => []
  | g :: path => g.ending :: if g.isOpen then endsAlong path else []

theorem Leads.mem_listing {path : List SuiteNode} (h : Leads n path t) :
    (t.identifier (parentAlong parent? path), t) ∈ n.listing parent? := by
  induction h generalizing parent? with
  | here =>
    rw [listing_eq]
    exact List.mem_cons_self
  | @down n m t path hm _ ih =>
    rw [listing_eq]
    exact List.mem_cons_of_mem _ (mem_listingAll.2 ⟨m, hm, ih⟩)

theorem Leads.identifiersAlong_mem {path : List SuiteNode} (h : Leads n path t) {i : Identifier}
    (hi : i ∈ identifiersAlong parent? path) : i ∈ n.identifiersIn parent? := by
  induction h generalizing parent? with
  | here => cases hi
  | @down n m t path hm _ ih =>
    rw [identifiersIn_eq]
    rcases List.mem_cons.1 hi with rfl | hi
    · exact List.mem_cons_self
    · exact List.mem_cons_of_mem _ (mem_identifiersInAll.2 ⟨m, hm, ih hi⟩)

theorem Runs.ends_along {path : List SuiteNode} (hpath : Leads n path t)
    (h : Runs parent? n ms) (hnodup : ((n.identifiersIn parent?).map (·.id)).Nodup) :
    ((identifiersAlong parent? path).filterMap fun i => endIn (callsOf ms) i.id) =
        endsAlong path ∧
      endIn (callsOf ms) (t.uniqueId (parentAlong parent? path)) =
        if path.all isOpen then some t.ending else none := by
  induction hpath generalizing parent? ms with
  | here => exact ⟨rfl, h.endIn_self⟩
  | @down n m t path hm hrest ih =>
    have hself : endIn (callsOf ms) (n.identifier parent?).id = some n.ending := h.endIn_self
    have hbelow : ∀ i ∈ m.identifiersIn (some (n.uniqueId parent?)),
        i ∈ identifiersInAll (some (n.uniqueId parent?)) n.children :=
      fun i hi => mem_identifiersInAll.2 ⟨m, hm, hi⟩
    have ht : t.identifier (parentAlong (some (n.uniqueId parent?)) path) ∈
        m.identifiersIn (some (n.uniqueId parent?)) :=
      mem_identifiersIn hrest.mem_listing
    have hids : ((identifiersAlong parent? (n :: path)).filterMap fun i =>
        endIn (callsOf ms) i.id) = n.ending ::
          (identifiersAlong (some (n.uniqueId parent?)) path).filterMap fun i =>
            endIn (callsOf ms) i.id := by
      simp only [identifiersAlong, List.filterMap_cons, hself]
    rw [hids]
    rcases Bool.eq_false_or_eq_true n.isOpen with hopen | hopen
    · have hall : (n :: path).all isOpen = path.all isOpen := by
        rw [List.all_cons, hopen, Bool.true_and]
      have hchildren := nodup_children hnodup
      obtain ⟨inner, hinner, hends⟩ := h.endIn_open hopen
      obtain ⟨xs, hxs, hchild⟩ := hinner.endIn_mem hchildren hm
      have hsame : ∀ i ∈ m.identifiersIn (some (n.uniqueId parent?)),
          endIn (callsOf ms) i.id = endIn (callsOf xs) i.id :=
        fun i hi => (hends i (hbelow i hi)).trans (hchild i hi)
      obtain ⟨hgroups, hnode⟩ := ih hxs (((sublist_of_mem hm).map _).nodup hchildren)
      rw [hall]
      refine ⟨?_, (hsame _ ht).trans hnode⟩
      rw [endsAlong, if_pos hopen, ← hgroups]
      congr 1
      apply List.filterMap_congr
      intro i hi
      exact hsame i (hrest.identifiersAlong_mem hi)
    · have hall : (n :: path).all isOpen = false := by
        rw [List.all_cons, hopen, Bool.false_and]
      have hne : ¬ n.isOpen = true := by
        rw [hopen]
        exact Bool.false_ne_true
      rw [hall]
      refine ⟨?_, h.endIn_closed hopen (hbelow _ ht)⟩
      rw [endsAlong, if_neg hne, List.filterMap_eq_nil_iff.2]
      intro i hi
      exact h.endIn_closed hopen (hbelow i (hrest.identifiersAlong_mem hi))

end SuiteNode

namespace Plan

open SuiteNode

variable {p : Plan} {forest : List SuiteNode} {parent? : Option String} {e n t : SuiteNode}
variable {path : List SuiteNode}

theorem line_along (hpath : Leads n path t)
    (hlisted : ∀ i ∈ n.identifiersIn parent?, i ∈ p.identifiers) {line : List Identifier}
    (hline : p.Line (n.identifier parent?) line) :
    p.Line (t.identifier (parentAlong parent? path))
      ((identifiersAlong parent? path).reverse ++ line) := by
  induction hpath generalizing parent? line with
  | here => exact hline
  | @down n m t path hm _ ih =>
    have hself : n.identifier parent? ∈ p.identifiers := by
      apply hlisted
      rw [identifiersIn_eq]
      exact List.mem_cons_self
    have hparent : p.IsParent (m.identifier (some (n.uniqueId parent?))) (n.identifier parent?) :=
      get?_of_mem hself
    have hbelow : ∀ i ∈ m.identifiersIn (some (n.uniqueId parent?)), i ∈ p.identifiers := by
      intro i hi
      apply hlisted
      rw [identifiersIn_eq]
      exact List.mem_cons_of_mem _ (mem_identifiersInAll.2 ⟨m, hm, hi⟩)
    have hrest := ih hbelow (.step hparent hline)
    rw [identifiersAlong, List.reverse_cons, List.append_assoc]
    exact hrest

theorem Lists.ancestors_eq (h : p.Lists forest) (he : e ∈ forest) (hpath : Leads e path t) :
    p.ancestors (t.identifier (parentAlong none path)) = (identifiersAlong none path).reverse := by
  have hlisted : ∀ i ∈ e.identifiersIn none, i ∈ p.identifiers := by
    intro i hi
    rw [show p.identifiers = _ from h]
    exact mem_identifiersInAll.2 ⟨e, he, hi⟩
  have hline := line_along hpath hlisted (.top rfl)
  rw [List.append_nil] at hline
  exact (line_ancestors h.acyclic (hlisted _ (mem_identifiersIn hpath.mem_listing))).unique hline

end Plan

end TestRun
