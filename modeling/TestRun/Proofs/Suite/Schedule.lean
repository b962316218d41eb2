import TestRun.Proofs.Suite.Listing
import TestRun.Proofs.Suite.Playing
set_option autoImplicit false

/-!
# Schedules

The moments of executing a node, in every order that workers may bring about: the moments of
siblings mix freely, while a group starts before its children and finishes after them. Whatever
the order, the calls of a schedule end each executed node once, and in the same way.
-/

namespace TestRun

open TestRun.Tree (Call endIn)

/-- The third list takes from the first two in turn, each in its own order. -/
inductive Interleave {α : Type} : List α → List α → List α → Prop
  | nil : Interleave [] [] []
  | left {a xs ys zs} : Interleave xs ys zs → Interleave (a :: xs) ys (a :: zs)
  | right {a xs ys zs} : Interleave xs ys zs → Interleave xs (a :: ys) (a :: zs)

namespace Interleave

variable {α β : Type} {xs ys zs : List α}

theorem append (xs ys : List α) : Interleave xs ys (xs ++ ys) := by
  induction xs with
  | nil =>
    induction ys with
    | nil => exact .nil
    | cons a ys ih => exact .right ih
  | cons a xs ih => exact .left ih

theorem mem_iff (h : Interleave xs ys zs) {a : α} : a ∈ zs ↔ a ∈ xs ∨ a ∈ ys := by
  induction h with
  | nil => simp
  | left _ ih => rw [List.mem_cons, List.mem_cons, ih, or_assoc]
  | right _ ih => rw [List.mem_cons, List.mem_cons, ih, or_left_comm]

theorem filterMap (h : Interleave xs ys zs) (f : α → Option β) :
    Interleave (xs.filterMap f) (ys.filterMap f) (zs.filterMap f) := by
  induction h with
  | nil => exact .nil
  | @left a xs ys zs _ ih =>
    cases ha : f a with
    | none =>
      rw [List.filterMap_cons_none ha, List.filterMap_cons_none ha]
      exact ih
    | some b =>
      rw [List.filterMap_cons_some ha, List.filterMap_cons_some ha]
      exact .left ih
  | @right a xs ys zs _ ih =>
    cases ha : f a with
    | none =>
      rw [List.filterMap_cons_none ha, List.filterMap_cons_none ha]
      exact ih
    | some b =>
      rw [List.filterMap_cons_some ha, List.filterMap_cons_some ha]
      exact .right ih

theorem findSome?_left (h : Interleave xs ys zs) {f : α → Option β}
    (hys : ∀ a ∈ ys, f a = none) : zs.findSome? f = xs.findSome? f := by
  induction h with
  | nil => rfl
  | left _ ih =>
    rw [List.findSome?_cons, List.findSome?_cons, ih hys]
  | right _ ih =>
    rw [List.findSome?_cons, hys _ List.mem_cons_self]
    exact ih fun a ha => hys a (List.mem_cons_of_mem _ ha)

theorem findSome?_right (h : Interleave xs ys zs) {f : α → Option β}
    (hxs : ∀ a ∈ xs, f a = none) : zs.findSome? f = ys.findSome? f := by
  induction h with
  | nil => rfl
  | left _ ih =>
    rw [List.findSome?_cons, hxs _ List.mem_cons_self]
    exact ih fun a ha => hxs a (List.mem_cons_of_mem _ ha)
  | right _ ih =>
    rw [List.findSome?_cons, List.findSome?_cons, ih hxs]

end Interleave

namespace SuiteNode

def setup? : SuiteNode → Option Fault
  | test _ _ => none
  | group _ _ hooks _ => Body.raised? hooks.before?

def teardown? : SuiteNode → Option Fault
  | test _ _ => none
  | group _ _ hooks _ => Body.raised? hooks.after?

def body? : SuiteNode → Option Fault
  | test _ body? => Body.raised? body?
  | group _ _ _ _ => none

/-- The fault that the runner reports for the node: its body's, or the first of its hooks. -/
def fault? (n : SuiteNode) : Option Fault := n.setup?.or (n.body?.or n.teardown?)

def ending (n : SuiteNode) : Ending :=
  match n.label.skip? with
  | some reason => .skipped reason
  | none => .finished (.after n.fault?)

def isOpen (n : SuiteNode) : Bool := n.label.skip?.isNone && n.setup?.isNone

mutual

/-- The moments of executing a node below a parent. -/
inductive Runs : Option String → SuiteNode → List Moment → Prop
  | skipped {parent? n reason} : n.label.skip? = some reason →
      Runs parent? n [.call (.skipped (n.identifier parent?) (some reason))]
  | test {parent? label body?} : label.skip? = none →
      Runs parent? (.test label body?)
        (.call (.started ((test label body?).identifier parent?)) ::
          (Moment.reads (Body.readingsOf body?) ++
            [.call (.finished ((test label body?).identifier parent?)
              (.after (Body.raised? body?)))]))
  | blocked {parent? isEngine label hooks children f} : label.skip? = none →
      Body.raised? hooks.before? = some f →
      Runs parent? (.group isEngine label hooks children)
        (.call (.started ((group isEngine label hooks children).identifier parent?)) ::
          (Moment.reads (Body.readingsOf hooks.before?) ++
            (Moment.reads (Body.readingsOf hooks.after?) ++
              [.call (.finished ((group isEngine label hooks children).identifier parent?)
                (.after (some f)))])))
  | group {parent? isEngine label hooks children inner} : label.skip? = none →
      Body.raised? hooks.before? = none →
      RunsAll (some ((group isEngine label hooks children).uniqueId parent?)) children inner →
      Runs parent? (.group isEngine label hooks children)
        (.call (.started ((group isEngine label hooks children).identifier parent?)) ::
          (Moment.reads (Body.readingsOf hooks.before?) ++
            (inner ++ (Moment.reads (Body.readingsOf hooks.after?) ++
              [.call (.finished ((group isEngine label hooks children).identifier parent?)
                (.after (Body.raised? hooks.after?)))]))))

inductive RunsAll : Option String → List SuiteNode → List Moment → Prop
  | nil {parent?} : RunsAll parent? [] []
  | cons {parent? n rest xs ys zs} : Runs parent? n xs → RunsAll parent? rest ys →
      Interleave xs ys zs → RunsAll parent? (n :: rest) zs

end

inductive RunsForest : List SuiteNode → List Moment → Prop
  | nil : RunsForest [] []
  | cons {e rest xs ys} : Runs none e xs → RunsForest rest ys → RunsForest (e :: rest) (xs ++ ys)

theorem Runs.calls_eq {parent? : Option String} {n : SuiteNode} {ms : List Moment}
    (h : Runs parent? n ms) :
    (∃ reason, n.label.skip? = some reason ∧
      callsOf ms = [.skipped (n.identifier parent?) (some reason)]) ∨
    (n.label.skip? = none ∧ ∃ below,
      callsOf ms = .started (n.identifier parent?) ::
        (below ++ [.finished (n.identifier parent?) (.after n.fault?)]) ∧
      (n.isOpen = true → ∃ inner, RunsAll (some (n.uniqueId parent?)) n.children inner ∧
        below = callsOf inner) ∧
      (n.isOpen = false → below = [])) := by
  cases h with
  | skipped hskip => exact .inl ⟨_, hskip, rfl⟩
  | @test _ label body? hskip =>
    refine .inr ⟨hskip, [], ?_, fun _ => ⟨[], .nil, rfl⟩, fun _ => rfl⟩
    change .started _ :: callsOf _ = _
    rw [callsOf_append, callsOf_reads]
    have hfault : (SuiteNode.test label body?).fault? = Body.raised? body? := Option.or_none
    rw [hfault]
    rfl
  | @blocked _ isEngine label hooks children f hskip hsetup =>
    have hsetup' : (SuiteNode.group isEngine label hooks children).setup? = some f := hsetup
    have hclosed : (SuiteNode.group isEngine label hooks children).isOpen = false := by
      unfold isOpen
      rw [hsetup']
      exact Bool.and_false _
    refine .inr ⟨hskip, [], ?_, fun hopen => ?_, fun _ => rfl⟩
    · change .started _ :: callsOf _ = _
      rw [callsOf_append, callsOf_reads, callsOf_append, callsOf_reads]
      have hfault : (SuiteNode.group isEngine label hooks children).fault? = some f := by
        unfold fault?
        rw [hsetup']
        rfl
      rw [hfault]
      rfl
    · rw [hclosed] at hopen
      cases hopen
  | @group _ isEngine label hooks children inner hskip hsetup hinner =>
    have hsetup' : (SuiteNode.group isEngine label hooks children).setup? = none := hsetup
    have hskip' : (SuiteNode.group isEngine label hooks children).label.skip? = none := hskip
    have hopen : (SuiteNode.group isEngine label hooks children).isOpen = true := by
      unfold isOpen
      rw [hsetup', hskip']
      rfl
    refine .inr ⟨hskip, callsOf inner, ?_, fun _ => ⟨inner, hinner, rfl⟩, fun hclosed => ?_⟩
    · change .started _ :: callsOf _ = _
      rw [callsOf_append, callsOf_reads, callsOf_append, callsOf_append, callsOf_reads]
      have hfault : (SuiteNode.group isEngine label hooks children).fault? =
          Body.raised? hooks.after? := by
        unfold fault?
        rw [hsetup']
        rfl
      rw [hfault]
      rfl
    · rw [hopen] at hclosed
      cases hclosed

theorem RunsAll.mem_callsOf {parent? : Option String} {ns : List SuiteNode} {ms : List Moment}
    (h : RunsAll parent? ns ms) {c : Call} (hc : c ∈ callsOf ms) :
    ∃ m ∈ ns, ∃ xs, Runs parent? m xs ∧ c ∈ callsOf xs := by
  induction ns generalizing ms with
  | nil =>
    cases h
    cases hc
  | cons n rest ih =>
    cases h with
    | cons hn hrest hmix =>
      rcases (hmix.filterMap Moment.call?).mem_iff.1 hc with hc | hc
      · exact ⟨n, List.mem_cons_self, _, hn, hc⟩
      · obtain ⟨m, hm, xs, hxs, hcx⟩ := ih hrest hc
        exact ⟨m, List.mem_cons_of_mem _ hm, xs, hxs, hcx⟩

theorem Runs.identifier_mem {parent? : Option String} {n : SuiteNode} {ms : List Moment}
    (h : Runs parent? n ms) {c : Call} (hc : c ∈ callsOf ms) :
    c.identifier ∈ n.identifiersIn parent? := by
  induction n using induct generalizing parent? ms with
  | step n ih =>
    have hself : n.identifier parent? ∈ n.identifiersIn parent? := by
      rw [identifiersIn_eq]
      exact List.mem_cons_self
    rcases h.calls_eq with ⟨reason, -, hcalls⟩ | ⟨-, below, hcalls, hopen, hclosed⟩
    · rw [hcalls] at hc
      obtain rfl := List.mem_singleton.1 hc
      exact hself
    · rw [hcalls] at hc
      rcases List.mem_cons.1 hc with rfl | hc
      · exact hself
      rcases List.mem_append.1 hc with hc | hc
      · cases hopens : n.isOpen with
        | false =>
          rw [hclosed hopens] at hc
          cases hc
        | true =>
          obtain ⟨inner, hinner, rfl⟩ := hopen hopens
          obtain ⟨m, hm, xs, hxs, hcx⟩ := hinner.mem_callsOf hc
          rw [identifiersIn_eq]
          exact List.mem_cons_of_mem _ (mem_identifiersInAll.2 ⟨m, hm, ih m hm hxs hcx⟩)
      · obtain rfl := List.mem_singleton.1 hc
        exact hself

theorem RunsAll.identifier_mem {parent? : Option String} {ns : List SuiteNode}
    {ms : List Moment} (h : RunsAll parent? ns ms) {c : Call} (hc : c ∈ callsOf ms) :
    c.identifier ∈ identifiersInAll parent? ns := by
  obtain ⟨m, hm, xs, hxs, hcx⟩ := h.mem_callsOf hc
  exact mem_identifiersInAll.2 ⟨m, hm, hxs.identifier_mem hcx⟩

end SuiteNode

end TestRun
