import Mathlib.Algebra.GroupWithZero.Nat
import TestRun.Proofs.Suite.Running
set_option autoImplicit false

/-!
# Blocks

Execution of a forest takes a row of steps: the block of each node, with the blocks of its children
inside. A step tells the listeners of a call, or runs a hook or a body of a node. Each node of the
forest has its block in one place of the row, or nowhere.
-/

namespace TestRun

open TestRun.Tree (Call)

inductive Step
  | tell (c : Call)
  | run (i : Identifier) (body? : Option Body)

namespace Body

def fired : Body → List Event
  | .fire e :: rest => e :: fired rest
  | .tick _ :: rest => fired rest
  | .assume condition _ :: rest => if condition.isTruthy then fired rest else []
  | [] | .raise _ :: _ | .abort _ :: _ | .giveBack _ :: _ => []

end Body

namespace Step

def identifier : Step → Identifier
  | tell c => c.identifier
  | run i _ => i

def heard : Step → List Event
  | tell c => [c.event]
  | run _ body? => (body?.map Body.fired).getD []

/-- How often a step reads the clock, where no listener does. -/
def readings : Step → Nat
  | tell _ => 0
  | run _ body? => (Body.readingsOf body?).sum

def heardAll (steps : List Step) : List Event := steps.flatMap heard

def readingsAll (steps : List Step) : Nat := (steps.map readings).sum

theorem heardAll_append (xs ys : List Step) : heardAll (xs ++ ys) = heardAll xs ++ heardAll ys :=
  List.flatMap_append

theorem readingsAll_append (xs ys : List Step) :
    readingsAll (xs ++ ys) = readingsAll xs + readingsAll ys := by
  unfold readingsAll
  rw [List.map_append, List.sum_append]

end Step

namespace SuiteNode

open Step

mutual

/-- The steps that a node takes, and all below it. -/
def block (parent? : Option String) : SuiteNode → List Step
  | test label body? =>
    let i := (test label body?).identifier parent?
    match label.skip? with
    | some reason => [.tell (.skipped i (some reason))]
    | none =>
      [.tell (.started i), .run i body?, .tell (.finished i (.after (Body.raised? body?)))]
  | group isEngine label hooks children =>
    let i := (group isEngine label hooks children).identifier parent?
    match label.skip? with
    | some reason => [.tell (.skipped i (some reason))]
    | none =>
      let before := ExecutionResult.after (Body.raised? hooks.before?)
      let after := ExecutionResult.after (Body.raised? hooks.after?)
      [.tell (.started i), .run i hooks.before?] ++
        (if before.status = .successful then blockAll (some i.id) children else []) ++
        [.run i hooks.after?,
          .tell (.finished i (if before.status = .successful then after else before))]

def blockAll (parent? : Option String) : List SuiteNode → List Step
  | [] => []
  | n :: rest => block parent? n ++ blockAll parent? rest

end

theorem block_skipped {n : SuiteNode} {reason : String} (h : n.label.skip? = some reason)
    (parent? : Option String) :
    n.block parent? = [.tell (.skipped (n.identifier parent?) (some reason))] := by
  cases n with
  | test label body? =>
    rw [block]
    simp only [show label.skip? = some reason from h]
  | group isEngine label hooks children =>
    rw [block]
    simp only [show label.skip? = some reason from h]

theorem block_test {label : Label} (h : label.skip? = none) (body? : Option Body)
    (parent? : Option String) :
    (test label body?).block parent? =
      [.tell (.started ((test label body?).identifier parent?)),
        .run ((test label body?).identifier parent?) body?,
        .tell (.finished ((test label body?).identifier parent?) (.after (Body.raised? body?)))] := by
  rw [block]
  simp only [h]

theorem block_group {label : Label} (h : label.skip? = none) (isEngine : Bool) (hooks : Hooks)
    (children : List SuiteNode) (parent? : Option String) :
    (group isEngine label hooks children).block parent? =
      let i := (group isEngine label hooks children).identifier parent?
      let before := ExecutionResult.after (Body.raised? hooks.before?)
      [.tell (.started i), .run i hooks.before?] ++
        (if before.status = .successful then blockAll (some i.id) children else []) ++
        [.run i hooks.after?, .tell (.finished i (if before.status = .successful
          then .after (Body.raised? hooks.after?) else before))] := by
  rw [block]
  simp only [h]

section Group

variable {label : Label} {isEngine : Bool} {hooks : Hooks} {children : List SuiteNode}

theorem block_open (h : label.skip? = none) (hraised : Body.raised? hooks.before? = none)
    (parent? : Option String) :
    (group isEngine label hooks children).block parent? =
      let i := (group isEngine label hooks children).identifier parent?
      .tell (.started i) :: .run i hooks.before? :: (blockAll (some i.id) children ++
        [.run i hooks.after?, .tell (.finished i (.after (Body.raised? hooks.after?)))]) := by
  have hpassed := (ExecutionResult.status_after _).2 hraised
  rw [block_group h]
  dsimp only
  rw [if_pos hpassed, if_pos hpassed, List.append_assoc]
  rfl

theorem block_blocked (h : label.skip? = none) {f : Fault}
    (hraised : Body.raised? hooks.before? = some f) (parent? : Option String) :
    (group isEngine label hooks children).block parent? =
      let i := (group isEngine label hooks children).identifier parent?
      [.tell (.started i), .run i hooks.before?, .run i hooks.after?,
        .tell (.finished i (.after (some f)))] := by
  have hfailed : ¬ (ExecutionResult.after (Body.raised? hooks.before?)).status = .successful := by
    rw [ExecutionResult.status_after, hraised]
    exact nofun
  rw [block_group h]
  dsimp only
  rw [if_neg hfailed, if_neg hfailed, hraised]
  rfl

end Group

theorem blockAll_append (parent? : Option String) (ns ms : List SuiteNode) :
    blockAll parent? (ns ++ ms) = blockAll parent? ns ++ blockAll parent? ms := by
  induction ns with
  | nil => rw [blockAll, List.nil_append, List.nil_append]
  | cons n ns ih => rw [List.cons_append, blockAll, blockAll, ih, List.append_assoc]

end SuiteNode

/-- The inner row stands in one place of a row of steps, and no step on one of the identifiers stands
elsewhere; or no step of the row is on one of them. -/
inductive Step.Placed (steps inner : List Step) (is : List Identifier) : Prop
  | once (before after : List Step) : steps = before ++ inner ++ after →
      (∀ step ∈ before ++ after, step.identifier ∉ is) → Placed steps inner is
  | nowhere : (∀ step ∈ steps, step.identifier ∉ is) → Placed steps inner is

theorem Step.Placed.frame {steps inner : List Step} {is : List Identifier}
    (h : Step.Placed steps inner is) (first last : List Step)
    (hframe : ∀ step ∈ first ++ last, step.identifier ∉ is) :
    Step.Placed (first ++ steps ++ last) inner is := by
  rw [List.forall_mem_append] at hframe
  obtain ⟨hfirst, hlast⟩ := hframe
  cases h with
  | once before after heq hother =>
    rw [List.forall_mem_append] at hother
    refine .once (first ++ before) (after ++ last) (by simp [heq]) ?_
    simp only [List.forall_mem_append]
    exact ⟨⟨hfirst, hother.1⟩, hother.2, hlast⟩
  | nowhere hnone =>
    refine .nowhere ?_
    simp only [List.forall_mem_append]
    exact ⟨⟨hfirst, hnone⟩, hlast⟩

namespace SuiteNode

open Step

variable {parent? : Option String} {n g : SuiteNode} {j : Identifier}

theorem mem_blockAll {ns : List SuiteNode} {step : Step} :
    step ∈ blockAll parent? ns ↔ ∃ m ∈ ns, step ∈ m.block parent? := by
  induction ns with
  | nil => simp [blockAll]
  | cons n rest ih =>
    rw [blockAll, List.mem_append, ih]
    simp

theorem exists_end (n : SuiteNode) (parent? : Option String) :
    ∃ c, .tell c ∈ n.block parent? ∧ c.identifier = n.identifier parent? ∧ c.ending? ≠ none := by
  cases hskip : n.label.skip? with
  | some reason =>
    rw [block_skipped hskip]
    exact ⟨_, List.mem_singleton_self _, rfl, nofun⟩
  | none =>
    cases n with
    | test label body? =>
      rw [block_test (show label.skip? = none from hskip)]
      exact ⟨_, List.mem_cons_of_mem _ (List.mem_cons_of_mem _ List.mem_cons_self), rfl, nofun⟩
    | group isEngine label hooks children =>
      rw [block_group (show label.skip? = none from hskip)]
      exact ⟨_, List.mem_append_right _ (List.mem_cons_of_mem _ List.mem_cons_self), rfl, nofun⟩

theorem identifier_mem_of_block {step : Step} (h : step ∈ n.block parent?) :
    step.identifier ∈ n.identifiersIn parent? := by
  induction n using induct generalizing parent? with
  | step n ih =>
    rw [identifiersIn_eq]
    cases hskip : n.label.skip? with
    | some reason =>
      rw [block_skipped hskip] at h
      obtain rfl := List.mem_singleton.1 h
      exact List.mem_cons_self
    | none =>
      cases n with
      | test label body? =>
        rw [block_test (show label.skip? = none from hskip)] at h
        simp only [List.mem_cons, List.not_mem_nil, or_false] at h
        rcases h with rfl | rfl | rfl <;> exact List.mem_cons_self
      | group isEngine label hooks children =>
        rw [block_group (show label.skip? = none from hskip)] at h
        rcases List.mem_append.1 h with h | h
        · rcases List.mem_append.1 h with h | h
          · simp only [List.mem_cons, List.not_mem_nil, or_false] at h
            rcases h with rfl | rfl <;> exact List.mem_cons_self
          · split at h
            · obtain ⟨m, hm, hstep⟩ := mem_blockAll.1 h
              exact List.mem_cons_of_mem _ (mem_identifiersInAll.2 ⟨m, hm, ih m hm hstep⟩)
            · cases h
        · simp only [List.mem_cons, List.not_mem_nil, or_false] at h
          rcases h with rfl | rfl <;> exact List.mem_cons_self

theorem identifiersIn_subset (h : (j, g) ∈ n.listing parent?) :
    g.identifiersIn j.parent ⊆ n.identifiersIn parent? := by
  obtain ⟨q, rfl, hsub⟩ := listing_of_mem h
  exact (hsub.map _).subset

theorem placed_blockAll {ns : List SuiteNode} {m : SuiteNode} {inner : List Step}
    {is : List Identifier} (hnodup : (identifiersInAll parent? ns).Nodup) (hm : m ∈ ns)
    (his : is ⊆ m.identifiersIn parent?) (h : Placed (m.block parent?) inner is) :
    Placed (blockAll parent? ns) inner is := by
  induction ns with
  | nil => cases hm
  | cons n rest ih =>
    rw [identifiersInAll_cons, List.nodup_append] at hnodup
    obtain ⟨-, hrest, hapart⟩ := hnodup
    rw [blockAll]
    rcases List.mem_cons.1 hm with rfl | hm
    · refine h.frame [] _ fun step hstep hmem => ?_
      obtain ⟨k, hk, hstep⟩ := mem_blockAll.1 hstep
      exact hapart _ (his hmem) _
        (mem_identifiersInAll.2 ⟨k, hk, identifier_mem_of_block hstep⟩) rfl
    · have hplaced := (ih hrest hm).frame (n.block parent?) []
        fun step hstep hmem => by
          rw [List.append_nil] at hstep
          exact hapart _ (identifier_mem_of_block hstep) _
            (mem_identifiersInAll.2 ⟨m, hm, his hmem⟩) rfl
      rw [List.append_nil] at hplaced
      exact hplaced

/-- Where identifiers are unique, a listed node has its block in one place of the block above it, or
nowhere. -/
theorem placed_block (hnodup : (n.identifiersIn parent?).Nodup) (hmem : (j, g) ∈ n.listing parent?) :
    Placed (n.block parent?) (g.block j.parent) (g.identifiersIn j.parent) := by
  induction n using induct generalizing parent? with
  | step n ih =>
    rw [listing_eq] at hmem
    rcases List.mem_cons.1 hmem with heq | hmem
    · cases heq
      exact .once [] [] (List.append_nil _).symm (List.forall_mem_nil _)
    rw [identifiersIn_eq, List.nodup_cons] at hnodup
    obtain ⟨m, hm, hjm⟩ := mem_listingAll.1 hmem
    have hbelow := identifiersIn_subset hjm
    have habove : n.identifier parent? ∉ g.identifiersIn j.parent := fun hin =>
      hnodup.1 (mem_identifiersInAll.2 ⟨m, hm, hbelow hin⟩)
    cases hskip : n.label.skip? with
    | some reason =>
      rw [block_skipped hskip]
      exact .nowhere (List.forall_mem_singleton.2 habove)
    | none =>
      cases n with
      | test label body? => cases hm
      | group isEngine label hooks children =>
        have hinner := placed_blockAll hnodup.2 hm hbelow
          (ih m hm (((sublist_of_mem hm)).nodup hnodup.2) hjm)
        have hnone : Placed [] (g.block j.parent) (g.identifiersIn j.parent) :=
          .nowhere (List.forall_mem_nil _)
        rw [block_group (show label.skip? = none from hskip)]
        dsimp only
        refine Placed.frame ?_ _ _ fun step hstep => ?_
        · split
          · exact hinner
          · exact hnone
        · simp only [List.cons_append, List.nil_append, List.mem_cons, List.not_mem_nil,
            or_false] at hstep
          rcases hstep with rfl | rfl | rfl | rfl <;> exact habove

def own (parent? : Option String) (n : SuiteNode) : List Step :=
  let i := n.identifier parent?
  match n.label.skip? with
  | some reason => [.tell (.skipped i (some reason))]
  | none =>
    match n with
    | test _ body? =>
      [.tell (.started i), .run i body?, .tell (.finished i (.after (Body.raised? body?)))]
    | group _ _ hooks _ =>
      let before := ExecutionResult.after (Body.raised? hooks.before?)
      let after := ExecutionResult.after (Body.raised? hooks.after?)
      [.tell (.started i), .run i hooks.before?, .run i hooks.after?,
        .tell (.finished i (if before.status = .successful then after else before))]

theorem filter_on_self {i : Identifier} {steps : List Step}
    (h : ∀ step ∈ steps, step.identifier = i) :
    (steps.filter fun step => step.identifier = i) = steps :=
  List.filter_eq_self.2 fun step hstep => decide_eq_true (h step hstep)

theorem filter_block (hnodup : (n.identifiersIn parent?).Nodup) :
    ((n.block parent?).filter fun step => step.identifier = n.identifier parent?) =
      n.own parent? := by
  cases hskip : n.label.skip? with
  | some reason =>
    unfold own
    rw [block_skipped hskip, hskip]
    exact filter_on_self (List.forall_mem_singleton.2 rfl)
  | none =>
    cases n with
    | test label body? =>
      rw [block_test (show label.skip? = none from hskip), own, hskip]
      exact filter_on_self (by simp only [List.forall_mem_cons]; exact ⟨rfl, rfl, rfl, nofun⟩)
    | group isEngine label hooks children =>
      rw [identifiersIn_eq, List.nodup_cons] at hnodup
      let i := (group isEngine label hooks children).identifier parent?
      have hinner (steps : List Step) (hsteps : steps ⊆ blockAll (some i.id) children) :
          (steps.filter fun step => step.identifier = i) = [] := by
        refine List.filter_eq_nil_iff.2 fun step hstep heq => hnodup.1 ?_
        obtain ⟨m, hm, hstep⟩ := mem_blockAll.1 (hsteps hstep)
        have hlisted : step.identifier ∈ identifiersInAll (some i.id) children :=
          mem_identifiersInAll.2 ⟨m, hm, identifier_mem_of_block hstep⟩
        rw [show step.identifier = i from of_decide_eq_true heq] at hlisted
        exact hlisted
      have hpair (first second : Step) (hfirst : first.identifier = i)
          (hsecond : second.identifier = i) :
          ([first, second].filter fun step => step.identifier = i) = [first, second] :=
        filter_on_self (List.forall_mem_cons.2 ⟨hfirst, List.forall_mem_singleton.2 hsecond⟩)
      rw [block_group (show label.skip? = none from hskip), own, hskip]
      dsimp only
      rw [List.filter_append, List.filter_append, hpair _ _ rfl rfl, hpair _ _ rfl rfl, hinner]
      · rfl
      · split
        · exact List.Subset.refl _
        · exact List.nil_subset _

theorem filter_of_placed {steps : List Step} (hnodup : (n.identifiersIn parent?).Nodup)
    (h : Placed steps (n.block parent?) (n.identifiersIn parent?)) :
    (steps.filter fun step => step.identifier = n.identifier parent?) = n.own parent? ∨
      (steps.filter fun step => step.identifier = n.identifier parent?) = [] := by
  have hself : n.identifier parent? ∈ n.identifiersIn parent? := by
    rw [identifiersIn_eq]
    exact List.mem_cons_self
  have hnil (steps : List Step) (hsteps : ∀ step ∈ steps, step.identifier ∉ n.identifiersIn parent?) :
      (steps.filter fun step => step.identifier = n.identifier parent?) = [] :=
    List.filter_eq_nil_iff.2 fun step hstep heq =>
      hsteps step hstep ((of_decide_eq_true heq : step.identifier = _) ▸ hself)
  cases h with
  | once before after heq hother =>
    rw [List.forall_mem_append] at hother
    left
    let own (step : Step) : Bool := step.identifier = n.identifier parent?
    calc steps.filter own
      _ = before.filter own ++ (n.block parent?).filter own ++ after.filter own := by
          rw [heq, List.filter_append, List.filter_append]
      _ = (n.block parent?).filter own := by
          rw [hnil before hother.1, hnil after hother.2, List.nil_append, List.append_nil]
      _ = n.own parent? := filter_block hnodup
  | nowhere hnone => exact .inr (hnil steps hnone)

end SuiteNode

end TestRun
