import TestRun.Proofs.Suite.Blocks
import TestRun.Proofs.Suite.Depiction
set_option autoImplicit false

/-!
# Holes

A node with a hole in place of one hook or body, of its own or of a node below it. What fills the
hole has no part in the identifiers of a forest, nor in the steps that are taken before it is run;
and if it raises nothing, nor in those after it.
-/

namespace TestRun

/-- A node without the body of one test, or one hook of one group. -/
inductive Hole
  | body (label : Label)
  | before (isEngine : Bool) (label : Label) (after? : Option Body) (children : List SuiteNode)
  | after (isEngine : Bool) (label : Label) (before? : Option Body) (children : List SuiteNode)
  | child (isEngine : Bool) (label : Label) (hooks : Hooks) (left : List SuiteNode) (inner : Hole)
      (right : List SuiteNode)

namespace Hole

open SuiteNode

def fill : Hole → Option Body → SuiteNode
  | body label, body? => .test label body?
  | before isEngine label after? children, body? => .group isEngine label ⟨body?, after?⟩ children
  | after isEngine label before? children, body? => .group isEngine label ⟨before?, body?⟩ children
  | child isEngine label hooks left inner right, body? =>
    .group isEngine label hooks (left ++ inner.fill body? :: right)

def identifier (hole : Hole) (parent? : Option String) : Identifier :=
  (hole.fill none).identifier parent?

def owner (parent? : Option String) : Hole → Identifier
  | child isEngine label hooks left inner right =>
    inner.owner (some ((child isEngine label hooks left inner right).identifier parent?).id)
  | hole => hole.identifier parent?

/-- The nodes that are not done when what fills the hole is run: those on the way down to its owner,
and the owner. -/
def chain (parent? : Option String) : Hole → List Identifier
  | child isEngine label hooks left inner right =>
    let i := (child isEngine label hooks left inner right).identifier parent?
    i :: inner.chain (some i.id)
  | hole => [hole.identifier parent?]

/-- The execution of the node comes to the hole, unless it is broken off: no node on the way down is
skipped, and no hook keeps the children from their turn. -/
def IsReached : Hole → Prop
  | body label | before _ label _ _ | after _ label _ _ => label.skip? = none
  | child _ label hooks _ inner _ =>
    label.skip? = none ∧ Body.raised? hooks.before? = none ∧ inner.IsReached

def ahead (parent? : Option String) : Hole → List Step
  | body label => [.tell (.started ((body label).identifier parent?))]
  | before isEngine label after? children =>
    [.tell (.started ((before isEngine label after? children).identifier parent?))]
  | after isEngine label before? children =>
    let i := (after isEngine label before? children).identifier parent?
    .tell (.started i) :: .run i before? ::
      if (Body.raised? before?).isNone then blockAll (some i.id) children else []
  | child isEngine label hooks left inner right =>
    let i := (child isEngine label hooks left inner right).identifier parent?
    .tell (.started i) :: .run i hooks.before? ::
      (blockAll (some i.id) left ++ inner.ahead (some i.id))

def behind (parent? : Option String) : Hole → List Step
  | body label => [.tell (.finished ((body label).identifier parent?) .successful)]
  | before isEngine label after? children =>
    let i := (before isEngine label after? children).identifier parent?
    blockAll (some i.id) children ++
      [.run i after?, .tell (.finished i (.after (Body.raised? after?)))]
  | after isEngine label before? children =>
    [.tell (.finished ((after isEngine label before? children).identifier parent?)
      (.after (Body.raised? before?)))]
  | child isEngine label hooks left inner right =>
    let i := (child isEngine label hooks left inner right).identifier parent?
    inner.behind (some i.id) ++ blockAll (some i.id) right ++
      [.run i hooks.after?, .tell (.finished i (.after (Body.raised? hooks.after?)))]

variable {parent? : Option String} {body? body'? : Option Body} {hole : Hole}

theorem identifier_fill (hole : Hole) (body? : Option Body) (parent? : Option String) :
    (hole.fill body?).identifier parent? = hole.identifier parent? := by
  have hgroup (isEngine : Bool) (label : Label) (hooks hooks' : Hooks) (ns ms : List SuiteNode) :
      (group isEngine label hooks ns).identifier parent? =
        (group isEngine label hooks' ms).identifier parent? := by
    cases isEngine <;> rfl
  cases hole with
  | body label => rfl
  | before _ _ _ _ | after _ _ _ _ | child _ _ _ _ _ _ => exact hgroup _ _ _ _ _ _

theorem exists_fill {n g : SuiteNode} {i : Identifier} {body : Body}
    (hmem : (i, g) ∈ n.listing parent?) (hbody : body ∈ g.code) :
    ∃ hole : Hole, hole.fill (some body) = n ∧ hole.owner parent? = i := by
  induction n using induct generalizing parent? with
  | step n ih =>
    rw [listing_eq] at hmem
    rcases List.mem_cons.1 hmem with heq | hmem
    · obtain ⟨rfl, rfl⟩ := Prod.mk.inj heq
      cases g with
      | test label body? =>
        obtain rfl := Option.mem_toList.1 hbody
        exact ⟨.body label, rfl, rfl⟩
      | group isEngine label hooks children =>
        rcases hooks with ⟨before?, after?⟩
        rcases List.mem_append.1 hbody with hbody | hbody
        · obtain rfl := Option.mem_toList.1 hbody
          exact ⟨before isEngine label after? children, rfl, (identifier_fill _ _ _).symm⟩
        · obtain rfl := Option.mem_toList.1 hbody
          exact ⟨after isEngine label before? children, rfl, (identifier_fill _ _ _).symm⟩
    · cases n with
      | test label body? =>
        rw [show (test label body?).children = [] from rfl, listingAll_nil] at hmem
        cases hmem
      | group isEngine label hooks children =>
        obtain ⟨m, hm, hmem⟩ := mem_listingAll.1 hmem
        obtain ⟨inner, rfl, hown⟩ := ih m hm hmem
        obtain ⟨left, right, hsplit⟩ := List.append_of_mem hm
        have hsplit : children = left ++ inner.fill (some body) :: right := hsplit
        exact ⟨child isEngine label hooks left inner right, by rw [hsplit]; rfl, hown⟩

theorem exists_fill_forest {forest : List SuiteNode} {g : SuiteNode} {i : Identifier} {body : Body}
    (hmem : (i, g) ∈ listingAll none forest) (hbody : body ∈ g.code) :
    ∃ (left : List SuiteNode) (hole : Hole) (right : List SuiteNode),
      forest = left ++ hole.fill (some body) :: right ∧ hole.owner none = i := by
  obtain ⟨e, he, hmem⟩ := mem_listingAll.1 hmem
  obtain ⟨hole, rfl, hown⟩ := exists_fill hmem hbody
  obtain ⟨left, right, hsplit⟩ := List.append_of_mem he
  exact ⟨left, hole, right, hsplit, hown⟩

theorem identifiersInAll_around {n m : SuiteNode}
    (h : n.identifiersIn parent? = m.identifiersIn parent?) (left right : List SuiteNode) :
    identifiersInAll parent? (left ++ n :: right) =
      identifiersInAll parent? (left ++ m :: right) := by
  rw [identifiersInAll_append, identifiersInAll_append, identifiersInAll_cons,
    identifiersInAll_cons, h]

theorem identifiersIn_fill (hole : Hole) (body? body'? : Option Body) (parent? : Option String) :
    (hole.fill body?).identifiersIn parent? = (hole.fill body'?).identifiersIn parent? := by
  induction hole generalizing parent? with
  | body label =>
    rw [identifiersIn_eq, identifiersIn_eq]
    rfl
  | before isEngine label after? children =>
    rw [identifiersIn_eq, identifiersIn_eq, identifier_fill, identifier_fill]
    rfl
  | after isEngine label before? children =>
    rw [identifiersIn_eq, identifiersIn_eq, identifier_fill, identifier_fill]
    rfl
  | child isEngine label hooks left inner right ih =>
    rw [identifiersIn_eq, identifiersIn_eq, identifier_fill, identifier_fill]
    exact congrArg _ (identifiersInAll_around (ih _) left right)

theorem ofForest_fill {left right : List SuiteNode} {d : Discovery}
    (hd : Discovery.ofForest (left ++ hole.fill body? :: right) = .ok d) (body'? : Option Body) :
    ∃ d', Discovery.ofForest (left ++ hole.fill body'? :: right) = .ok d' ∧
      d'.identifiers = d.identifiers := by
  have hfinds := Discovery.finds_of_forest hd
  have hsame : identifiersInAll none (left ++ hole.fill body'? :: right) =
      identifiersInAll none (left ++ hole.fill body? :: right) :=
    identifiersInAll_around (hole.identifiersIn_fill body'? body? none) left right
  have hnodup : ((identifiersInAll none (left ++ hole.fill body'? :: right)).map (·.id)).Nodup := by
    rw [hsame, identifiersInAll, List.map_map]
    exact hfinds.nodup
  obtain ⟨d', hd'⟩ := Discovery.exists_of_nodup hnodup
  refine ⟨d', hd', ?_⟩
  rw [(Discovery.finds_of_forest hd').identifiers_eq, hfinds.identifiers_eq]
  exact hsame

theorem block_fill (h : hole.IsReached) (body? : Option Body) (parent? : Option String) :
    ∃ rest, (hole.fill body?).block parent? =
        hole.ahead parent? ++ .run (hole.owner parent?) body? :: rest ∧
      (Body.raised? body? = none → rest = hole.behind parent?) := by
  induction hole generalizing parent? with
  | body label =>
    refine ⟨_, block_test h body? parent?, fun hnone => ?_⟩
    rw [hnone]
    rfl
  | before isEngine label after? children =>
    have hi := (before isEngine label after? children).identifier_fill body? parent?
    unfold fill at hi ⊢
    cases hraised : Body.raised? body? with
    | none =>
      refine ⟨(before isEngine label after? children).behind parent?, ?_, fun _ => rfl⟩
      rw [block_open h hraised, hi]
      rfl
    | some f =>
      rw [block_blocked h hraised, hi]
      exact ⟨_, rfl, nofun⟩
  | after isEngine label before? children =>
    have hi := (after isEngine label before? children).identifier_fill body? parent?
    unfold fill at hi ⊢
    unfold ahead behind
    cases hraised : Body.raised? before? with
    | none =>
      rw [block_open h hraised, hi]
      refine ⟨_, rfl, fun hnone => ?_⟩
      rw [hnone]
    | some f =>
      rw [block_blocked h hraised, hi]
      exact ⟨_, rfl, fun _ => rfl⟩
  | child isEngine label hooks left inner right ih =>
    let i := (child isEngine label hooks left inner right).identifier parent?
    obtain ⟨hskip, hraised, hreached⟩ := h
    obtain ⟨rest, hblock, hrest⟩ := ih hreached (some i.id)
    have hi := (child isEngine label hooks left inner right).identifier_fill body? parent?
    let last := [Step.run i hooks.after?, .tell (.finished i (.after (Body.raised? hooks.after?)))]
    refine ⟨rest ++ blockAll (some i.id) right ++ last, ?_, fun hnone => ?_⟩
    · unfold fill at hi ⊢
      unfold ahead owner
      rw [block_open hskip hraised, hi]
      dsimp only
      rw [blockAll_append, blockAll, hblock]
      simp [i, last]
    · rw [hrest hnone]
      rfl

theorem chain_subset (hole : Hole) (body? : Option Body) (parent? : Option String) :
    hole.chain parent? ⊆ (hole.fill body?).identifiersIn parent? := by
  induction hole generalizing parent? with
  | body label | before isEngine label after? children | after isEngine label before? children =>
    rw [identifiersIn_eq, identifier_fill]
    exact List.cons_subset.2 ⟨List.mem_cons_self, List.nil_subset _⟩
  | child isEngine label hooks left inner right ih =>
    rw [identifiersIn_eq, identifier_fill]
    intro i hi
    rcases List.mem_cons.1 hi with rfl | hi
    · exact List.mem_cons_self
    · exact List.mem_cons_of_mem _ (mem_identifiersInAll.2
        ⟨_, List.mem_append_right _ List.mem_cons_self, ih _ hi⟩)

theorem exists_leads (hole : Hole) (body? : Option Body) (parent? : Option String) :
    ∃ path t, Leads (hole.fill body?) path t ∧
      t.identifier (parentAlong parent? path) = hole.owner parent? ∧
      hole.chain parent? = identifiersAlong parent? path ++ [hole.owner parent?] := by
  induction hole generalizing parent? with
  | body label | before isEngine label after? children | after isEngine label before? children =>
    exact ⟨[], _, .here, identifier_fill _ body? parent?, rfl⟩
  | child isEngine label hooks left inner right ih =>
    let n := (child isEngine label hooks left inner right).fill body?
    have hi : n.identifier parent? = (child isEngine label hooks left inner right).identifier parent? :=
      identifier_fill _ body? parent?
    obtain ⟨path, t, hleads, howner, hchain⟩ := ih (some (n.uniqueId parent?))
    have hid : n.uniqueId parent? =
        ((child isEngine label hooks left inner right).identifier parent?).id := congrArg (·.id) hi
    have hmem : inner.fill body? ∈ n.children := List.mem_append_right left List.mem_cons_self
    refine ⟨n :: path, t, .down hmem hleads, ?_, ?_⟩
    · rw [parentAlong, howner, hid]
      rfl
    · rw [identifiersAlong, hi, List.cons_append]
      unfold chain owner
      dsimp only
      rw [← hid, hchain]

theorem identifier_mem_chain (hole : Hole) (parent? : Option String) :
    hole.identifier parent? ∈ hole.chain parent? := by
  cases hole <;> exact List.mem_cons_self

theorem mem_chain {p : Plan} {left right : List SuiteNode}
    (hp : p.Lists (left ++ hole.fill body? :: right)) {i : Identifier} :
    i ∈ hole.chain none ↔ i ∈ hole.owner none :: p.ancestors (hole.owner none) := by
  obtain ⟨path, t, hleads, howner, hchain⟩ := hole.exists_leads body? none
  have hmem : hole.fill body? ∈ left ++ hole.fill body? :: right :=
    List.mem_append_right _ List.mem_cons_self
  rw [hchain, ← howner, hp.ancestors_eq hmem hleads, List.mem_append, List.mem_singleton,
    List.mem_cons, List.mem_reverse, or_comm]

theorem untold_blockAll {ns : List SuiteNode} {c : Tree.Call} {i : Identifier}
    (hc : c.identifier = i) (h : i ∉ identifiersInAll parent? ns) :
    .tell c ∉ blockAll parent? ns := by
  intro hmem
  obtain ⟨m, hm, hblock⟩ := mem_blockAll.1 hmem
  exact h (hc ▸ mem_identifiersInAll.2 ⟨m, hm, identifier_mem_of_block hblock⟩)

theorem not_mem_left {left right : List SuiteNode}
    (h : (identifiersInAll parent? (left ++ hole.fill body? :: right)).Nodup) {i : Identifier}
    (hi : i ∈ (hole.fill body?).identifiersIn parent?) : i ∉ identifiersInAll parent? left := by
  rw [identifiersInAll_append, identifiersInAll_cons, List.nodup_append] at h
  exact fun hmem => h.2.2 i hmem i (List.mem_append_left _ hi) rfl

theorem identifier_mem_of_ahead (h : hole.IsReached) (body? : Option Body) {step : Step}
    (hstep : step ∈ hole.ahead parent?) :
    step.identifier ∈ (hole.fill body?).identifiersIn parent? := by
  obtain ⟨rest, hblock, -⟩ := hole.block_fill h body? parent?
  apply identifier_mem_of_block
  rw [hblock]
  exact List.mem_append_left _ hstep

theorem unended_ahead (h : hole.IsReached)
    (hnodup : ((hole.fill body?).identifiersIn parent?).Nodup) {c : Tree.Call}
    (hends : c.ending? ≠ none) {i : Identifier} (hc : c.identifier = i)
    (hi : i ∈ hole.chain parent?) : .tell c ∉ hole.ahead parent? := by
  induction hole generalizing parent? with
  | body label | before isEngine label after? children =>
    rintro (_ | ⟨_, ⟨⟩⟩)
    exact hends rfl
  | after isEngine label before? children =>
    obtain rfl := List.mem_singleton.1 hi
    rw [identifiersIn_eq, identifier_fill, List.nodup_cons] at hnodup
    unfold ahead
    rintro (_ | ⟨_, _ | ⟨_, hmem⟩⟩)
    · exact hends rfl
    · split at hmem
      · exact untold_blockAll hc hnodup.1 hmem
      · cases hmem
  | child isEngine label hooks left inner right ih =>
    let own := (child isEngine label hooks left inner right).identifier parent?
    obtain ⟨-, -, hreached⟩ := h
    rw [identifiersIn_eq, identifier_fill, List.nodup_cons] at hnodup
    obtain ⟨hown, hbelow⟩ :
      own ∉ identifiersInAll (some own.id) (left ++ inner.fill body? :: right) ∧
        (identifiersInAll (some own.id) (left ++ inner.fill body? :: right)).Nodup := hnodup
    rw [identifiersInAll_append, List.mem_append, not_or] at hown
    have hinner : ((inner.fill body?).identifiersIn (some own.id)).Nodup :=
      (sublist_of_mem (List.mem_append_right _ List.mem_cons_self)).nodup hbelow
    unfold ahead
    rintro (_ | ⟨_, _ | ⟨_, hmem⟩⟩)
    · exact hends rfl
    · rcases List.mem_cons.1 hi with rfl | hi <;> rcases List.mem_append.1 hmem with hmem | hmem
      · exact untold_blockAll hc hown.1 hmem
      · have hat := identifier_mem_of_ahead hreached body? hmem
        rw [show (Step.tell c).identifier = own from hc] at hat
        exact hown.2 (mem_identifiersInAll.2 ⟨_, List.mem_cons_self, hat⟩)
      · exact untold_blockAll hc (not_mem_left hbelow (inner.chain_subset body? _ hi)) hmem
      · exact ih hreached hinner hi hmem

end Hole

end TestRun
