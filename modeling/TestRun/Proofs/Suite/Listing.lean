import TestRun.Proofs.Plan.Ancestry
import TestRun.Suite.Execution
set_option autoImplicit false

namespace TestRun

/-- The name that a label gives, and the id where it gives none or an empty one. -/
def Label.givenName (l : Label) : String := (l.name?.filter (· ≠ "")).getD l.id

theorem Label.shownName_eq (l : Label) : l.shownName = l.givenName := by
  unfold shownName givenName
  cases l.name? with
  | none => rfl
  | some name =>
    by_cases h : name = "" <;> simp [Option.filter_some, h]

namespace SuiteNode

theorem induct {P : SuiteNode → Prop} (step : ∀ n, (∀ m ∈ n.children, P m) → P n)
    (n : SuiteNode) : P n := by
  refine @SuiteNode.rec P (fun ns => ∀ m ∈ ns, P m) ?_ ?_ ?_ ?_ n
  · intro label body?
    exact step _ nofun
  · intro isEngine label hooks children ih
    exact step _ ih
  · exact nofun
  · intro m ns hm hns k hk
    rcases List.mem_cons.1 hk with rfl | hk
    · exact hm
    · exact hns k hk

theorem listing_eq (parent? : Option String) (n : SuiteNode) :
    n.listing parent? =
      (n.identifier parent?, n) :: listingAll (some (n.uniqueId parent?)) n.children := by
  cases n with
  | test label body? =>
    unfold listing children listingAll
    rfl
  | group isEngine label hooks children =>
    rw [listing]
    rfl

theorem listingAll_nil (parent? : Option String) : listingAll parent? [] = [] := by
  rw [listingAll]

theorem listingAll_cons (parent? : Option String) (n : SuiteNode) (rest : List SuiteNode) :
    listingAll parent? (n :: rest) = n.listing parent? ++ listingAll parent? rest := by
  rw [listingAll]

theorem mem_listingAll {parent? : Option String} {ns : List SuiteNode}
    {entry : Identifier × SuiteNode} :
    entry ∈ listingAll parent? ns ↔ ∃ n ∈ ns, entry ∈ n.listing parent? := by
  induction ns with
  | nil => simp [listingAll_nil]
  | cons n rest ih =>
    rw [listingAll_cons, List.mem_append, ih]
    simp

def identifiersIn (parent? : Option String) (n : SuiteNode) : List Identifier :=
  (n.listing parent?).map (·.1)

def identifiersInAll (parent? : Option String) (ns : List SuiteNode) : List Identifier :=
  (listingAll parent? ns).map (·.1)

theorem identifiersIn_eq (parent? : Option String) (n : SuiteNode) :
    n.identifiersIn parent? =
      n.identifier parent? :: identifiersInAll (some (n.uniqueId parent?)) n.children := by
  unfold identifiersIn
  rw [listing_eq]
  rfl

theorem identifiersInAll_cons (parent? : Option String) (n : SuiteNode) (rest : List SuiteNode) :
    identifiersInAll parent? (n :: rest) =
      n.identifiersIn parent? ++ identifiersInAll parent? rest := by
  unfold identifiersInAll
  rw [listingAll_cons, List.map_append]
  rfl

theorem identifiersInAll_append (parent? : Option String) (ns ms : List SuiteNode) :
    identifiersInAll parent? (ns ++ ms) =
      identifiersInAll parent? ns ++ identifiersInAll parent? ms := by
  induction ns with
  | nil => simp [identifiersInAll, listingAll_nil]
  | cons n ns ih =>
    rw [List.cons_append, identifiersInAll_cons, identifiersInAll_cons, ih, List.append_assoc]

theorem mem_identifiersInAll {parent? : Option String} {ns : List SuiteNode} {i : Identifier} :
    i ∈ identifiersInAll parent? ns ↔ ∃ n ∈ ns, i ∈ n.identifiersIn parent? := by
  induction ns with
  | nil => simp [identifiersInAll, listingAll_nil]
  | cons n rest ih =>
    rw [identifiersInAll_cons, List.mem_append, ih]
    simp

theorem sublist_listing {parent? : Option String} {ns : List SuiteNode} {m : SuiteNode}
    (h : m ∈ ns) : (m.listing parent?).Sublist (listingAll parent? ns) := by
  induction ns with
  | nil => cases h
  | cons n rest ih =>
    rw [listingAll_cons]
    rcases List.mem_cons.1 h with rfl | h
    · exact List.sublist_append_left _ _
    · exact (ih h).trans (List.sublist_append_right _ _)

theorem sublist_of_mem {parent? : Option String} {ns : List SuiteNode} {m : SuiteNode}
    (h : m ∈ ns) : (m.identifiersIn parent?).Sublist (identifiersInAll parent? ns) :=
  (sublist_listing h).map _

theorem length_uniqueId (n : SuiteNode) (parent : String) :
    parent.length < (n.uniqueId (some parent)).length := by
  have hlength : (n.uniqueId (some parent)).length = parent.length + 1 + n.label.id.length := by
    unfold uniqueId
    rw [String.length_append, String.length_append]
    rfl
  omega

theorem length_le_of_mem {parent? : Option String} {n : SuiteNode} {i : Identifier}
    (h : i ∈ n.identifiersIn parent?) : (n.uniqueId parent?).length ≤ i.id.length := by
  induction n using induct generalizing parent? with
  | step n ih =>
    rw [identifiersIn_eq] at h
    rcases List.mem_cons.1 h with rfl | h
    · exact Nat.le_refl _
    · obtain ⟨m, hm, hi⟩ := mem_identifiersInAll.1 h
      have hlonger := length_uniqueId m (n.uniqueId parent?)
      have hrest := ih m hm hi
      omega

theorem parent_of_mem {parent? : Option String} {n : SuiteNode} {i : Identifier}
    (h : i ∈ n.identifiersIn parent?) :
    i = n.identifier parent? ∨ ∃ j ∈ n.identifiersIn parent?, i.parent = some j.id ∧
      j.id.length < i.id.length := by
  induction n using induct generalizing parent? with
  | step n ih =>
    rw [identifiersIn_eq] at h ⊢
    rcases List.mem_cons.1 h with rfl | h
    · exact .inl rfl
    · right
      obtain ⟨m, hm, hi⟩ := mem_identifiersInAll.1 h
      rcases ih m hm hi with rfl | ⟨j, hj, hparent, hlength⟩
      · exact ⟨_, List.mem_cons_self, rfl, length_uniqueId m _⟩
      · exact ⟨j, List.mem_cons_of_mem _ (mem_identifiersInAll.2 ⟨m, hm, hj⟩), hparent, hlength⟩

def naming (id : String) (is : List Identifier) : List Identifier :=
  is.filter fun i => i.parent == some id

theorem naming_eq_nil {parent? : Option String} {n : SuiteNode} {id : String}
    (hparent : parent? ≠ some id) (hid : ∀ i ∈ n.identifiersIn parent?, i.id ≠ id) :
    naming id (n.identifiersIn parent?) = [] := by
  apply List.filter_eq_nil_iff.2
  intro i hi hnames
  have hnames' : i.parent = some id := beq_iff_eq.1 hnames
  rcases parent_of_mem hi with rfl | ⟨j, hj, hj', -⟩
  · exact hparent hnames'
  · exact hid j hj (Option.some.inj (hj'.symm.trans hnames'))

theorem naming_all_eq_nil {parent? : Option String} {ns : List SuiteNode} {id : String}
    (hparent : parent? ≠ some id) (hid : ∀ i ∈ identifiersInAll parent? ns, i.id ≠ id) :
    naming id (identifiersInAll parent? ns) = [] := by
  induction ns with
  | nil => rfl
  | cons n rest ih =>
    rw [identifiersInAll_cons] at hid ⊢
    have hfirst := naming_eq_nil hparent fun i hi => hid i (List.mem_append_left _ hi)
    have hrest := ih fun i hi => hid i (List.mem_append_right _ hi)
    unfold naming at hfirst hrest ⊢
    rw [List.filter_append, hfirst, hrest]
    rfl

theorem naming_parent (parent : String) (ns : List SuiteNode) :
    naming parent (identifiersInAll (some parent) ns) =
      ns.map (identifier · (some parent)) := by
  induction ns with
  | nil => rfl
  | cons n rest ih =>
    have hlonger := length_uniqueId n parent
    have hbelow : naming parent
        (identifiersInAll (some (n.uniqueId (some parent))) n.children) = [] := by
      apply naming_all_eq_nil
      · intro heq
        rw [Option.some.inj heq] at hlonger
        exact Nat.lt_irrefl _ hlonger
      · intro i hi heq
        obtain ⟨m, -, him⟩ := mem_identifiersInAll.1 hi
        have hle := length_le_of_mem him
        have hm := length_uniqueId m (n.uniqueId (some parent))
        rw [heq] at hle
        omega
    have hself : ((n.identifier (some parent)).parent == some parent) = true :=
      beq_self_eq_true _
    calc naming parent (identifiersInAll (some parent) (n :: rest))
      _ = n.identifier (some parent) ::
            (naming parent (identifiersInAll (some (n.uniqueId (some parent))) n.children) ++
              naming parent (identifiersInAll (some parent) rest)) := by
          unfold naming
          rw [identifiersInAll_cons, identifiersIn_eq, List.cons_append, List.filter_cons, hself,
            if_pos rfl, List.filter_append]
      _ = (n :: rest).map (identifier · (some parent)) := by
          rw [hbelow, ih]
          rfl

theorem mem_identifiersIn {parent? : Option String} {n g : SuiteNode} {j : Identifier}
    (h : (j, g) ∈ n.listing parent?) : j ∈ n.identifiersIn parent? :=
  List.mem_map.2 ⟨(j, g), h, rfl⟩

theorem naming_sibling {parent? : Option String} {ns : List SuiteNode} {m : SuiteNode}
    {j : Identifier} (hparent : parent? ≠ some j.id)
    (hnodup : ((identifiersInAll parent? ns).map (·.id)).Nodup) (hm : m ∈ ns)
    (hj : j ∈ m.identifiersIn parent?) :
    naming j.id (identifiersInAll parent? ns) = naming j.id (m.identifiersIn parent?) := by
  induction ns with
  | nil => cases hm
  | cons n rest ih =>
    rw [identifiersInAll_cons, List.map_append, List.nodup_append] at hnodup
    obtain ⟨hfirst, hrest, hapart⟩ := hnodup
    have happend : naming j.id (identifiersInAll parent? (n :: rest)) =
        naming j.id (n.identifiersIn parent?) ++ naming j.id (identifiersInAll parent? rest) := by
      rw [identifiersInAll_cons]
      exact List.filter_append _ _
    rw [happend]
    rcases List.mem_cons.1 hm with rfl | hm
    · have hnone : naming j.id (identifiersInAll parent? rest) = [] := by
        apply naming_all_eq_nil hparent
        intro i hi heq
        exact hapart _ (List.mem_map_of_mem hj) _ (List.mem_map_of_mem hi) heq.symm
      rw [hnone, List.append_nil]
    · have hnone : naming j.id (n.identifiersIn parent?) = [] := by
        apply naming_eq_nil hparent
        intro i hi heq
        have hj' : j ∈ identifiersInAll parent? rest := mem_identifiersInAll.2 ⟨m, hm, hj⟩
        exact hapart _ (List.mem_map_of_mem hi) _ (List.mem_map_of_mem hj') heq
      rw [hnone, List.nil_append]
      exact ih hrest hm

theorem naming_mem {parent? : Option String} {n g : SuiteNode} {j : Identifier}
    (hparent : parent? ≠ some j.id) (hnodup : ((n.identifiersIn parent?).map (·.id)).Nodup)
    (hmem : (j, g) ∈ n.listing parent?) :
    naming j.id (n.identifiersIn parent?) = g.children.map (identifier · (some j.id)) := by
  induction n using induct generalizing parent? with
  | step n ih =>
    have hself : ((n.identifier parent?).parent == some j.id) = false := beq_false_of_ne hparent
    have htail : naming j.id (n.identifiersIn parent?) =
        naming j.id (identifiersInAll (some (n.uniqueId parent?)) n.children) := by
      rw [identifiersIn_eq]
      unfold naming
      rw [List.filter_cons, hself, if_neg Bool.false_ne_true]
    rw [htail]
    rw [identifiersIn_eq, List.map_cons, List.nodup_cons] at hnodup
    rw [listing_eq] at hmem
    rcases List.mem_cons.1 hmem with heq | hmem
    · cases heq
      exact naming_parent _ _
    · obtain ⟨m, hm, hjm⟩ := mem_listingAll.1 hmem
      have hj := mem_identifiersIn hjm
      have hne : some (n.uniqueId parent?) ≠ some j.id := by
        intro heq
        have hlonger := length_uniqueId m (n.uniqueId parent?)
        have hle := length_le_of_mem hj
        rw [Option.some.inj heq] at hlonger hle
        omega
      rw [naming_sibling hne hnodup.2 hm hj]
      exact ih m hm hne (((sublist_of_mem hm).map _).nodup hnodup.2) hjm

theorem naming_mem_all {forest : List SuiteNode} {g : SuiteNode} {j : Identifier}
    (hnodup : ((identifiersInAll none forest).map (·.id)).Nodup)
    (hmem : (j, g) ∈ listingAll none forest) :
    naming j.id (identifiersInAll none forest) = g.children.map (identifier · (some j.id)) := by
  obtain ⟨n, hn, hjn⟩ := mem_listingAll.1 hmem
  have hroot : (none : Option String) ≠ some j.id := nofun
  rw [naming_sibling hroot hnodup hn (mem_identifiersIn hjn)]
  exact naming_mem hroot (((sublist_of_mem hn).map _).nodup hnodup) hjn

theorem listing_of_mem {parent? : Option String} {n g : SuiteNode} {j : Identifier}
    (h : (j, g) ∈ n.listing parent?) :
    ∃ q, j = g.identifier q ∧ (g.listing q).Sublist (n.listing parent?) := by
  induction n using induct generalizing parent? with
  | step n ih =>
    rw [listing_eq] at h
    rcases List.mem_cons.1 h with heq | h
    · cases heq
      exact ⟨parent?, rfl, List.Sublist.refl _⟩
    · obtain ⟨m, hm, hjm⟩ := mem_listingAll.1 h
      obtain ⟨q, hj, hsub⟩ := ih m hm hjm
      refine ⟨q, hj, hsub.trans ?_⟩
      rw [listing_eq parent? n]
      exact (sublist_listing hm).cons _

theorem isRoot_below {parent : String} {ns : List SuiteNode} {i : Identifier}
    (h : i ∈ identifiersInAll (some parent) ns) : i.isRoot = false := by
  obtain ⟨n, -, hi⟩ := mem_identifiersInAll.1 h
  unfold Identifier.isRoot
  rcases parent_of_mem hi with rfl | ⟨j, -, hparent, -⟩
  · rfl
  · rw [hparent]
    rfl

end SuiteNode

namespace Plan

open SuiteNode

def Lists (p : Plan) (forest : List SuiteNode) : Prop :=
  p.identifiers = identifiersInAll none forest

variable {p : Plan} {forest : List SuiteNode} {g : SuiteNode} {j : Identifier}

theorem Lists.nodup (h : p.Lists forest) :
    ((identifiersInAll none forest).map (·.id)).Nodup := by
  rw [← show p.identifiers = _ from h]
  exact p.ids_nodup

theorem Lists.mem (h : p.Lists forest) (hj : (j, g) ∈ listingAll none forest) :
    j ∈ p.identifiers := by
  rw [show p.identifiers = _ from h]
  exact List.mem_map.2 ⟨(j, g), hj, rfl⟩

theorem Lists.children_eq (h : p.Lists forest) (hj : (j, g) ∈ listingAll none forest) :
    p.children j.id = g.children.map (identifier · (some j.id)) := by
  unfold Plan.children
  rw [show p.identifiers = _ from h]
  exact naming_mem_all h.nodup hj

theorem roots_of_listing (forest : List SuiteNode) :
    (identifiersInAll none forest).filter (·.isRoot) = forest.map (identifier · none) := by
  induction forest with
  | nil => rfl
  | cons n rest ih =>
    have hbelow : (identifiersInAll (some (n.uniqueId none)) n.children).filter (·.isRoot) = [] := by
      apply List.filter_eq_nil_iff.2
      intro i hi
      rw [isRoot_below hi]
      exact Bool.false_ne_true
    calc (identifiersInAll none (n :: rest)).filter (·.isRoot)
      _ = n.identifier none ::
            ((identifiersInAll (some (n.uniqueId none)) n.children).filter (·.isRoot) ++
              (identifiersInAll none rest).filter (·.isRoot)) := by
          rw [identifiersInAll_cons, identifiersIn_eq, List.cons_append, List.filter_cons,
            show (n.identifier none).isRoot = true from rfl, if_pos rfl, List.filter_append]
      _ = (n :: rest).map (identifier · none) := by
          rw [hbelow, ih]
          rfl

theorem Lists.roots_eq (h : p.Lists forest) : p.roots = forest.map (identifier · none) := by
  unfold Plan.roots
  rw [show p.identifiers = _ from h]
  exact roots_of_listing forest

/-- Parents have shorter ids, so parent links run in no circle. -/
theorem Lists.acyclic (h : p.Lists forest) : p.Acyclic := by
  apply acyclic_of_rank fun i => i.id.length
  intro i hi a ha
  obtain ⟨parent, hparent, hget⟩ := Option.bind_eq_some_iff.1 ha
  rw [show p.identifiers = _ from h] at hi
  obtain ⟨n, -, hin⟩ := mem_identifiersInAll.1 hi
  rcases parent_of_mem hin with rfl | ⟨j, -, hj, hlength⟩
  · cases hparent
  · rw [hj] at hparent
    cases hparent
    rw [(mem_of_get? hget).2]
    exact hlength

theorem flatMap_identifiersIn (parent? : Option String) (ns : List SuiteNode) :
    ((ns.map fun m => (parent?, m)).flatMap fun e => e.2.identifiersIn e.1) =
      identifiersInAll parent? ns := by
  induction ns with
  | nil => rfl
  | cons n rest ih =>
    rw [List.map_cons, List.flatMap_cons, ih, identifiersInAll_cons]

theorem unfold_eq (steps : Nat) (stack : List (Option String × SuiteNode))
    (hchildren : ∀ e ∈ stack, ∀ j g, (j, g) ∈ e.2.listing e.1 →
      p.children j.id = g.children.map (identifier · (some j.id)))
    (hsteps : (stack.flatMap fun e => e.2.identifiersIn e.1).length ≤ steps) :
    p.unfold steps (stack.map fun e => e.2.identifier e.1) =
      stack.flatMap fun e => e.2.identifiersIn e.1 := by
  induction steps generalizing stack with
  | zero => exact (List.length_eq_zero_iff.1 (Nat.le_zero.1 hsteps)).symm
  | succ steps ih =>
    cases stack with
    | nil => rfl
    | cons e rest =>
      obtain ⟨q, n⟩ := e
      let below : List (Option String × SuiteNode) :=
        n.children.map fun m => (some (n.uniqueId q), m)
      have hbelow : (below.flatMap fun e => e.2.identifiersIn e.1) =
          identifiersInAll (some (n.uniqueId q)) n.children :=
        flatMap_identifiersIn _ _
      have hself : p.children (n.uniqueId q) =
          n.children.map (identifier · (some (n.uniqueId q))) := by
        refine hchildren _ List.mem_cons_self (n.identifier q) n ?_
        rw [listing_eq]
        exact List.mem_cons_self
      have hstack : p.children (n.uniqueId q) ++ rest.map (fun e => e.2.identifier e.1) =
          (below ++ rest).map fun e => e.2.identifier e.1 := by
        rw [hself, List.map_append, List.map_map]
        rfl
      have hflat : ((below ++ rest).flatMap fun e => e.2.identifiersIn e.1) =
          identifiersInAll (some (n.uniqueId q)) n.children ++
            rest.flatMap fun e => e.2.identifiersIn e.1 := by
        rw [List.flatMap_append, hbelow]
      rw [List.flatMap_cons, identifiersIn_eq] at hsteps ⊢
      rw [List.map_cons, unfold]
      change n.identifier q :: p.unfold steps (p.children (n.uniqueId q) ++ _) = _
      rw [hstack, ih (below ++ rest) ?_ ?_, hflat]
      · rfl
      · intro e he j g hj
        rcases List.mem_append.1 he with he | he
        · obtain ⟨m, hm, rfl⟩ := List.mem_map.1 he
          refine hchildren (q, n) List.mem_cons_self j g ?_
          rw [listing_eq]
          exact List.mem_cons_of_mem _ (mem_listingAll.2 ⟨m, hm, hj⟩)
        · exact hchildren e (List.mem_cons_of_mem _ he) j g hj
      · rw [hflat]
        exact Nat.le_of_succ_le_succ hsteps

theorem Lists.descendants_eq (h : p.Lists forest) (hj : (j, g) ∈ listingAll none forest) :
    p.descendants j.id = identifiersInAll (some j.id) g.children := by
  obtain ⟨n, hn, hjn⟩ := mem_listingAll.1 hj
  obtain ⟨q, hjq, hsub⟩ := listing_of_mem hjn
  have hid : j.id = g.uniqueId q := by
    rw [hjq]
    rfl
  have hlisted : ∀ k m, (k, m) ∈ g.listing q → (k, m) ∈ listingAll none forest :=
    fun k m hk => mem_listingAll.2 ⟨n, hn, hsub.subset hk⟩
  have hstack : p.children j.id =
      (g.children.map fun m => (some j.id, m)).map fun e => e.2.identifier e.1 := by
    rw [h.children_eq hj, List.map_map]
    rfl
  unfold Plan.descendants
  rw [hstack, unfold_eq]
  · exact flatMap_identifiersIn _ _
  · intro e he k m hk
    obtain ⟨child, hchild, rfl⟩ := List.mem_map.1 he
    apply h.children_eq
    apply hlisted
    rw [listing_eq, ← hid]
    exact List.mem_cons_of_mem _ (mem_listingAll.2 ⟨child, hchild, hk⟩)
  · rw [flatMap_identifiersIn]
    calc (identifiersInAll (some j.id) g.children).length
      _ ≤ (g.listing q).length := by
          rw [listing_eq, ← hid, identifiersInAll, List.length_map, List.length_cons]
          exact Nat.le_succ _
      _ ≤ (n.listing none).length := hsub.length_le
      _ ≤ (listingAll none forest).length := (sublist_listing hn).length_le
      _ = p.size := by
          unfold Plan.size
          rw [show p.identifiers = _ from h, identifiersInAll, List.length_map]

end Plan

namespace Discovery

/-- What discovery has found after it went through a list of entries. -/
structure Finds (d : Discovery) (entries : List (Identifier × SuiteNode)) : Prop where
  identifiers_eq : d.identifiers = entries.map (·.1)
  nodup : (entries.map (·.1.id)).Nodup
  get?_mem : ∀ i n, (i, n) ∈ entries → d.nodes.get? i.id = some n
  get?_none : ∀ id, id ∉ entries.map (·.1.id) → d.nodes.get? id = none

theorem empty_finds : empty.Finds [] :=
  ⟨rfl, List.nodup_nil, nofun, fun _ _ => rfl⟩

theorem Finds.add {d d' : Discovery} {entries : List (Identifier × SuiteNode)}
    (h : d.Finds entries) {entry : Identifier × SuiteNode} (hadd : d.add entry = .ok d') :
    d'.Finds (entries ++ [entry]) := by
  unfold Discovery.add at hadd
  split at hadd
  · cases hadd
  · rename_i hfree
    cases hadd
    have hnew : entry.1.id ∉ entries.map (·.1.id) := by
      intro hmem
      obtain ⟨e, he, hid⟩ := List.mem_map.1 hmem
      apply hfree
      rw [← hid, h.get?_mem e.1 e.2 he]
      rfl
    refine ⟨?_, ?_, fun i n hmem => ?_, fun id hid => ?_⟩
    · rw [List.map_append, ← h.identifiers_eq]
      rfl
    · rw [List.map_append, List.nodup_append]
      refine ⟨h.nodup, List.nodup_cons.2 ⟨List.not_mem_nil, List.nodup_nil⟩,
        fun a ha b hb heq => ?_⟩
      rw [heq, List.mem_singleton.1 hb] at ha
      exact hnew ha
    · dsimp only
      rw [Table.get?_set]
      rcases List.mem_append.1 hmem with hmem | hmem
      · have hne : i.id ≠ entry.1.id := by
          intro heq
          rw [← heq] at hnew
          exact hnew (List.mem_map.2 ⟨(i, n), hmem, rfl⟩)
        rw [if_neg hne]
        exact h.get?_mem i n hmem
      · obtain rfl := List.mem_singleton.1 hmem
        exact if_pos rfl
    · rw [List.map_append, List.mem_append, not_or] at hid
      dsimp only
      rw [Table.get?_set, if_neg fun heq => hid.2 (List.mem_singleton.2 heq)]
      exact h.get?_none id hid.1

theorem Finds.addAll {d d' : Discovery} {entries more : List (Identifier × SuiteNode)}
    (h : d.Finds entries) (hadd : more.foldlM Discovery.add d = .ok d') :
    d'.Finds (entries ++ more) := by
  induction more generalizing d entries with
  | nil =>
    cases hadd
    rw [List.append_nil]
    exact h
  | cons entry more ih =>
    rw [List.foldlM_cons] at hadd
    cases hentry : d.add entry with
    | error f =>
      rw [hentry] at hadd
      cases hadd
    | ok d₁ =>
      rw [hentry] at hadd
      have hall := ih (h.add hentry) hadd
      rw [List.append_assoc] at hall
      exact hall

theorem finds_of_forest {forest : List SuiteNode} {d : Discovery}
    (h : ofForest forest = .ok d) : d.Finds (SuiteNode.listingAll none forest) :=
  empty_finds.addAll h

end Discovery

namespace Plan

theorem identifiers_addAll (is : List Identifier) (p : Plan)
    (h : ((p.identifiers ++ is).map (·.id)).Nodup) :
    (is.foldl add p).identifiers = p.identifiers ++ is := by
  induction is generalizing p with
  | nil => exact (List.append_nil _).symm
  | cons i is ih =>
    have hnew : i.id ∉ p.ids := by
      rw [List.map_append, List.nodup_append] at h
      exact fun hmem => h.2.2 _ hmem _ List.mem_cons_self rfl
    rw [List.foldl_cons, ih (p.add i)]
    · rw [identifiers_add hnew, List.append_assoc]
      rfl
    · rw [identifiers_add hnew, List.append_assoc]
      exact h

theorem identifiers_ofList (serial : Nat) {is : List Identifier} (h : (is.map (·.id)).Nodup) :
    (ofList serial is).identifiers = is :=
  identifiers_addAll is (empty serial) h

theorem ofList_lists {forest : List SuiteNode} {d : Discovery}
    (h : Discovery.ofForest forest = .ok d) (serial : Nat) :
    (ofList serial d.identifiers).Lists forest := by
  have hfinds := Discovery.finds_of_forest h
  unfold Lists SuiteNode.identifiersInAll
  rw [← hfinds.identifiers_eq]
  apply identifiers_ofList
  rw [hfinds.identifiers_eq, List.map_map]
  exact hfinds.nodup

end Plan

end TestRun
