import Mathlib.Data.List.Flatten
import Mathlib.Data.List.Induction
import Mathlib.Data.List.Nodup
import TestRun.Proofs.Plan.Descent
set_option autoImplicit false

namespace TestRun.Plan

/-- Parent links lead from `t` to the id: `t` names it as its parent, or the plan holds the parent
of `t` and links lead on from there. -/
inductive Descends (p : Plan) : Identifier → String → Prop
  | child {t id} : t.parent = some id → Descends p t id
  | further {t a id} : p.IsParent t a → Descends p a id → Descends p t id

variable {p : Plan} {a b i t : Identifier} {id : String} {path : List Identifier}

theorem Acyclic.grounded (hp : p.Acyclic) (id : String) : p.Grounded id :=
  fun c hc =>
    have hheld := (mem_children.1 hc).1
    ⟨p.ancestors c, hheld, line_ancestors hp hheld⟩

theorem descends_iff : p.Descends t id ↔ ∃ c, c.parent = some id ∧ p.Within t c := by
  constructor
  · intro h
    induction h with
    | child hparent => exact ⟨_, hparent, .refl⟩
    | further hlink _ ih =>
      obtain ⟨c, hparent, hwithin⟩ := ih
      exact ⟨c, hparent, .head hlink hwithin⟩
  · rintro ⟨c, hparent, hwithin⟩
    induction hwithin using Relation.ReflTransGen.head_induction_on with
    | refl => exact .child hparent
    | head hlink _ ih => exact .further hlink ih

theorem Grounded.mem_branches (h : p.Grounded id) :
    t ∈ (p.children id).flatMap p.subtree ↔ t ∈ p.identifiers ∧ p.Descends t id := by
  rw [List.mem_flatMap, descends_iff]
  constructor
  · rintro ⟨c, hc, ht⟩
    obtain ⟨_, hclimbs⟩ := h c hc
    obtain ⟨hheld, hwithin⟩ := hclimbs.mem_subtree.1 ht
    exact ⟨hheld, c, (mem_children.1 hc).2, hwithin⟩
  · rintro ⟨hheld, c, hparent, hwithin⟩
    have hc : c ∈ p.children id := mem_children.2 ⟨Within.mem hwithin hheld, hparent⟩
    obtain ⟨_, hclimbs⟩ := h c hc
    exact ⟨c, hc, hclimbs.mem_subtree.2 ⟨hheld, hwithin⟩⟩

theorem Grounded.preorder (h : p.Grounded id) :
    p.descendants id = (p.children id).flatMap fun c => c :: p.descendants c.id := by
  rw [h.descendants_eq]
  refine List.flatMap_congr fun c hc => ?_
  obtain ⟨_, hclimbs⟩ := h c hc
  exact hclimbs.subtree_eq_cons

theorem Grounded.nodup_descendants (h : p.Grounded id) : (p.descendants id).Nodup :=
  h.descendants_eq ▸ h.nodup_branches

theorem Grounded.mem_descendants (h : p.Grounded id) :
    t ∈ p.descendants id ↔ t ∈ p.identifiers ∧ p.Descends t id := by
  rw [h.descendants_eq, h.mem_branches]

theorem Grounded.climbs (h : p.Grounded id) (ht : t ∈ p.descendants id) :
    ∃ path, p.Climbs t path := by
  obtain ⟨hheld, hdescends⟩ := h.mem_descendants.1 ht
  obtain ⟨c, hparent, hwithin⟩ := descends_iff.1 hdescends
  obtain ⟨_, hclimbs⟩ := h c (mem_children.2 ⟨Within.mem hwithin hheld, hparent⟩)
  exact hclimbs.of_within hheld hwithin

/-- A descendant with its own descendants behind it is one stretch of all. -/
theorem Grounded.infix_descendants (h : p.Grounded id) (ha : a ∈ p.descendants id) :
    (a :: p.descendants a.id) <:+: p.descendants id := by
  obtain ⟨_, hclimbs⟩ := h.climbs ha
  obtain ⟨hheld, hdescends⟩ := h.mem_descendants.1 ha
  obtain ⟨c, hparent, hwithin⟩ := descends_iff.1 hdescends
  have hc : c ∈ p.children id := mem_children.2 ⟨Within.mem hwithin hheld, hparent⟩
  obtain ⟨_, hcclimbs⟩ := h c hc
  rw [← hclimbs.subtree_eq_cons, h.descendants_eq]
  exact (hcclimbs.infix_subtree hheld hwithin).trans
    (List.infix_of_mem_flatten (List.mem_map_of_mem hc))

theorem Grounded.before (h : p.Grounded id) (ha : a ∈ p.descendants id)
    (hb : b ∈ p.descendants id) (hba : p.Descends b a.id) : [a, b].Sublist (p.descendants id) := by
  obtain ⟨_, hclimbs⟩ := h.climbs ha
  have hbelow : b ∈ p.descendants a.id :=
    hclimbs.grounded.mem_descendants.2 ⟨(h.mem_descendants.1 hb).1, hba⟩
  exact ((List.singleton_sublist.2 hbelow).cons_cons a).trans (h.infix_descendants ha).sublist

theorem Grounded.siblings (h : p.Grounded id) (ha : a ∈ p.descendants id)
    (hab : a.parent = b.parent) (horder : [a, b].Sublist p.identifiers) :
    [a, b].Sublist (p.descendants id) := by
  have hheads : ∀ {id'}, p.Grounded id' → a.parent = some id' →
      [a, b].Sublist (p.descendants id') := by
    intro id' h' hparent
    have hpair := children_sublist hparent (hab.symm.trans hparent) horder
    rw [h'.preorder]
    exact sublist_flatMap_pair hpair List.mem_cons_self List.mem_cons_self
  obtain ⟨hheld, hdescends⟩ := h.mem_descendants.1 ha
  cases hdescends with
  | child hparent => exact hheads h hparent
  | @further _ q _ hlink hq =>
    -- the siblings are children of an identifier that is itself below the id
    have hqbelow : q ∈ p.descendants id := h.mem_descendants.2 ⟨hlink.mem, hq⟩
    obtain ⟨_, hclimbs⟩ := h.climbs hqbelow
    have hparent := (mem_children.1 (mem_children_of_isParent hheld hlink)).2
    exact (hheads hclimbs.grounded hparent).trans
      ((List.sublist_cons_self _ _).trans (h.infix_descendants hqbelow).sublist)

theorem Climbs.length_descendants_lt (h : p.Climbs i path) : (p.descendants i.id).length < p.size := by
  have hsub : p.subtree i ⊆ p.identifiers := fun t ht => (h.mem_subtree.1 ht).1
  have hle := (List.subperm_of_subset h.nodup_subtree hsub).length_le
  rwa [h.subtree_eq_cons, List.length_cons] at hle

theorem Line.climb_eq {steps : Nat} (h : p.Line i path) (hsteps : path.length ≤ steps) :
    p.climb steps i = path := by
  induction h generalizing steps with
  | top htop => cases steps <;> simp [climb, htop]
  | @step i a line hlink _ ih =>
    cases steps with
    | zero => simp at hsteps
    | succ steps =>
      unfold climb
      rw [show p.parent? i = some a from hlink]
      exact congrArg (a :: ·) (ih (by simpa using hsteps))

theorem Climbs.ancestors_eq (h : p.Climbs i path) : p.ancestors i = path :=
  h.line.climb_eq (Nat.le_of_lt h.length_lt)

theorem Line.getLast?_eq (h : p.Line i path) (ha : a ∈ path) (htop : p.parent? a = none) :
    path.getLast? = some a := by
  induction h with
  | top _ => cases ha
  | @step i b line _ hline ih =>
    cases hline with
    | top _ =>
      obtain rfl := List.mem_singleton.1 ha
      rfl
    | @step _ c line hlink hrest =>
      rw [List.getLast?_cons_cons]
      rcases List.mem_cons.1 ha with rfl | ha
      · exact absurd (htop.symm.trans hlink) nofun
      · exact ih ha

section Rows

variable {serial : Nat} {is : List Identifier}

theorem ofList_concat : ofList serial (is ++ [i]) = (ofList serial is).add i :=
  List.foldl_concat ..

theorem get?_add (p : Plan) (i : Identifier) :
    (p.add i).get? id = (p.get? id).or (if i.id == id then some i else none) := by
  by_cases hi : i.id ∈ p.ids
  · rw [add_of_mem hi]
    by_cases heq : i.id = id
    · obtain ⟨a, ha, haid⟩ := mem_ids.1 hi
      rw [← heq, ← haid, get?_of_mem ha]
      rfl
    · simp [heq]
  · rw [get?, identifiers_add hi, List.find?_append, List.find?_singleton]
    rfl

theorem get?_ofList (serial : Nat) (is : List Identifier) (id : String) :
    (ofList serial is).get? id = is.find? (·.id == id) := by
  induction is using List.reverseRecOn with
  | nil => rfl
  | append_singleton is i ih =>
    rw [ofList_concat, get?_add, ih, List.find?_append, List.find?_singleton]

theorem mem_ids_ofList : id ∈ (ofList serial is).ids ↔ id ∈ is.map (·.id) := by
  rw [mem_ids, List.mem_map]
  constructor
  · rintro ⟨a, ha, rfl⟩
    have hfind := get?_of_mem ha
    rw [get?_ofList] at hfind
    exact ⟨a, List.mem_of_find?_eq_some hfind, rfl⟩
  · rintro ⟨a, ha, rfl⟩
    have hsome : (is.find? (·.id == a.id)).isSome := List.find?_isSome.2 ⟨a, ha, beq_self_eq_true _⟩
    rw [← get?_ofList serial] at hsome
    obtain ⟨b, hb⟩ := Option.isSome_iff_exists.1 hsome
    exact ⟨b, mem_of_get? hb⟩

theorem sublist_ofList (ha : a ∈ (ofList serial is).identifiers)
    (hb : b ∈ (ofList serial is).identifiers)
    (hlt : (is.map (·.id)).idxOf a.id < (is.map (·.id)).idxOf b.id) :
    [a, b].Sublist (ofList serial is).identifiers := by
  induction is using List.reverseRecOn with
  | nil => cases ha
  | append_singleton is i ih =>
    have hids : ∀ {x}, x ∈ (ofList serial is).identifiers → x.id ∈ is.map (·.id) :=
      fun hx => mem_ids_ofList.1 (List.mem_map_of_mem hx)
    rw [List.map_append] at hlt
    rw [ofList_concat] at ha hb ⊢
    by_cases hi : i.id ∈ (ofList serial is).ids
    · rw [add_of_mem hi] at ha hb ⊢
      rw [List.idxOf_append_of_mem (hids ha), List.idxOf_append_of_mem (hids hb)] at hlt
      exact ih ha hb hlt
    · rw [identifiers_add hi] at ha hb ⊢
      rcases List.mem_append.1 hb with hb | hb
      · rw [List.idxOf_append_of_mem (hids hb)] at hlt
        have hbound := List.idxOf_lt_length_of_mem (hids hb)
        rcases List.mem_append.1 ha with ha | ha
        · rw [List.idxOf_append_of_mem (hids ha)] at hlt
          exact (ih ha hb hlt).trans (List.sublist_append_left _ _)
        · obtain rfl := List.mem_singleton.1 ha
          rw [List.idxOf_append_of_notMem fun hmem => hi (mem_ids_ofList.2 hmem)] at hlt
          omega
      · obtain rfl := List.mem_singleton.1 hb
        rcases List.mem_append.1 ha with ha | ha
        · exact (List.singleton_sublist.2 ha).append (List.Sublist.refl _)
        · obtain rfl := List.mem_singleton.1 ha
          exact absurd hlt (Nat.lt_irrefl _)

end Rows

end TestRun.Plan
