import Mathlib.Data.List.Nodup
import Mathlib.Data.List.Perm.Subperm
import Mathlib.Logic.Relation
import TestRun.Plan.Traversal
set_option autoImplicit false

namespace TestRun.Plan

def IsParent (p : Plan) (i a : Identifier) : Prop := p.parent? i = some a

instance (p : Plan) (i a : Identifier) : Decidable (p.IsParent i a) :=
  inferInstanceAs (Decidable (_ = _))

/-- The plan holds `a` above `i`, one or more parent links away. -/
def Above (p : Plan) (i a : Identifier) : Prop := Relation.TransGen p.IsParent i a

def Acyclic (p : Plan) : Prop := ∀ i, ¬ p.Above i i

/-- The first identifier with a property on the way up from `i`. -/
inductive Nearest (p : Plan) (P : Identifier → Prop) : Identifier → Identifier → Prop
  | here {i a} : p.IsParent i a → P a → Nearest p P i a
  | further {i a b} : p.IsParent i a → ¬ P a → Nearest p P a b → Nearest p P i b

theorem Nearest.holds {p : Plan} {P : Identifier → Prop} {i a : Identifier}
    (h : p.Nearest P i a) : P a := by
  induction h with
  | here _ hP => exact hP
  | further _ _ _ ih => exact ih

theorem Nearest.above {p : Plan} {P : Identifier → Prop} {i a : Identifier}
    (h : p.Nearest P i a) : p.Above i a := by
  induction h with
  | here hb _ => exact .single hb
  | further hb _ _ ih => exact .head hb ih

/-- The identifiers above `i` up to one without a held parent, nearest first. -/
inductive Line (p : Plan) : Identifier → List Identifier → Prop
  | top {i} : p.parent? i = none → Line p i []
  | step {i a line} : p.IsParent i a → Line p a line → Line p i (a :: line)

theorem mem_ids {p : Plan} {id : String} : id ∈ p.ids ↔ ∃ i ∈ p.identifiers, i.id = id :=
  List.mem_map

theorem mem_of_get? {p : Plan} {id : String} {i : Identifier} (h : p.get? id = some i) :
    i ∈ p.identifiers ∧ i.id = id :=
  ⟨List.mem_of_find?_eq_some h, by simpa using List.find?_some h⟩

theorem get?_of_mem {p : Plan} {i : Identifier} (h : i ∈ p.identifiers) :
    p.get? i.id = some i := by
  obtain ⟨serial, identifiers, nodup⟩ := p
  induction identifiers with
  | nil => cases h
  | cons first rest ih =>
    rw [List.map_cons, List.nodup_cons] at nodup
    rcases List.mem_cons.1 h with rfl | hrest
    · simp [get?]
    · have hne : (first.id == i.id) = false := by
        simpa using fun e : first.id = i.id => nodup.1 (e ▸ List.mem_map_of_mem hrest)
      have := ih nodup.2 hrest
      simp only [get?] at this ⊢
      rw [List.find?_cons, hne]
      exact this

theorem IsParent.mem {p : Plan} {i a : Identifier} (h : p.IsParent i a) : a ∈ p.identifiers := by
  obtain ⟨_, _, hget⟩ := Option.bind_eq_some_iff.1 h
  exact (mem_of_get? hget).1

theorem Above.mem {p : Plan} {i a : Identifier} (h : p.Above i a) : a ∈ p.identifiers := by
  cases h with
  | single h => exact h.mem
  | tail _ h => exact h.mem

theorem acyclic_of_rank {p : Plan} (rank : Identifier → Nat)
    (h : ∀ i ∈ p.identifiers, ∀ a, p.parent? i = some a → rank a < rank i) : p.Acyclic := by
  have hrank : ∀ i a, p.Above i a → i ∈ p.identifiers → rank a < rank i := by
    intro i a hia hi
    induction hia with
    | single hp => exact h i hi _ hp
    | tail hib hp ih => exact Nat.lt_trans (h _ (Above.mem hib) _ hp) ih
  intro i hi
  exact Nat.lt_irrefl _ (hrank i i hi (Above.mem hi))

theorem above_of_mem_climb {p : Plan} {steps : Nat} {i a : Identifier}
    (h : a ∈ p.climb steps i) : p.Above i a := by
  induction steps generalizing i with
  | zero => cases h
  | succ steps ih =>
    unfold climb at h
    split at h
    · cases h
    · rename_i parent hparent
      rcases List.mem_cons.1 h with rfl | h
      · exact .single hparent
      · exact .head hparent (ih h)

theorem climb_nodup {p : Plan} (hp : p.Acyclic) (steps : Nat) (i : Identifier) :
    (p.climb steps i).Nodup := by
  induction steps generalizing i with
  | zero => exact List.nodup_nil
  | succ steps ih =>
    unfold climb
    split
    · exact List.nodup_nil
    · rename_i parent _
      exact List.nodup_cons.2 ⟨fun h => hp parent (above_of_mem_climb h), ih parent⟩

/-- A climb that did not use up its steps has reached the top. -/
theorem line_of_climb {p : Plan} {steps : Nat} {i : Identifier}
    (h : (p.climb steps i).length < steps) : p.Line i (p.climb steps i) := by
  induction steps generalizing i with
  | zero => simp at h
  | succ steps ih =>
    unfold climb at h ⊢
    split at h
    · exact .top ‹_›
    · rename_i parent hparent
      exact .step hparent (ih (by simpa using h))

theorem line_ancestors {p : Plan} (hp : p.Acyclic) {i : Identifier} (hi : i ∈ p.identifiers) :
    p.Line i (p.ancestors i) := by
  apply line_of_climb
  have hnodup : (i :: p.climb p.size i).Nodup :=
    List.nodup_cons.2 ⟨fun h => hp i (above_of_mem_climb h), climb_nodup hp _ _⟩
  have hsub : i :: p.climb p.size i ⊆ p.identifiers := by
    intro a ha
    rcases List.mem_cons.1 ha with rfl | ha
    · exact hi
    · exact (above_of_mem_climb ha).mem
  exact (List.subperm_of_subset hnodup hsub).length_le

theorem Line.mem_iff {p : Plan} {i : Identifier} {line : List Identifier} (h : p.Line i line)
    {a : Identifier} : a ∈ line ↔ p.Above i a := by
  induction h with
  | @top i hi =>
    simp only [List.not_mem_nil, false_iff]
    intro ha
    cases (Relation.TransGen.head'_iff.1 ha) with
    | intro b hb => simp [IsParent, hi] at hb
  | @step i b line hb _ ih =>
    rw [List.mem_cons, ih]
    constructor
    · rintro (rfl | ha)
      · exact .single hb
      · exact .head hb ha
    · intro ha
      obtain ⟨c, hc, hca⟩ := Relation.TransGen.head'_iff.1 ha
      obtain rfl : b = c := Option.some.inj (hb.symm.trans hc)
      rcases Relation.ReflTransGen.cases_head hca with rfl | ⟨d, hd, hda⟩
      · exact .inl rfl
      · exact .inr (Relation.TransGen.head'_iff.2 ⟨d, hd, hda⟩)

theorem Line.unique {p : Plan} {i : Identifier} {line line' : List Identifier}
    (h : p.Line i line) (h' : p.Line i line') : line = line' := by
  induction h generalizing line' with
  | top hi =>
    cases h' with
    | top _ => rfl
    | step ha _ => exact absurd (hi.symm.trans ha) nofun
  | step ha _ ih =>
    cases h' with
    | top hi => exact absurd (hi.symm.trans ha) nofun
    | step hb hline =>
      obtain rfl := Option.some.inj (ha.symm.trans hb)
      rw [ih hline]

theorem Line.nearest_iff {p : Plan} {i : Identifier} {line : List Identifier} (h : p.Line i line)
    {P : Identifier → Prop} [DecidablePred P] {a : Identifier} :
    p.Nearest P i a ↔ line.find? (P ·) = some a := by
  induction h with
  | @top i hi =>
    simp only [List.find?_nil, reduceCtorEq, iff_false]
    intro ha
    cases ha with
    | here hb _ => simp [IsParent, hi] at hb
    | further hb _ _ => simp [IsParent, hi] at hb
  | @step i b line hb _ ih =>
    rw [List.find?_cons]
    by_cases hP : P b
    · simp only [hP, decide_true, Option.some.injEq]
      constructor
      · intro ha
        cases ha with
        | here hc _ => exact Option.some.inj (hb.symm.trans hc)
        | further hc hn _ =>
          obtain rfl : b = _ := Option.some.inj (hb.symm.trans hc)
          exact absurd hP hn
      · rintro rfl
        exact .here hb hP
    · simp only [hP, decide_false, ← ih]
      constructor
      · intro ha
        cases ha with
        | here hc hPa =>
          obtain rfl : b = _ := Option.some.inj (hb.symm.trans hc)
          exact absurd hPa hP
        | further hc _ hrest =>
          obtain rfl : b = _ := Option.some.inj (hb.symm.trans hc)
          exact hrest
      · exact .further hb hP

section Growing

variable {p q : Plan} {i a : Identifier}

theorem identifiers_subset_add (p : Plan) (i : Identifier) :
    p.identifiers ⊆ (p.add i).identifiers := by
  by_cases hi : i.id ∈ p.ids
  · rw [add_of_mem hi]
    exact List.Subset.refl _
  · rw [identifiers_add hi]
    exact List.subset_append_left _ _

theorem IsParent.mono (h : p.IsParent i a) (hq : p.identifiers ⊆ q.identifiers) :
    q.IsParent i a := by
  obtain ⟨id, hid, hget⟩ := Option.bind_eq_some_iff.1 h
  obtain ⟨hmem, rfl⟩ := mem_of_get? hget
  exact Option.bind_eq_some_iff.2 ⟨a.id, hid, get?_of_mem (hq hmem)⟩

theorem Above.mono (h : p.Above i a) (hq : p.identifiers ⊆ q.identifiers) : q.Above i a :=
  Relation.TransGen.mono (fun _ _ hparent => IsParent.mono hparent hq) i a h

theorem parent?_of_isRoot (p : Plan) (h : i.isRoot = true) : p.parent? i = none := by
  unfold parent?
  rw [Option.isNone_iff_eq_none.1 h]
  rfl

theorem eq_of_id_eq (hi : i ∈ p.identifiers) (ha : a ∈ p.identifiers) (h : i.id = a.id) : i = a :=
  List.inj_on_of_nodup_map p.ids_nodup hi ha h

end Growing

end TestRun.Plan
