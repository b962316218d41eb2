import Mathlib.Data.List.Flatten
import Mathlib.Data.List.Nodup
import TestRun.Proofs.Plan.Ancestry
set_option autoImplicit false

/-!
# Descent

What lies below an identifier: the identifier first, then the branches of its children one after
the other. No identifier from which the way up ends is above itself, so the walk that replaces
identifiers by their children visits a branch in just this order and ends within its steps.
-/

namespace TestRun.Plan

def Within (p : Plan) (t a : Identifier) : Prop := Relation.ReflTransGen p.IsParent t a

/-- An identifier and, behind it, the branches of its children; down to a depth only. -/
def branch (p : Plan) : Nat → Identifier → List Identifier
  | 0, _ => []
  | depth + 1, i => i :: (p.children i.id).flatMap (branch p depth)

def subtree (p : Plan) (i : Identifier) : List Identifier := p.branch p.size i

/-- The plan holds `i`, and `path` is the whole way up from it. -/
structure Climbs (p : Plan) (i : Identifier) (path : List Identifier) : Prop where
  mem : i ∈ p.identifiers
  line : p.Line i path

/-- The way up from each child of the id ends; the id itself need not be held. -/
def Grounded (p : Plan) (id : String) : Prop := ∀ c ∈ p.children id, ∃ path, p.Climbs c path

variable {p : Plan} {i a b c d t top : Identifier} {id : String} {path : List Identifier}

theorem within_iff : p.Within t a ↔ t = a ∨ p.Above t a := by
  unfold Within Above
  rw [Relation.reflTransGen_iff_eq_or_transGen, eq_comm]

theorem Line.of_mem (h : p.Line i path) (ha : a ∈ path) :
    ∃ rest, p.Line a rest ∧ rest.length < path.length := by
  induction h with
  | top _ => cases ha
  | @step i b line hb hline ih =>
    rcases List.mem_cons.1 ha with rfl | ha
    · exact ⟨line, hline, Nat.lt_succ_self _⟩
    · obtain ⟨rest, hrest, hlt⟩ := ih ha
      exact ⟨rest, hrest, Nat.lt_succ_of_lt hlt⟩

theorem Line.not_above_self (h : p.Line i path) : ¬ p.Above i i := by
  intro hself
  obtain ⟨rest, hrest, hlt⟩ := h.of_mem (h.mem_iff.2 hself)
  rw [hrest.unique h] at hlt
  exact Nat.lt_irrefl _ hlt

theorem Line.nodup (h : p.Line i path) : (i :: path).Nodup := by
  induction h with
  | top _ => exact List.nodup_singleton _
  | @step i b line hb hline ih =>
    have hwhole : p.Line i (b :: line) := .step hb hline
    exact List.nodup_cons.2 ⟨fun hi => hwhole.not_above_self (hwhole.mem_iff.1 hi), ih⟩

/-- A way up is shorter than the plan, for it has each identifier once. -/
theorem Climbs.length_lt (h : p.Climbs i path) : path.length < p.size := by
  have hsub : i :: path ⊆ p.identifiers := by
    intro a ha
    rcases List.mem_cons.1 ha with rfl | ha
    · exact h.mem
    · exact (h.line.mem_iff.1 ha).mem
  exact (List.subperm_of_subset h.line.nodup hsub).length_le

theorem Within.exists_line (h : p.Within t a) (ha : p.Line a path) : ∃ above, p.Line t above := by
  induction h using Relation.ReflTransGen.head_induction_on with
  | refl => exact ⟨path, ha⟩
  | head hparent _ ih =>
    obtain ⟨above, habove⟩ := ih
    exact ⟨_, .step hparent habove⟩

theorem Within.mem (h : p.Within t a) (ht : t ∈ p.identifiers) : a ∈ p.identifiers := by
  rcases within_iff.1 h with rfl | habove
  · exact ht
  · exact habove.mem

theorem Within.total (ha : p.Within t a) (hb : p.Within t b) : p.Within a b ∨ p.Within b a :=
  Relation.ReflTransGen.total_of_right_unique
    (fun _ _ _ h h' => Option.some.inj (h.symm.trans h')) ha hb

theorem Within.eq_of_top (h : p.Within top a) (htop : p.parent? top = none) : top = a := by
  rcases Relation.ReflTransGen.cases_head h with rfl | ⟨b, hb, -⟩
  · rfl
  · exact absurd (htop.symm.trans hb) nofun

theorem Climbs.of_within (h : p.Climbs i path) (ht : t ∈ p.identifiers) (hi : p.Within t i) :
    ∃ above, p.Climbs t above := by
  obtain ⟨above, habove⟩ := hi.exists_line h.line
  exact ⟨above, ht, habove⟩

theorem mem_children : c ∈ p.children id ↔ c ∈ p.identifiers ∧ c.parent = some id := by
  simp [children]

theorem children_sublist (ha : a.parent = some id) (hb : b.parent = some id)
    (horder : [a, b].Sublist p.identifiers) : [a, b].Sublist (p.children id) := by
  have hsub := horder.filter (·.parent == some id)
  rwa [List.filter_eq_self.2 fun x hx => ?_] at hsub
  rcases List.mem_pair.1 hx with rfl | rfl
  · exact beq_iff_eq.2 ha
  · exact beq_iff_eq.2 hb

theorem isParent_of_mem_children (hi : i ∈ p.identifiers) (hc : c ∈ p.children i.id) :
    p.IsParent c i := by
  unfold IsParent parent?
  rw [(mem_children.1 hc).2]
  exact get?_of_mem hi

theorem mem_children_of_isParent (hc : c ∈ p.identifiers) (h : p.IsParent c i) :
    c ∈ p.children i.id := by
  obtain ⟨id, hparent, hget⟩ := Option.bind_eq_some_iff.1 h
  rw [mem_children, hparent, (mem_of_get? hget).2]
  exact ⟨hc, rfl⟩

theorem nodup_identifiers (p : Plan) : p.identifiers.Nodup := .of_map _ p.ids_nodup

theorem Climbs.child (h : p.Climbs i path) (hc : c ∈ p.children i.id) :
    p.Climbs c (i :: path) :=
  ⟨(mem_children.1 hc).1, .step (isParent_of_mem_children h.mem hc) h.line⟩

theorem Climbs.grounded (h : p.Climbs i path) : p.Grounded i.id :=
  fun _ hc => ⟨_, h.child hc⟩

theorem Grounded.eq_of_within (h : p.Grounded id) (hc : c ∈ p.children id)
    (hd : d ∈ p.children id) (htc : p.Within t c) (htd : p.Within t d) : c = d := by
  -- one of the two would be below the other, and the way up from the upper one lead back to it
  have hle : ∀ x ∈ p.children id, ∀ y ∈ p.children id, p.Within x y → x = y := by
    intro x hx y hy hxy
    rcases Relation.ReflTransGen.cases_head hxy with rfl | ⟨q, hq, hqy⟩
    · rfl
    obtain ⟨above, hclimbs⟩ := h y hy
    have hyq : p.IsParent y q := by
      unfold IsParent parent? at hq ⊢
      rwa [(mem_children.1 hy).2, ← (mem_children.1 hx).2]
    exact absurd (Relation.TransGen.head' hyq hqy) hclimbs.line.not_above_self
  rcases htc.total htd with hcd | hdc
  · exact hle c hc d hd hcd
  · exact (hle d hd c hc hdc).symm

theorem Climbs.induct {P : Identifier → Prop}
    (step : ∀ i path, p.Climbs i path → (∀ c ∈ p.children i.id, P c) → P i)
    (h : p.Climbs i path) : P i := by
  -- the ways up grow downwards, and none is as long as the plan
  induction hn : p.size - path.length generalizing i path with
  | zero =>
    have hlt := h.length_lt
    omega
  | succ n ih =>
    refine step i path h fun c hc => ih (h.child hc) ?_
    rw [List.length_cons]
    omega

theorem Climbs.branch_succ {depth : Nat} (h : p.Climbs i path)
    (hdepth : p.size ≤ depth + path.length) : p.branch depth i = p.branch (depth + 1) i := by
  induction depth generalizing i path with
  | zero =>
    have hlt := h.length_lt
    omega
  | succ depth ih =>
    have hchildren : ∀ c ∈ p.children i.id, p.branch depth c = p.branch (depth + 1) c := by
      intro c hc
      refine ih (h.child hc) ?_
      rw [List.length_cons]
      omega
    rw [branch, branch, List.flatMap_congr hchildren]

theorem Climbs.subtree_eq (h : p.Climbs i path) :
    p.subtree i = i :: (p.children i.id).flatMap p.subtree := by
  unfold subtree
  rw [h.branch_succ (Nat.le_add_right _ _), branch]

theorem Climbs.mem_subtree (h : p.Climbs i path) :
    t ∈ p.subtree i ↔ t ∈ p.identifiers ∧ p.Within t i := by
  refine Climbs.induct (P := fun i => t ∈ p.subtree i ↔ t ∈ p.identifiers ∧ p.Within t i)
    (fun i path h ih => ?_) h
  rw [h.subtree_eq, List.mem_cons, List.mem_flatMap]
  constructor
  · rintro (rfl | ⟨c, hc, ht⟩)
    · exact ⟨h.mem, .refl⟩
    · obtain ⟨hmem, hwithin⟩ := (ih c hc).1 ht
      exact ⟨hmem, hwithin.tail (isParent_of_mem_children h.mem hc)⟩
  · rintro ⟨hmem, hwithin⟩
    rcases Relation.ReflTransGen.cases_tail hwithin with heq | ⟨c, htc, hci⟩
    · exact .inl heq.symm
    · have hc := mem_children_of_isParent (Within.mem htc hmem) hci
      exact .inr ⟨c, hc, (ih c hc).2 ⟨hmem, htc⟩⟩

theorem Climbs.not_within_child (h : p.Climbs i path) (hc : c ∈ p.children i.id) :
    ¬ p.Within i c :=
  fun hic => h.line.not_above_self
    (Relation.TransGen.tail' hic (isParent_of_mem_children h.mem hc))

theorem Climbs.nodup_subtree (h : p.Climbs i path) : (p.subtree i).Nodup := by
  refine Climbs.induct (P := fun i => (p.subtree i).Nodup) (fun i path h ih => ?_) h
  rw [h.subtree_eq, List.nodup_cons, List.mem_flatMap, List.nodup_flatMap]
  refine ⟨?_, ih, ?_⟩
  · rintro ⟨c, hc, hi⟩
    exact h.not_within_child hc ((h.child hc).mem_subtree.1 hi).2
  · refine (p.nodup_identifiers.filter _).imp_of_mem fun {a b} ha hb hne t hta htb => ?_
    exact hne (h.grounded.eq_of_within ha hb ((h.child ha).mem_subtree.1 hta).2
      ((h.child hb).mem_subtree.1 htb).2)

theorem Grounded.nodup_branches (h : p.Grounded id) :
    ((p.children id).flatMap p.subtree).Nodup := by
  refine List.nodup_flatMap.2 ⟨fun c hc => ?_, ?_⟩
  · obtain ⟨path, hclimbs⟩ := h c hc
    exact hclimbs.nodup_subtree
  · refine (p.nodup_identifiers.filter _).imp_of_mem fun {c d} hc hd hne t htc htd => ?_
    obtain ⟨_, hcclimbs⟩ := h c hc
    obtain ⟨_, hdclimbs⟩ := h d hd
    exact hne (h.eq_of_within hc hd (hcclimbs.mem_subtree.1 htc).2 (hdclimbs.mem_subtree.1 htd).2)

theorem infix_of_child (hc : c ∈ p.children i.id) :
    p.subtree c <:+: (p.children i.id).flatMap p.subtree :=
  List.infix_of_mem_flatten (List.mem_map_of_mem hc)

theorem Climbs.infix_subtree (h : p.Climbs i path) (ha : a ∈ p.identifiers)
    (hai : p.Within a i) : p.subtree a <:+: p.subtree i := by
  induction hai using Relation.ReflTransGen.head_induction_on with
  | refl => exact List.infix_rfl
  | @head a b hab hbi ih =>
    obtain ⟨above, hb⟩ := h.of_within hab.mem hbi
    have hchild := infix_of_child (mem_children_of_isParent ha hab)
    have hcons : (p.children b.id).flatMap p.subtree <:+: p.subtree b := by
      rw [hb.subtree_eq]
      exact (List.suffix_cons _ _).isInfix
    exact (hchild.trans hcons).trans (ih hab.mem)

theorem unfold_eq_take (steps : Nat) (stack : List Identifier)
    (h : ∀ i ∈ stack, ∃ path, p.Climbs i path) :
    p.unfold steps stack = (stack.flatMap p.subtree).take steps := by
  -- each step lists one identifier and puts its children in its place, so what is listed is the
  -- branches of the stack, as far as the steps go
  induction steps generalizing stack with
  | zero => rfl
  | succ steps ih =>
    cases stack with
    | nil => rfl
    | cons i rest =>
      obtain ⟨path, hi⟩ := h i List.mem_cons_self
      have hnext : ∀ j ∈ p.children i.id ++ rest, ∃ path, p.Climbs j path := by
        intro j hj
        rcases List.mem_append.1 hj with hj | hj
        · exact ⟨_, hi.child hj⟩
        · exact h j (List.mem_cons_of_mem _ hj)
      calc p.unfold (steps + 1) (i :: rest)
        _ = i :: p.unfold steps (p.children i.id ++ rest) := rfl
        _ = i :: ((p.children i.id ++ rest).flatMap p.subtree).take steps := by rw [ih _ hnext]
        _ = (i :: ((p.children i.id).flatMap p.subtree ++ rest.flatMap p.subtree)).take
              (steps + 1) := by rw [List.flatMap_append, List.take_succ_cons]
        _ = ((i :: rest).flatMap p.subtree).take (steps + 1) := by
            rw [List.flatMap_cons, hi.subtree_eq, List.cons_append]

theorem Grounded.descendants_eq (h : p.Grounded id) :
    p.descendants id = (p.children id).flatMap p.subtree := by
  have hsub : (p.children id).flatMap p.subtree ⊆ p.identifiers := by
    intro t ht
    obtain ⟨c, hc, ht⟩ := List.mem_flatMap.1 ht
    obtain ⟨_, hclimbs⟩ := h c hc
    exact (hclimbs.mem_subtree.1 ht).1
  have hsize : ((p.children id).flatMap p.subtree).length ≤ p.size :=
    (List.subperm_of_subset h.nodup_branches hsub).length_le
  rw [descendants, unfold_eq_take _ _ h, List.take_of_length_le hsize]

theorem Climbs.descendants_eq (h : p.Climbs i path) :
    p.descendants i.id = (p.children i.id).flatMap p.subtree :=
  h.grounded.descendants_eq

theorem Climbs.subtree_eq_cons (h : p.Climbs i path) :
    p.subtree i = i :: p.descendants i.id := by
  rw [h.descendants_eq, h.subtree_eq]

theorem Climbs.nodup_descendants (h : p.Climbs i path) : (p.descendants i.id).Nodup := by
  have hnodup := h.nodup_subtree
  rw [h.subtree_eq_cons] at hnodup
  exact (List.nodup_cons.1 hnodup).2

theorem Climbs.not_mem_descendants (h : p.Climbs i path) : i ∉ p.descendants i.id := by
  have hnodup := h.nodup_subtree
  rw [h.subtree_eq_cons] at hnodup
  exact (List.nodup_cons.1 hnodup).1

theorem Climbs.mem_descendants (h : p.Climbs i path) :
    t ∈ p.descendants i.id ↔ t ∈ p.identifiers ∧ p.Above t i := by
  have hmem := h.mem_subtree (t := t)
  rw [h.subtree_eq_cons, List.mem_cons, within_iff] at hmem
  constructor
  · intro ht
    obtain ⟨hheld, rfl | habove⟩ := hmem.1 (.inr ht)
    · exact absurd ht h.not_mem_descendants
    · exact ⟨hheld, habove⟩
  · rintro ⟨hheld, habove⟩
    rcases hmem.2 ⟨hheld, .inr habove⟩ with rfl | ht
    · exact absurd habove h.line.not_above_self
    · exact ht

theorem Climbs.descendants_sublist (h : p.Climbs i path) (ha : a ∈ p.identifiers)
    (hai : p.Within a i) : (p.descendants a.id).Sublist (p.descendants i.id) := by
  obtain ⟨above, hclimbs⟩ := h.of_within ha hai
  have hbranch := (h.infix_subtree ha hai).sublist
  rw [hclimbs.subtree_eq_cons, h.subtree_eq_cons] at hbranch
  exact hbranch.tail

theorem Climbs.mem_of_above (h : p.Climbs top path) (htop : p.parent? top = none)
    (ht : t ∈ top :: p.descendants top.id) (hta : p.Above t a) : a ∈ top :: p.descendants top.id := by
  rw [← h.subtree_eq_cons, h.mem_subtree] at ht ⊢
  refine ⟨hta.mem, ?_⟩
  rcases ht.2.total hta.to_reflTransGen with htopa | hatop
  · rw [htopa.eq_of_top htop]
    exact .refl
  · exact hatop

theorem Climbs.stretch (h : p.Climbs i path) (a : Identifier) :
    ∃ before block after, p.descendants i.id = before ++ block ++ after ∧
      ∀ t ∈ p.descendants i.id, t ∈ block ↔ p.Within t a := by
  -- the stretch is all of them if `a` is on the way up, a branch if it is below, or else empty
  by_cases hia : p.Within i a
  · refine ⟨[], p.descendants i.id, [], by simp, fun t ht => ?_⟩
    exact iff_of_true ht ((h.mem_descendants.1 ht).2.to_reflTransGen.trans hia)
  by_cases ha : a ∈ p.identifiers ∧ p.Within a i
  · obtain ⟨above, hclimbs⟩ := h.of_within ha.1 ha.2
    rcases Relation.ReflTransGen.cases_tail ha.2 with rfl | ⟨c, hac, hc⟩
    · exact absurd .refl hia
    have hchild := mem_children_of_isParent (Within.mem hac ha.1) hc
    have hinfix := ((h.child hchild).infix_subtree ha.1 hac).trans (infix_of_child hchild)
    rw [← h.descendants_eq] at hinfix
    obtain ⟨before, after, heq⟩ := hinfix
    refine ⟨before, p.subtree a, after, heq.symm, fun t ht => ?_⟩
    rw [hclimbs.mem_subtree]
    exact and_iff_right (h.mem_descendants.1 ht).1
  · refine ⟨[], [], p.descendants i.id, rfl, fun t ht => ?_⟩
    obtain ⟨hheld, habove⟩ := h.mem_descendants.1 ht
    refine iff_of_false List.not_mem_nil fun hwithin => ?_
    rcases hwithin.total habove.to_reflTransGen with hai | hia'
    · exact ha ⟨hwithin.mem hheld, hai⟩
    · exact hia hia'

theorem sublist_flatMap_pair {α β : Type} {f : α → List β} {xs : List α} {x y : α} {s t : β}
    (h : [x, y].Sublist xs) (hs : s ∈ f x) (ht : t ∈ f y) : [s, t].Sublist (xs.flatMap f) := by
  have hpair : [s, t].Sublist (f x ++ f y) :=
    (List.singleton_sublist.2 hs).append (List.singleton_sublist.2 ht)
  have hflat : ([x, y].flatMap f).Sublist (xs.flatMap f) := h.flatMap f
  rw [List.flatMap_cons, List.flatMap_singleton] at hflat
  exact hpair.trans hflat

theorem Climbs.in_order (h : p.Climbs i path) (ha : p.IsParent a i) (hb : p.IsParent b i)
    (horder : [a, b].Sublist p.identifiers) {s : Identifier} (hs : s ∈ p.identifiers)
    (ht : t ∈ p.identifiers) (hsa : p.Within s a) (htb : p.Within t b) :
    [s, t].Sublist (p.descendants i.id) := by
  have hparent : ∀ x ∈ [a, b], p.IsParent x i → x.parent = some i.id := fun x hx hlink =>
    (mem_children.1 (mem_children_of_isParent (horder.subset hx) hlink)).2
  have hchildren := children_sublist (hparent a (by simp) ha) (hparent b (by simp) hb) horder
  have hmem : ∀ x ∈ [a, b], x ∈ p.children i.id := fun x hx => hchildren.subset hx
  rw [h.descendants_eq]
  refine sublist_flatMap_pair hchildren ?_ ?_
  · exact (h.child (hmem a (by simp))).mem_subtree.2 ⟨hs, hsa⟩
  · exact (h.child (hmem b (by simp))).mem_subtree.2 ⟨ht, htb⟩

/-- The tests below an identifier: each once, those of a branch in one stretch, and those of
siblings in the order of the siblings. -/
structure ListsTests (p : Plan) (top : Identifier) (tests : List Identifier) : Prop where
  nodup : (tests.map (·.id)).Nodup
  mem_iff : ∀ t, t ∈ tests ↔ t ∈ p.identifiers ∧ t.isTest = true ∧ p.Above t top
  contiguous : ∀ a, ∃ before block after, tests = before ++ block ++ after ∧
    ∀ t ∈ tests, t ∈ block ↔ p.Within t a
  in_order : ∀ a b, a.parent = b.parent → [a, b].Sublist p.identifiers →
    ∀ s ∈ tests, ∀ t ∈ tests, p.Within s a → p.Within t b → [s, t].Sublist tests

theorem Climbs.top_eq (h : p.Climbs top path) (htop : p.parent? top = none)
    (ht : t ∈ p.descendants top.id) (hta : p.Within t a) (ha : p.parent? a = none) : a = top := by
  rcases hta.total (h.mem_descendants.1 ht).2.to_reflTransGen with hat | hta'
  · exact hat.eq_of_top ha
  · exact (hta'.eq_of_top htop).symm

theorem Climbs.siblings (h : p.Climbs top path) (htop : p.parent? top = none)
    (hab : a.parent = b.parent) (hne : a ≠ b) {s : Identifier}
    (hs : s ∈ p.descendants top.id) (ht : t ∈ p.descendants top.id) (hsa : p.Within s a)
    (htb : p.Within t b) : ∃ q, p.IsParent a q ∧ p.IsParent b q ∧ p.Within q top := by
  have hparent : p.parent? a = p.parent? b := by
    unfold parent?
    rw [hab]
  cases hq : p.parent? a with
  | none =>
    have hat := h.top_eq htop hs hsa hq
    have hbt := h.top_eq htop ht htb (hparent.symm.trans hq)
    exact absurd (hat.trans hbt.symm) hne
  | some q =>
    refine ⟨q, hq, hparent.symm.trans hq, ?_⟩
    have hatop : p.Within a top := by
      rcases hsa.total (h.mem_descendants.1 hs).2.to_reflTransGen with hat | hta
      · exact hat
      · rw [hta.eq_of_top htop]
        exact .refl
    rcases Relation.ReflTransGen.cases_head hatop with rfl | ⟨r, hr, hrtop⟩
    · exact absurd (htop.symm.trans hq) nofun
    · obtain rfl : q = r := Option.some.inj (hq.symm.trans hr)
      exact hrtop

theorem Climbs.siblings_in_order (h : p.Climbs top path) (htop : p.parent? top = none)
    (hab : a.parent = b.parent) (horder : [a, b].Sublist p.identifiers) {s : Identifier}
    (hs : s ∈ p.descendants top.id) (ht : t ∈ p.descendants top.id) (hsa : p.Within s a)
    (htb : p.Within t b) : [s, t].Sublist (p.descendants top.id) := by
  have hne : a ≠ b := by
    rintro rfl
    simpa using horder.nodup p.nodup_identifiers
  obtain ⟨q, haq, hbq, hqtop⟩ := h.siblings htop hab hne hs ht hsa htb
  obtain ⟨above, hq⟩ := h.of_within haq.mem hqtop
  have hpair := hq.in_order haq hbq horder (h.mem_descendants.1 hs).1 (h.mem_descendants.1 ht).1
    hsa htb
  exact hpair.trans (h.descendants_sublist haq.mem hqtop)

theorem testsUnder_listsTests (htop : top ∈ p.identifiers) (hroot : p.parent? top = none) :
    p.ListsTests top (p.testsUnder top.id) := by
  have h : p.Climbs top [] := ⟨htop, .top hroot⟩
  have hmem : ∀ t, t ∈ p.testsUnder top.id ↔ t ∈ p.descendants top.id ∧ t.isTest = true :=
    fun t => List.mem_filter
  refine ⟨?_, fun t => ?_, fun a => ?_, fun a b hab horder s hs t ht hsa htb => ?_⟩
  · have hsub : p.testsUnder top.id ⊆ p.identifiers :=
      fun t ht => (h.mem_descendants.1 ((hmem t).1 ht).1).1
    refine List.Nodup.map_on (fun x hx y hy heq => ?_) (h.nodup_descendants.filter _)
    exact eq_of_id_eq (hsub hx) (hsub hy) heq
  · rw [hmem, h.mem_descendants, and_assoc, and_comm (a := p.Above t top)]
  · obtain ⟨before, block, after, heq, hblock⟩ := h.stretch a
    refine ⟨before.filter (·.isTest), block.filter (·.isTest), after.filter (·.isTest), ?_, ?_⟩
    · rw [testsUnder, heq, List.filter_append, List.filter_append]
    · intro t ht
      obtain ⟨hdown, htest⟩ := (hmem t).1 ht
      rw [List.mem_filter, hblock t hdown]
      exact and_iff_left htest
  · obtain ⟨hsdown, hstest⟩ := (hmem s).1 hs
    obtain ⟨htdown, httest⟩ := (hmem t).1 ht
    have hdown := h.siblings_in_order hroot hab horder hsdown htdown hsa htb
    have hfiltered := hdown.filter (·.isTest)
    rwa [List.filter_eq_self.2 fun x hx => ?_] at hfiltered
    rcases List.mem_pair.1 hx with rfl | rfl
    · exact hstest
    · exact httest

end TestRun.Plan
