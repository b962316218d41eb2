import Mathlib.Algebra.Order.BigOperators.Group.List
import TestRun.Proofs.Listener.Tracing
import TestRun.Proofs.Tree.Lasting
set_option autoImplicit false

namespace TestRun

open Time

namespace Node

def spent (n : Node) (m : Int) : Int :=
  match n.start with
  | none => 0
  | some start => max (n.finish.elim m Instant.moment - start.moment) 0

def isOpen (n : Node) : Bool := n.start.isSome && n.finish.isNone

/-- The instants of the node lie between two moments, and it has no finish before its end. -/
structure Within (lo hi : Int) (n : Node) : Prop where
  dated : n.Dated fun i => lo ≤ i.moment ∧ i.moment ≤ hi
  unfinished : n.ending = none → n.finish = none

variable {n : Node} {lo hi m : Int} {now : Instant} {aware : Bool}

theorem Timed.span_eq (h : n.Timed aware) (hnow : now.offset.isSome = aware) :
    n.span (some now) = .ok (n.spent now.moment) := by
  have hkind (i j : Instant) (hi : i.offset.isSome = aware) (hj : j.offset.isSome = aware) :
      elapsed i j = .ok (max (j.moment - i.moment) 0) := elapsed_eq (hi.trans hj.symm)
  unfold span spent
  cases hs : n.start with
  | none => cases n.finish <;> exact elapsed_self _
  | some start =>
    cases hf : n.finish with
    | none => exact hkind start now (h.start start hs) hnow
    | some finish => exact hkind start finish (h.start start hs) (h.finish finish hf)

theorem spent_nonneg (n : Node) (m : Int) : 0 ≤ n.spent m := by
  unfold spent
  split
  · exact Int.le_refl 0
  · exact Int.le_max_right _ _

theorem Within.spent_le (h : n.Within lo hi) (hle : lo ≤ hi) : n.spent hi ≤ hi - lo := by
  unfold spent
  cases hs : n.start with
  | none => dsimp only; omega
  | some start =>
    have hstart := h.dated.start start hs
    cases hf : n.finish with
    | none => simp only [Option.elim_none]; omega
    | some finish =>
      have hfinish := h.dated.finish finish hf
      simp only [Option.elim_some]
      omega

theorem Within.later (h : n.Within lo hi) (hle : hi ≤ m) : n.Within lo m := by
  refine ⟨⟨fun i hi => ?_, fun i hi => ?_⟩, h.unfinished⟩
  · have := h.dated.start i hi
    omega
  · have := h.dated.finish i hi
    omega

theorem spent_later (n : Node) {m' : Int} (hle : m ≤ m') :
    n.spent m' ≤ n.spent m + if n.isOpen then m' - m else 0 := by
  unfold spent isOpen
  cases n.start with
  | none => simp
  | some start =>
    cases n.finish with
    | none => simp only [Option.elim_none, Option.isSome_some, Option.isNone_none, Bool.and_self,
        if_true]; omega
    | some finish => simp

theorem fresh_within (i : Identifier) {start : Option Instant}
    (h : ∀ now, start = some now → lo ≤ now.moment ∧ now.moment ≤ hi) :
    (fresh i start).Within lo hi := ⟨fresh_dated i h, fun _ => rfl⟩

theorem Within.begun (h : n.Within lo now.moment) (hle : lo ≤ now.moment) :
    (n.begun now).Within lo now.moment ∧ (n.begun now).spent now.moment = n.spent now.moment := by
  refine ⟨⟨h.dated.begun ⟨hle, Int.le_refl _⟩, h.unfinished⟩, ?_⟩
  cases hs : n.start with
  | some start => rw [begun_of_start hs]
  | none =>
    rw [begun_of_none hs]
    simp only [spent, hs]
    cases hf : n.finish with
    | none => simp
    | some finish =>
      have := h.dated.finish finish hf
      simp only [Option.elim_some]
      omega

theorem Within.closed (h : n.Within lo now.moment) (hle : lo ≤ now.moment) (e : Ending) :
    (n.closed e now).Within lo now.moment ∧
      (n.closed e now).spent now.moment = n.spent now.moment := by
  cases he : n.ending with
  | some ending =>
    rw [closed_of_ending he]
    exact ⟨h, rfl⟩
  | none =>
    have hdated := h.dated.closed e ⟨hle, Int.le_refl _⟩
    rw [closed_of_none he] at hdated ⊢
    refine ⟨⟨hdated, nofun⟩, ?_⟩
    simp only [spent, h.unfinished he]
    rfl

end Node

namespace Tree

def spent (t : Tree) (id : String) (m : Int) : Int := (t.node? id).elim 0 (·.spent m)

def isOpen (t : Tree) (id : String) : Bool := (t.node? id).elim false Node.isOpen

/-- All that was recorded lies between two moments. -/
structure Clocked (t : Tree) (lo hi : Int) : Prop where
  le : lo ≤ hi
  within : t.Each (Node.Within lo hi)

variable {t t' : Tree} {lo hi m : Int} {i : Identifier} {n : Node} {aware : Bool}

theorem Timed.duration_eq (h : t.Timed aware) {now : Instant} (hnow : now.offset.isSome = aware)
    (id : String) : t.duration id (some now) = .ok (t.spent id now.moment) := by
  cases hn : t.node? id with
  | none =>
    unfold duration spent
    rw [hn]
    rfl
  | some n =>
    rw [duration_eq_span hn, (h id n hn).span_eq hnow, spent, hn]
    rfl

theorem spent_nonneg (t : Tree) (id : String) (m : Int) : 0 ≤ t.spent id m := by
  unfold spent
  cases t.node? id with
  | none => exact Int.le_refl 0
  | some n => exact n.spent_nonneg m

theorem Clocked.spent_le (h : t.Clocked lo hi) (id : String) : t.spent id hi ≤ hi - lo := by
  unfold spent
  cases hn : t.node? id with
  | none => exact Int.sub_nonneg_of_le h.le
  | some n => exact (h.within id n hn).spent_le h.le

theorem spent_nodeOf (t : Tree) (i : Identifier) (m : Int) :
    (t.nodeOf i).spent m = t.spent i.id m := by
  unfold Tree.nodeOf spent
  cases t.node? i.id <;> rfl

theorem spent_later (t : Tree) (id : String) {m' : Int} (hle : m ≤ m') :
    t.spent id m' ≤ t.spent id m + if t.isOpen id then m' - m else 0 := by
  unfold spent isOpen
  cases t.node? id with
  | none => simp
  | some n => exact n.spent_later hle

theorem begin_clocked (p : Plan) (startedAt : Instant) :
    (begin p (some startedAt)).Clocked startedAt.moment startedAt.moment := by
  refine ⟨Int.le_refl _, each_begin (fun i => Node.fresh_within i fun now hnow => ?_) p⟩
  cases hnow
  exact ⟨Int.le_refl _, Int.le_refl _⟩

theorem Clocked.later (h : t.Clocked lo hi) (hle : hi ≤ m) : t.Clocked lo m :=
  ⟨Int.le_trans h.le hle, fun id n hn => (h.within id n hn).later hle⟩

theorem Clocked.nodeOf (h : t.Clocked lo hi) (i : Identifier) : (t.nodeOf i).Within lo hi :=
  h.within.nodeOf (Node.fresh_within i fun _ hnow => nomatch hnow)

theorem Clocked.puts (h : t.Clocked lo m) (hn : n.Within lo m)
    (hspent : n.spent m = (t.nodeOf i).spent m) (hputs : t.Puts i n t') :
    t'.Clocked lo m ∧ ∀ id, t'.spent id m = t.spent id m := by
  refine ⟨⟨h.le, h.within.puts hn hputs⟩, fun id => ?_⟩
  rw [spent, hputs.node?_eq]
  split
  · next hid =>
    rw [hid, ← spent_nodeOf]
    exact hspent
  · rfl

theorem sum_spent_of_shut (t : Tree) {ids : List String} (h : ∀ a ∈ ids, t.isOpen a = false)
    {m' : Int} (hle : m ≤ m') :
    (ids.map (t.spent · m')).sum ≤ (ids.map (t.spent · m)).sum := by
  apply List.sum_le_sum
  intro a ha
  have hpass := t.spent_later a hle
  rw [h a ha, if_neg Bool.false_ne_true] at hpass
  omega

/-- What passes is shared by nodes of which at most one is open. -/
theorem sum_spent_le (t : Tree) {ids : List String} (hnodup : ids.Nodup)
    (hone : ∀ a ∈ ids, ∀ b ∈ ids, t.isOpen a = true → t.isOpen b = true → a = b) {m' : Int}
    (hle : m ≤ m') :
    (ids.map (t.spent · m')).sum ≤ (ids.map (t.spent · m)).sum + (m' - m) := by
  induction ids with
  | nil =>
    rw [List.map_nil, List.map_nil, List.sum_nil]
    omega
  | cons a ids ih =>
    obtain ⟨ha, hids⟩ := List.nodup_cons.1 hnodup
    have hhead := t.spent_later a hle
    rw [List.map_cons, List.map_cons, List.sum_cons, List.sum_cons]
    cases hopen : t.isOpen a with
    | false =>
      have hrest := ih hids fun b hb c hc =>
        hone b (List.mem_cons_of_mem a hb) c (List.mem_cons_of_mem a hc)
      rw [hopen, if_neg Bool.false_ne_true] at hhead
      omega
    | true =>
      have hrest := t.sum_spent_of_shut (fun b hb => by
        by_contra hb'
        rw [Bool.not_eq_false] at hb'
        exact ha (hone a List.mem_cons_self b (List.mem_cons_of_mem a hb) hopen hb' ▸ hb)) hle
      rw [hopen, if_pos rfl] at hhead
      omega

end Tree

end TestRun
