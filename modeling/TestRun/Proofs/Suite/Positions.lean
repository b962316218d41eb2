import Mathlib.Data.List.FinRange
import TestRun.Proofs.Suite.Listing
set_option autoImplicit false

namespace TestRun

theorem SuiteNode.listingAll_eq_flatMap (parent? : Option String) (ns : List SuiteNode) :
    listingAll parent? ns = ns.flatMap (listing parent?) := by
  induction ns with
  | nil => exact listingAll_nil parent?
  | cons n rest ih => rw [listingAll_cons, ih, List.flatMap_cons]

/-- The place leads down the forest, and these are the nodes on the way. -/
inductive Reaches : List SuiteNode → List Nat → List SuiteNode → Prop
  | here {ns : List SuiteNode} {k : Nat} {n : SuiteNode} : ns[k]? = some n → Reaches ns [k] [n]
  | further {ns : List SuiteNode} {k : Nat} {n : SuiteNode} {place : List Nat}
      {way : List SuiteNode} : ns[k]? = some n → Reaches n.children place way →
      Reaches ns (k :: place) (n :: way)

structure Position (forest : List SuiteNode) where
  place : List Nat
  way : List SuiteNode
  reaches : Reaches forest place way

variable {forest ns way : List SuiteNode} {place : List Nat}

theorem Reaches.way_ne_nil (h : Reaches ns place way) : way ≠ [] := by
  cases h <;> exact List.cons_ne_nil _ _

theorem Reaches.place_ne_nil (h : Reaches ns place way) : place ≠ [] := by
  cases h <;> exact List.cons_ne_nil _ _

theorem Reaches.way_eq {way' : List SuiteNode} (h : Reaches ns place way)
    (h' : Reaches ns place way') : way = way' := by
  induction h generalizing way' with
  | here hn =>
    cases h' with
    | here hn' => rw [Option.some.inj (hn.symm.trans hn')]
    | further _ hrest => exact absurd rfl hrest.place_ne_nil
  | further hn hrest ih =>
    cases h' with
    | here _ => exact absurd rfl hrest.place_ne_nil
    | further hn' hrest' =>
      obtain rfl := Option.some.inj (hn.symm.trans hn')
      rw [ih hrest']

theorem Reaches.append {n : SuiteNode} {k : Nat} (h : Reaches ns place way)
    (hn : (way.getLast h.way_ne_nil).children[k]? = some n) :
    Reaches ns (place ++ [k]) (way ++ [n]) := by
  induction h with
  | here hm => exact .further hm (.here hn)
  | further hm hrest ih =>
    refine .further hm (ih ?_)
    rwa [List.getLast_cons hrest.way_ne_nil] at hn

theorem Reaches.descends {k : Nat} {rest : List Nat} {way' : List SuiteNode}
    (h : Reaches ns place way) (h' : Reaches ns (place ++ k :: rest) way') :
    k < (way.getLast h.way_ne_nil).children.length := by
  induction h generalizing way' with
  | here hn =>
    cases h' with
    | further hn' hrest =>
      obtain rfl := Option.some.inj (hn.symm.trans hn')
      cases hrest with
      | here hk => exact (List.getElem?_eq_some_iff.1 hk).1
      | further hk _ => exact (List.getElem?_eq_some_iff.1 hk).1
  | @further ns j n place way hn hrest ih =>
    rw [List.getLast_cons hrest.way_ne_nil]
    rw [List.cons_append] at h'
    generalize hrow : place ++ k :: rest = row at h'
    cases h' with
    | here _ => simp at hrow
    | further hn' hrest' =>
      obtain rfl := Option.some.inj (hn.symm.trans hn')
      subst hrow
      exact ih hrest'

namespace Position

variable {q r : Position forest}

theorem ext_place (h : q.place = r.place) : q = r := by
  obtain ⟨place, way, hq⟩ := q
  obtain ⟨place', way', hr⟩ := r
  obtain rfl : place = place' := h
  obtain rfl := hq.way_eq hr
  rfl

def node (q : Position forest) : SuiteNode := q.way.getLast q.reaches.way_ne_nil

def joined (way : List SuiteNode) : String := ":".intercalate (way.map (·.label.id))

def id (q : Position forest) : String := joined q.way

def parentId? (q : Position forest) : Option String :=
  match q.way.dropLast with
  | [] => none
  | above => some (joined above)

def identifier (q : Position forest) : Identifier :=
  ⟨q.id, q.node.label.givenName, q.parentId?, q.node.kind⟩

def root (k : Fin forest.length) : Position forest :=
  ⟨[k.val], [forest[k]], .here (List.getElem?_eq_getElem k.isLt)⟩

def child (q : Position forest) (k : Fin q.node.children.length) : Position forest :=
  ⟨q.place ++ [k.val], q.way ++ [q.node.children[k]],
    q.reaches.append (List.getElem?_eq_getElem k.isLt)⟩

def roots (forest : List SuiteNode) : List (Position forest) :=
  (List.finRange forest.length).map root

def children (q : Position forest) : List (Position forest) :=
  (List.finRange q.node.children.length).map q.child

@[simp] theorem node_root (k : Fin forest.length) : (root k).node = forest[k] := rfl

@[simp] theorem node_child (q : Position forest) (k : Fin q.node.children.length) :
    (q.child k).node = q.node.children[k] :=
  List.getLast_concat

@[simp] theorem place_root (k : Fin forest.length) : (root k).place = [k.val] := rfl

@[simp] theorem place_child (q : Position forest) (k : Fin q.node.children.length) :
    (q.child k).place = q.place ++ [k.val] := rfl

@[simp] theorem parentId?_root (k : Fin forest.length) : (root k).parentId? = none := rfl

@[simp] theorem parentId?_child (q : Position forest) (k : Fin q.node.children.length) :
    (q.child k).parentId? = some q.id := by
  have hway : (q.child k).way.dropLast = q.way := List.dropLast_concat
  unfold parentId?
  rw [hway]
  split
  · exact absurd ‹_› q.reaches.way_ne_nil
  · rfl

theorem map_node_roots (forest : List SuiteNode) : (roots forest).map node = forest := by
  simp [roots, Function.comp_def]

theorem map_node_children (q : Position forest) : q.children.map node = q.node.children := by
  simp [children, Function.comp_def]

theorem identifier_eq (q : Position forest) : q.identifier = q.node.identifier q.parentId? := by
  have hway : q.way.dropLast ++ [q.node] = q.way := List.dropLast_append_getLast _
  have hid : q.id = q.node.uniqueId q.parentId? := by
    unfold id joined parentId?
    rw [← hway, List.dropLast_concat]
    split
    · rename_i habove
      rw [habove]
      rfl
    · rename_i habove
      rw [List.map_append, String.intercalate_append_of_ne_nil]
      · rfl
      · simpa using mt List.map_eq_nil_iff.1 habove
      · simp
  rw [identifier, hid, ← Label.shownName_eq]
  rfl

@[simp] theorem uniqueId_node (q : Position forest) : q.node.uniqueId q.parentId? = q.id :=
  (congrArg Identifier.id q.identifier_eq).symm

/-- A row of positions that has each one with a property once, in the order of their places. -/
structure Tours (tour : List (Position forest)) (P : Position forest → Prop) : Prop where
  mem_iff : ∀ r, r ∈ tour ↔ P r
  sorted : tour.Pairwise fun q r => q.place < r.place

def entry (q : Position forest) : Identifier × SuiteNode := (q.identifier, q.node)

theorem place_lt {above x y : List Nat} {k l : Nat} (h : k < l)
    (hx : above ++ [k] <+: x) (hy : above ++ [l] <+: y) : x < y := by
  obtain ⟨x, rfl⟩ := hx
  obtain ⟨y, rfl⟩ := hy
  rw [List.append_assoc, List.append_assoc]
  exact List.append_left_lt (List.cons_lt_cons_iff.2 (.inl h))

theorem place_lt_child {x : List Nat} {k : Nat} (h : place ++ [k] <+: x) : place < x := by
  obtain ⟨x, rfl⟩ := h
  rw [List.append_assoc]
  have hlt : place ++ [] < place ++ (k :: x) := List.append_left_lt (List.nil_lt_cons k x)
  simpa using hlt

theorem tours_siblings {m : Nat} {parent? : Option String} (above : List Nat)
    (f : Fin m → Position forest) (hplace : ∀ k, (f k).place = above ++ [k.val])
    (hparent : ∀ k, (f k).parentId? = parent?)
    (h : ∀ k, ∃ tour : List (Position forest), (f k).node.listing (f k).parentId? = tour.map entry ∧
      Tours tour fun r => (f k).place <+: r.place) :
    ∃ tour : List (Position forest),
      SuiteNode.listingAll parent? ((List.finRange m).map fun k => (f k).node) =
        tour.map entry ∧ Tours tour fun r => ∃ k, (f k).place <+: r.place := by
  choose tour hlisting htours using h
  refine ⟨(List.finRange m).flatMap tour, ?_, fun r => ?_, ?_⟩
  · rw [SuiteNode.listingAll_eq_flatMap, List.flatMap_map, List.map_flatMap]
    congr 1
    funext k
    rw [← hparent k]
    exact hlisting k
  · simp [(htours _).mem_iff]
  · rw [List.pairwise_flatMap]
    refine ⟨fun k _ => (htours k).sorted, (List.pairwise_lt_finRange m).imp ?_⟩
    intro k l hkl x hx y hy
    have hx' := ((htours k).mem_iff x).1 hx
    have hy' := ((htours l).mem_iff y).1 hy
    rw [hplace] at hx' hy'
    exact place_lt hkl hx' hy'

theorem at_or_below_iff (q r : Position forest) :
    q.place <+: r.place ↔ r = q ∨ ∃ k, (q.child k).place <+: r.place := by
  constructor
  · rintro ⟨_ | ⟨k, rest⟩, hrest⟩
    · left
      apply ext_place
      simpa using hrest.symm
    · right
      have hr := r.reaches
      rw [← hrest] at hr
      exact ⟨⟨k, q.reaches.descends hr⟩, rest, by simp [← hrest]⟩
  · rintro (rfl | ⟨k, hk⟩)
    · exact List.prefix_rfl
    · exact (List.prefix_append _ _).trans hk

theorem tours_below (q : Position forest) :
    ∃ tour : List (Position forest), q.node.listing q.parentId? = tour.map entry ∧
      Tours tour fun r => q.place <+: r.place := by
  generalize hn : q.node = n
  induction n using SuiteNode.induct generalizing q with
  | step n ih =>
    subst hn
    have hchild : ∀ k, (q.child k).node ∈ q.node.children :=
      fun k => q.node_child k ▸ List.getElem_mem k.isLt
    obtain ⟨tour, hlisting, htours⟩ := tours_siblings q.place q.child (fun _ => rfl)
      q.parentId?_child fun k => ih _ (hchild k) (q.child k) rfl
    have hnodes : (List.finRange q.node.children.length).map (fun k => (q.child k).node) =
        q.node.children := by
      have hmap := q.map_node_children
      rwa [children, List.map_map] at hmap
    refine ⟨q :: tour, ?_, fun r => ?_, List.pairwise_cons.2 ⟨fun r hr => ?_, htours.sorted⟩⟩
    · rw [SuiteNode.listing_eq, uniqueId_node, ← identifier_eq, ← hnodes, hlisting]
      rfl
    · rw [List.mem_cons, htours.mem_iff, at_or_below_iff]
    · obtain ⟨k, hk⟩ := (htours.mem_iff r).1 hr
      exact place_lt_child hk

theorem tours_listing (forest : List SuiteNode) :
    ∃ tour : List (Position forest),
      SuiteNode.listingAll none forest = tour.map entry ∧ Tours tour fun _ => True := by
  obtain ⟨tour, hlisting, htours⟩ := tours_siblings [] (@root forest) (fun _ => rfl)
    parentId?_root fun k => tours_below _
  refine ⟨tour, ?_, fun r => iff_of_true ?_ trivial, htours.sorted⟩
  · have hnodes := map_node_roots forest
    rw [roots, List.map_map] at hnodes
    rw [← hlisting]
    exact congrArg _ hnodes.symm
  · rw [htours.mem_iff]
    obtain ⟨place, way, hr⟩ := r
    cases hr with
    | here hk => exact ⟨⟨_, (List.getElem?_eq_some_iff.1 hk).1⟩, List.prefix_rfl⟩
    | further hk _ => exact ⟨⟨_, (List.getElem?_eq_some_iff.1 hk).1⟩, _, rfl⟩

end Position

end TestRun
