import Mathlib.Data.List.Basic
import TestRun.Proofs.Plan.Below
import TestRun.Table
set_option autoImplicit false

/-!
# Plans in two tables

A plan can be kept in two tables: the identifiers under their ids, and under each id the ids of
those that name it as their parent, whether it is held yet or not. The children of an id are then
looked up one by one, and the walk below it goes by a stack from whose end it takes identifiers.
Each lookup succeeds, and the stack runs empty with the descendants listed in pre-order.
-/

namespace TestRun

structure Ledger where
  identifiers : Table String Identifier
  listed : Table String (List String)

namespace Ledger

def empty : Ledger := ⟨.empty, .empty⟩

def under (l : Ledger) (id : String) : List String := (l.listed.get? id).getD []

def opened (listed : Table String (List String)) (id : String) : Table String (List String) :=
  if (listed.get? id).isSome then listed else listed.set id []

def add (l : Ledger) (i : Identifier) : Ledger :=
  if (l.identifiers.get? i.id).isSome then l
  else
    let listed := opened l.listed i.id
    match i.parent with
    | none => ⟨l.identifiers.set i.id i, listed⟩
    | some parent =>
      ⟨l.identifiers.set i.id i, listed.set parent ((listed.get? parent).getD [] ++ [i.id])⟩

def ofList (is : List Identifier) : Ledger := is.foldl add empty

def children? (l : Ledger) (id : String) : Option (List Identifier) :=
  (l.under id).mapM l.identifiers.get?

structure Walk where
  stack : List Identifier
  found : List Identifier

def Walk.start (children : List Identifier) : Walk := ⟨children.reverse, []⟩

/-- Takes the identifier at the end of the stack and puts its children there, the first one last;
nothing, if the stack is empty or a child is not held. -/
def turn? (l : Ledger) (w : Walk) : Option Walk :=
  w.stack.getLast?.bind fun current =>
    (l.children? current.id).map fun children =>
      ⟨w.stack.dropLast ++ children.reverse, w.found ++ [current]⟩

def turns? (l : Ledger) : Nat → Walk → Option Walk
  | 0, w => some w
  | n + 1, w => (l.turn? w).bind (turns? l n)

/-- The tables hold the identifiers of the plan in its order, and under each id its children. -/
structure Keeps (l : Ledger) (p : Plan) : Prop where
  rows : l.identifiers.rows = p.identifiers.map fun i => (i.id, i)
  under : ∀ id, l.under id = (p.children id).map (·.id)

variable {l : Ledger} {p : Plan} {i : Identifier} {id : String}

theorem lookup_map (is : List Identifier) (id : String) :
    (is.map fun i => (i.id, i)).lookup id = is.find? (·.id == id) := by
  induction is with
  | nil => rfl
  | cons i rest ih =>
    rw [List.map_cons, List.lookup_cons, List.find?_cons, ih, BEq.comm]

theorem Keeps.get? (h : l.Keeps p) (id : String) : l.identifiers.get? id = p.get? id := by
  rw [Table.get?, h.rows, lookup_map]
  rfl

theorem Keeps.isSome_iff (h : l.Keeps p) : (l.identifiers.get? id).isSome ↔ id ∈ p.ids := by
  rw [h.get?, Plan.get?, List.find?_isSome, Plan.mem_ids]
  simp only [beq_iff_eq]

theorem getD_opened (listed : Table String (List String)) (id other : String) :
    ((opened listed id).get? other).getD [] = (listed.get? other).getD [] := by
  unfold opened
  split
  · rfl
  next hnone =>
    rw [Table.get?_set]
    split
    next heq => rw [heq, Option.not_isSome_iff_eq_none.1 hnone]; rfl
    · rfl

theorem rows_set_of_none {t : Table String Identifier} (h : t.get? id = none) :
    (t.set id i).rows = t.rows ++ [(id, i)] := by
  simp [Table.set, h]

theorem under_add (h : l.identifiers.get? i.id = none) (id : String) :
    (l.add i).under id = l.under id ++ if i.parent == some id then [i.id] else [] := by
  unfold add under
  rw [h]
  cases hparent : i.parent with
  | none => simp [getD_opened]
  | some parent =>
    simp only [Option.isSome_none, Bool.false_eq_true, if_false, Table.get?_set, getD_opened]
    by_cases heq : id = parent
    · simp [heq]
    · have hne : parent ≠ id := fun e => heq e.symm
      simp [heq, hne, getD_opened]

theorem children_add (h : i.id ∉ p.ids) (id : String) :
    (p.add i).children id = p.children id ++ if i.parent == some id then [i] else [] := by
  rw [Plan.children, Plan.identifiers_add h, List.filter_append, List.filter_singleton]
  cases i.parent == some id <;> rfl

theorem add_of_isSome (h : (l.identifiers.get? i.id).isSome) : l.add i = l := if_pos h

theorem rows_add (h : l.identifiers.get? i.id = none) :
    (l.add i).identifiers.rows = l.identifiers.rows ++ [(i.id, i)] := by
  unfold add
  rw [h]
  cases i.parent <;> exact rows_set_of_none h

theorem Keeps.add (h : l.Keeps p) (i : Identifier) : (l.add i).Keeps (p.add i) := by
  by_cases hi : i.id ∈ p.ids
  · rw [add_of_isSome (h.isSome_iff.2 hi), Plan.add_of_mem hi]
    exact h
  · have hnone : l.identifiers.get? i.id = none :=
      Option.not_isSome_iff_eq_none.1 fun hsome => hi (h.isSome_iff.1 hsome)
    refine ⟨?_, fun id => ?_⟩
    · rw [rows_add hnone, Plan.identifiers_add hi, h.rows, List.map_append, List.map_singleton]
    · rw [under_add hnone, children_add hi, h.under, List.map_append]
      split <;> rfl

theorem keeps_empty (serial : Nat) : empty.Keeps (.empty serial) := ⟨rfl, fun _ => rfl⟩

theorem keeps_ofList (serial : Nat) (is : List Identifier) :
    (ofList is).Keeps (Plan.ofList serial is) := by
  have hfold : ∀ (l : Ledger) (p : Plan), l.Keeps p →
      (is.foldl Ledger.add l).Keeps (is.foldl Plan.add p) := by
    induction is with
    | nil => exact fun _ _ h => h
    | cons i rest ih => exact fun l p h => ih _ _ (h.add i)
  exact hfold _ _ (keeps_empty serial)

theorem Keeps.children?_eq (h : l.Keeps p) (id : String) :
    l.children? id = some (p.children id) := by
  rw [children?, h.under, List.mapM_map]
  have hheld : ∀ c ∈ p.children id, (l.identifiers.get? ∘ (·.id)) c = some c := fun c hc =>
    (h.get? c.id).trans (Plan.get?_of_mem (Plan.mem_children.1 hc).1)
  generalize p.children id = children at hheld
  induction children with
  | nil => rfl
  | cons c rest ih =>
    rw [List.mapM_cons, hheld c List.mem_cons_self, ih fun d hd => hheld d (List.mem_cons_of_mem _ hd)]
    rfl

theorem Keeps.turn?_eq (h : l.Keeps p) (i : Identifier) (rest found : List Identifier) :
    l.turn? ⟨(i :: rest).reverse, found⟩ =
      some ⟨(p.children i.id ++ rest).reverse, found ++ [i]⟩ := by
  simp [turn?, h.children?_eq]

theorem Keeps.turns?_eq (h : l.Keeps p) (stack found : List Identifier)
    (hstack : ∀ i ∈ stack, ∃ path, p.Climbs i path) :
    l.turns? (stack.flatMap p.subtree).length ⟨stack.reverse, found⟩ =
      some ⟨[], found ++ stack.flatMap p.subtree⟩ := by
  induction hn : (stack.flatMap p.subtree).length generalizing stack found with
  | zero =>
    cases stack with
    | nil => simp [turns?]
    | cons i rest =>
      obtain ⟨_, hi⟩ := hstack i List.mem_cons_self
      simp [hi.subtree_eq] at hn
  | succ n ih =>
    cases stack with
    | nil => simp at hn
    | cons i rest =>
      obtain ⟨_, hi⟩ := hstack i List.mem_cons_self
      have hnext : ∀ j ∈ p.children i.id ++ rest, ∃ path, p.Climbs j path := by
        intro j hj
        rcases List.mem_append.1 hj with hj | hj
        · exact ⟨_, hi.child hj⟩
        · exact hstack j (List.mem_cons_of_mem _ hj)
      -- one turn lists `i` and leaves the branches of its children before those of the rest
      have hbranches : (i :: rest).flatMap p.subtree =
          i :: (p.children i.id ++ rest).flatMap p.subtree := by
        rw [List.flatMap_cons, hi.subtree_eq, List.flatMap_append, List.cons_append]
      rw [hbranches, List.length_cons] at hn
      calc l.turns? (n + 1) ⟨(i :: rest).reverse, found⟩
        _ = l.turns? n ⟨(p.children i.id ++ rest).reverse, found ++ [i]⟩ := by
            rw [turns?, h.turn?_eq, Option.bind_some]
        _ = some ⟨[], found ++ [i] ++ (p.children i.id ++ rest).flatMap p.subtree⟩ :=
            ih _ _ hnext (Nat.succ.inj hn)
        _ = some ⟨[], found ++ (i :: rest).flatMap p.subtree⟩ := by
            rw [hbranches, List.append_assoc, List.singleton_append]

theorem Keeps.turns?_start (h : l.Keeps p) (hid : p.Grounded id) :
    l.turns? (p.descendants id).length (.start (p.children id)) = some ⟨[], p.descendants id⟩ := by
  have hwalk := h.turns?_eq (p.children id) [] hid
  rwa [← hid.descendants_eq] at hwalk

end Ledger

namespace Plan

/-- The identifiers below an id, each once and before those below it, siblings in the order in
which a row has them first. -/
structure ListsBelow (p : Plan) (is : List Identifier) (id : String) (found : List Identifier) :
    Prop where
  nodup : found.Nodup
  mem_iff : ∀ t, t ∈ found ↔ t ∈ p.identifiers ∧ p.Descends t id
  before : ∀ a ∈ found, ∀ b ∈ found, p.Descends b a.id → [a, b].Sublist found
  siblings : ∀ a ∈ found, ∀ b ∈ found, a.parent = b.parent →
    (is.map (·.id)).idxOf a.id < (is.map (·.id)).idxOf b.id → [a, b].Sublist found

theorem Grounded.listsBelow {serial : Nat} {is : List Identifier} {id : String}
    (h : (ofList serial is).Grounded id) :
    (ofList serial is).ListsBelow is id ((ofList serial is).descendants id) where
  nodup := h.nodup_descendants
  mem_iff _ := h.mem_descendants
  before _ ha _ hb := h.before ha hb
  siblings _ ha _ hb hab hlt :=
    h.siblings ha hab (sublist_ofList (h.mem_descendants.1 ha).1 (h.mem_descendants.1 hb).1 hlt)

/-- A plan made of any row of identifiers, if its parent links run in no circle: each id stays
with the identifier that came first, each lookup of a child succeeds, and the walk below an id
lists its descendants in pre-order. -/
theorem walk_of_adds (serial : Nat) (is : List Identifier) (hp : (ofList serial is).Acyclic)
    (id : String) :
    let p := ofList serial is
    let l := Ledger.ofList is
    l.Keeps p ∧ (∀ id, p.get? id = is.find? (·.id == id)) ∧
      (∀ i, (p.get? i.id).isSome → p.add i = p ∧ l.add i = l) ∧
      (∀ id, l.children? id = some (p.children id)) ∧
      (∃ n, l.turns? n (.start (p.children id)) = some ⟨[], p.descendants id⟩) ∧
      p.descendants id = ((p.children id).flatMap fun c => c :: p.descendants c.id) ∧
      p.ListsBelow is id (p.descendants id) := by
  intro p l
  have hkeeps : l.Keeps p := Ledger.keeps_ofList serial is
  have hid : p.Grounded id := hp.grounded id
  refine ⟨hkeeps, get?_ofList serial is, fun i hi => ?_, hkeeps.children?_eq,
    ⟨_, hkeeps.turns?_start hid⟩, hid.preorder, hid.listsBelow⟩
  rw [← hkeeps.get?] at hi
  exact ⟨add_of_mem (hkeeps.isSome_iff.1 hi), Ledger.add_of_isSome hi⟩

/-- Children that come before their parents, an id that comes again with other data, and one whose
parent never comes. -/
def unordered : List Identifier :=
  [⟨"e/c/t", "t", some "e/c", .test⟩, ⟨"e/u", "u", some "e", .test⟩, ⟨"e/c", "c", some "e", .container⟩,
    ⟨"e/c/t", "again", some "e", .test⟩, ⟨"gone/t", "t", some "gone", .test⟩,
    ⟨"e", "e", none, .engine⟩]

theorem walk_of_adds_unordered :
    (ofList 0 unordered).Acyclic ∧
      ((ofList 0 unordered).descendants "e").map (·.name) = ["u", "c", "t"] ∧
      (ofList 0 unordered).ListsBelow unordered "e" ((ofList 0 unordered).descendants "e") ∧
      (ofList 0 unordered).ListsBelow unordered "gone" ((ofList 0 unordered).descendants "gone") := by
  have hp : (ofList 0 unordered).Acyclic := acyclic_of_rank (fun i => i.id.length) (by decide)
  obtain ⟨-, -, -, -, -, -, hengine⟩ := walk_of_adds 0 unordered hp "e"
  obtain ⟨-, -, -, -, -, -, hgone⟩ := walk_of_adds 0 unordered hp "gone"
  exact ⟨hp, by decide, hengine, hgone⟩

/-- Whatever row a plan is made of, the walk below a root takes no identifier twice and ends in
fewer turns than the plan has identifiers, and so does the way from each descendant up to the
root. -/
theorem walk_of_root_ends (serial : Nat) (is : List Identifier) {root : Identifier}
    (hroot : root ∈ (ofList serial is).roots) :
    let p := ofList serial is
    let l := Ledger.ofList is
    l.Keeps p ∧ l.children? root.id = some (p.children root.id) ∧
      (∃ n < p.size, l.turns? n (.start (p.children root.id)) =
        some ⟨[], p.descendants root.id⟩) ∧
      (p.descendants root.id).Nodup ∧
      ∀ d ∈ p.descendants root.id, p.Line d (p.ancestors d) ∧
        (p.ancestors d).getLast? = some root ∧ (p.ancestors d).length < p.size := by
  intro p l
  obtain ⟨hheld, htop⟩ := List.mem_filter.1 hroot
  have hkeeps : l.Keeps p := Ledger.keeps_ofList serial is
  have hnone : p.parent? root = none := parent?_of_isRoot p htop
  have h : p.Climbs root [] := ⟨hheld, .top hnone⟩
  refine ⟨hkeeps, hkeeps.children?_eq _, ⟨_, h.length_descendants_lt, hkeeps.turns?_start h.grounded⟩,
    h.nodup_descendants, fun d hd => ?_⟩
  obtain ⟨path, hd'⟩ := h.grounded.climbs hd
  rw [hd'.ancestors_eq]
  exact ⟨hd'.line, hd'.line.getLast?_eq (hd'.line.mem_iff.2 (h.mem_descendants.1 hd).2) hnone,
    hd'.length_lt⟩

/-- Two identifiers that are each other's parent, with a test below them; one that is its own
parent; and an engine with a test. -/
def circular : List Identifier :=
  [⟨"a", "a", some "b", .container⟩, ⟨"b", "b", some "a", .container⟩, ⟨"t", "t", some "a", .test⟩,
    ⟨"s", "s", some "s", .container⟩, ⟨"e/t", "t", some "e", .test⟩, ⟨"e", "e", none, .engine⟩]

theorem walk_of_root_ends_circular :
    ⟨"e", "e", none, .engine⟩ ∈ (ofList 0 circular).roots ∧
      ∃ n < 6, (Ledger.ofList circular).turns? n
        (.start ((ofList 0 circular).children "e")) = some ⟨[], (ofList 0 circular).descendants "e"⟩ := by
  have hroot : ⟨"e", "e", none, .engine⟩ ∈ (ofList 0 circular).roots := by decide
  obtain ⟨-, -, hturns, -⟩ := walk_of_root_ends 0 circular hroot
  exact ⟨hroot, hturns⟩

end Plan

end TestRun
