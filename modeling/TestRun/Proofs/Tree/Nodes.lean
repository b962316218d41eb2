import TestRun.Proofs.Act
import TestRun.Proofs.Plan.Ancestry
import TestRun.Proofs.Time.Reliable
import TestRun.Tree.Verdict
set_option autoImplicit false

namespace TestRun

open Time

namespace Node

def begun (n : Node) (now : Instant) : Node := { n with start := n.start.or (some now) }

def closed (n : Node) (e : Ending) (now : Instant) : Node :=
  if n.ending.isSome then n else { n with ending := some e, finish := some now }

theorem begun_of_start {n : Node} {start : Instant} (h : n.start = some start) (now : Instant) :
    n.begun now = n := by
  cases n
  cases h
  rfl

theorem begun_of_none {n : Node} (h : n.start = none) (now : Instant) :
    n.begun now = { n with start := some now } := by
  simp [begun, h]

theorem closed_of_ending {n : Node} {ending : Ending} (h : n.ending = some ending) (e : Ending)
    (now : Instant) : n.closed e now = n := by
  simp [closed, h]

theorem closed_of_none {n : Node} (h : n.ending = none) (e : Ending) (now : Instant) :
    n.closed e now = { n with ending := some e, finish := some now } := by
  simp [closed, h]

theorem isSome_ending_closed (n : Node) (e : Ending) (now : Instant) :
    (n.closed e now).ending.isSome = true := by
  cases he : n.ending with
  | some ending => simp [closed_of_ending he, he]
  | none => simp [closed_of_none he]

/-- The instants of the node have the property. -/
structure Dated (P : Instant → Prop) (n : Node) : Prop where
  start : ∀ now, n.start = some now → P now
  finish : ∀ now, n.finish = some now → P now

section Dated

variable {P : Instant → Prop} {n : Node} {now : Instant}

theorem fresh_dated (i : Identifier) {start : Option Instant} (h : ∀ now, start = some now → P now) :
    (fresh i start).Dated P :=
  ⟨h, fun _ hnow => nomatch hnow⟩

theorem Dated.begun (h : n.Dated P) (hnow : P now) : (n.begun now).Dated P := by
  refine ⟨fun at' hat => ?_, h.finish⟩
  cases hs : n.start with
  | some start =>
    rw [begun_of_start hs] at hat
    exact h.start at' hat
  | none =>
    rw [begun_of_none hs] at hat
    cases hat
    exact hnow

theorem Dated.closed (h : n.Dated P) (e : Ending) (hnow : P now) : (n.closed e now).Dated P := by
  cases he : n.ending with
  | some ending =>
    rw [closed_of_ending he]
    exact h
  | none =>
    rw [closed_of_none he]
    refine ⟨h.start, fun at' hat => ?_⟩
    cases hat
    exact hnow

end Dated

end Node

namespace Tree

structure Coherent (t : Tree) : Prop where
  keyed : ∀ {id n}, t.node? id = some n → n.identifier.id = id
  held : ∀ {id n}, t.node? id = some n → id ∈ t.plan.ids

/-- The tree `t'` is `t` with the node `n` for the identifier `i`. -/
structure Puts (t : Tree) (i : Identifier) (n : Node) (t' : Tree) : Prop where
  plan_eq : t'.plan = t.plan.add i
  node?_eq : ∀ id, t'.node? id = if id = i.id then some n else t.node? id
  coherent : t'.Coherent

@[simp] theorem node?_setNode (t : Tree) (n : Node) (id : String) :
    (t.setNode n).node? id = if id = n.identifier.id then some n else t.node? id :=
  Table.get?_set t.nodes n.identifier.id id n

@[simp] theorem plan_setNode (t : Tree) (n : Node) : (t.setNode n).plan = t.plan := rfl

@[simp] theorem node?_register (t : Tree) (i : Identifier) (id : String) :
    (t.register i).node? id = t.node? id := rfl

@[simp] theorem plan_register (t : Tree) (i : Identifier) : (t.register i).plan = t.plan.add i := rfl

theorem node?_touch (t : Tree) (i : Identifier) (id : String) :
    (t.touch i).node? id = if id = i.id then some (t.nodeOf i) else t.node? id := by
  unfold touch nodeOf
  cases h : t.node? i.id with
  | some n =>
    by_cases hid : id = i.id
    · simp [hid, h]
    · simp [hid]
  | none => simp [Node.fresh]

theorem Coherent.plan_touch {t : Tree} (ht : t.Coherent) (i : Identifier) :
    (t.touch i).plan = t.plan.add i := by
  unfold touch
  cases h : t.node? i.id with
  | some n => simp [Plan.add_of_mem (ht.held h)]
  | none => simp

theorem Coherent.nodeOf_id {t : Tree} (ht : t.Coherent) (i : Identifier) :
    (t.nodeOf i).identifier.id = i.id := by
  unfold nodeOf
  cases h : t.node? i.id with
  | some n => exact ht.keyed h
  | none => rfl

theorem ending_nodeOf (t : Tree) (i : Identifier) :
    (t.nodeOf i).ending = (t.node? i.id).bind (·.ending) := by
  unfold nodeOf
  cases t.node? i.id <;> rfl

theorem start_nodeOf (t : Tree) (i : Identifier) :
    (t.nodeOf i).start = (t.node? i.id).bind (·.start) := by
  unfold nodeOf
  cases t.node? i.id <;> rfl

theorem mem_ids_add {p : Plan} {i : Identifier} {id : String} (h : id = i.id ∨ id ∈ p.ids) :
    id ∈ (p.add i).ids := by
  by_cases hi : i.id ∈ p.ids
  · rw [Plan.add_of_mem hi]
    rcases h with rfl | h
    · exact hi
    · exact h
  · unfold Plan.ids
    rw [Plan.identifiers_add hi, List.map_append, List.mem_append]
    rcases h with rfl | h
    · exact .inr (by simp)
    · exact .inl h

theorem Coherent.register {t : Tree} (ht : t.Coherent) (i : Identifier) :
    (t.register i).Coherent :=
  ⟨fun h => ht.keyed h, fun h => mem_ids_add (.inr (ht.held h))⟩

theorem Coherent.setNode {t : Tree} (ht : t.Coherent) {n : Node}
    (hn : n.identifier.id ∈ t.plan.ids) : (t.setNode n).Coherent := by
  constructor <;> intro id m h <;> rw [node?_setNode] at h <;> split at h
  · cases h
    exact (‹id = _›).symm
  · exact ht.keyed h
  · subst id
    exact hn
  · exact ht.held h

theorem Coherent.touch {t : Tree} (ht : t.Coherent) (i : Identifier) : (t.touch i).Coherent := by
  unfold Tree.touch
  split
  · exact ht
  · exact (ht.register i).setNode (mem_ids_add (.inl rfl))

theorem Coherent.setNode_touch {t : Tree} (ht : t.Coherent) {i : Identifier} {n : Node}
    (hn : n.identifier.id = i.id) : ((t.touch i).setNode n).Coherent := by
  apply (ht.touch i).setNode
  rw [ht.plan_touch, hn]
  exact mem_ids_add (.inl rfl)

theorem get?_foldl_set (f : Identifier → Node) (is : List Identifier) (table : Table String Node)
    (id : String) :
    (∃ i ∈ is, i.id = id ∧
      (is.foldl (fun t i => t.set i.id (f i)) table).get? id = some (f i)) ∨
    ((∀ i ∈ is, i.id ≠ id) ∧
      (is.foldl (fun t i => t.set i.id (f i)) table).get? id = table.get? id) := by
  induction is generalizing table with
  | nil => exact .inr ⟨by simp, rfl⟩
  | cons first rest ih =>
    rw [List.foldl_cons]
    rcases ih (table.set first.id (f first)) with ⟨i, hi, hid, hget⟩ | ⟨hne, hget⟩
    · exact .inl ⟨i, List.mem_cons_of_mem _ hi, hid, hget⟩
    · rw [hget, Table.get?_set]
      by_cases h : id = first.id
      · exact .inl ⟨first, List.mem_cons_self, h.symm, by rw [if_pos h]⟩
      · refine .inr ⟨?_, by rw [if_neg h]⟩
        intro i hi
        rcases List.mem_cons.1 hi with rfl | hi
        · exact Ne.symm h
        · exact hne i hi

theorem node?_begin (p : Plan) (startedAt? : Option Instant) (id : String) :
    (∃ i ∈ p.roots, i.id = id ∧ (begin p startedAt?).node? id = some (.fresh i startedAt?)) ∨
    ((∀ i ∈ p.roots, i.id ≠ id) ∧ (begin p startedAt?).node? id = none) :=
  get?_foldl_set (fun i => .fresh i startedAt?) p.roots .empty id

theorem begin_coherent (p : Plan) (startedAt? : Option Instant) :
    (begin p startedAt?).Coherent := by
  constructor <;> intro id n h <;>
    rcases node?_begin p startedAt? id with ⟨i, hi, hid, hget⟩ | ⟨-, hget⟩ <;> rw [hget] at h <;>
    cases h
  · exact hid
  · exact Plan.mem_ids.2 ⟨i, (List.mem_filter.1 hi).1, hid⟩

theorem Coherent.puts_touch {t : Tree} (ht : t.Coherent) (i : Identifier) :
    t.Puts i (t.nodeOf i) (t.touch i) :=
  ⟨ht.plan_touch i, node?_touch t i, ht.touch i⟩

theorem Coherent.puts_setNode {t : Tree} (ht : t.Coherent) {i : Identifier} {n : Node}
    (hn : n.identifier.id = i.id) : t.Puts i n ((t.touch i).setNode n) := by
  refine ⟨ht.plan_touch i, fun id => ?_, ht.setNode_touch hn⟩
  rw [node?_setNode, node?_touch, hn]
  split <;> rfl

theorem perform_hear (op : Tree → Clock → Reply) (t : Tree) (s : Surroundings) :
    (hear op).perform (t, s) =
      ((op t s.clock).answer.mapError .time, ((op t s.clock).tree,
        { s with clock := (op t s.clock).clock })) := by
  unfold hear
  simp only [Act.perform_get_bind, Act.perform_set_bind]
  cases (op t s.clock).answer <;> rfl

theorem isEnded_eq (t : Tree) (i : Identifier) :
    t.isEnded i.id = (t.nodeOf i).ending.isSome := by
  rw [isEnded, ending_nodeOf]

theorem perform_hearStarted {t : Tree} (ht : t.Coherent) {s : Surroundings} {now : Instant}
    {c : Clock} (hread : s.clock.read = (.ok now, c)) (i : Identifier) :
    ∃ t', (hearStarted i).perform (t, s) = (.ok ((t.nodeOf i).begun now), (t',
        { s with clock := if (t.nodeOf i).start.isSome then s.clock else c })) ∧
      t.Puts i ((t.nodeOf i).begun now) t' := by
  unfold hearStarted
  rw [perform_hear]
  cases h : (t.nodeOf i).start with
  | some start =>
    rw [Node.begun_of_start h]
    simp only [Tree.started, h]
    exact ⟨t.touch i, rfl, ht.puts_touch i⟩
  | none =>
    rw [Node.begun_of_none h]
    simp only [Tree.started, h, hread]
    exact ⟨_, rfl, ht.puts_setNode (ht.nodeOf_id i)⟩

def surroundingsAfterEnd (t : Tree) (i : Identifier) (c : Clock) (s : Surroundings) :
    Surroundings :=
  if (t.nodeOf i).ending.isSome then
    { s with log := s.log.push ⟨.debug, "Ignoring repeated terminal event for " ++ i.id⟩ }
  else { s with clock := c }

theorem perform_hearEnded {t : Tree} (ht : t.Coherent) {s : Surroundings} {now : Instant}
    {c : Clock} (hread : s.clock.read = (.ok now, c)) (i : Identifier) (e : Ending) :
    ∃ t', (hearEnded i e).perform (t, s) =
        (.ok ((t.nodeOf i).closed e now), (t', t.surroundingsAfterEnd i c s)) ∧
      t.Puts i ((t.nodeOf i).closed e now) t' := by
  unfold hearEnded surroundingsAfterEnd
  rw [Hearing.perform_state_bind]
  simp only [isEnded_eq]
  cases h : (t.nodeOf i).ending with
  | some ending =>
    rw [Node.closed_of_ending h]
    refine ⟨t.touch i, ?_, ht.puts_touch i⟩
    rw [Option.isSome_some, if_pos rfl, if_pos rfl,
      Act.perform_bind_ok (Hearing.perform_outside_eq (Surroundings.perform_debug _ _)),
      perform_hear]
    simp only [Tree.ended, h]
    rfl
  | none =>
    rw [Node.closed_of_none h]
    refine ⟨_, ?_, ht.puts_setNode (ht.nodeOf_id i)⟩
    rw [Option.isSome_none, if_neg Bool.false_ne_true, if_neg Bool.false_ne_true, perform_hear]
    simp only [Tree.ended, h, hread]
    rfl

def Each (Q : Node → Prop) (t : Tree) : Prop := ∀ id n, t.node? id = some n → Q n

section Each

variable {Q : Node → Prop} {t t' : Tree} {i : Identifier} {n : Node}

theorem each_begin {startedAt? : Option Instant} (h : ∀ i, Q (.fresh i startedAt?)) (p : Plan) :
    (begin p startedAt?).Each Q := by
  intro id n hn
  rcases node?_begin p startedAt? id with ⟨i, _, _, hget⟩ | ⟨_, hget⟩ <;> rw [hget] at hn <;>
    cases hn
  exact h i

theorem Each.nodeOf (h : t.Each Q) (hfresh : Q (.fresh i none)) : Q (t.nodeOf i) := by
  unfold Tree.nodeOf
  cases hn : t.node? i.id with
  | some n => exact h i.id n hn
  | none => exact hfresh

theorem Each.puts (h : t.Each Q) (hn : Q n) (ht : t.Puts i n t') : t'.Each Q := by
  intro id m hm
  rw [ht.node?_eq] at hm
  split at hm
  · cases hm
    exact hn
  · exact h id m hm

end Each

/-- What comes of an event of an identifier: nothing, for its node has been there before; the next
node, at a reading of the clock; or half of it, where the clock is stuck. -/
inductive Answers (t : Tree) (i : Identifier) (c : Clock) (next : Instant → Node) (half : Node) :
    Reply → Prop
  | kept {t' : Tree} : (∀ now, next now = t.nodeOf i) → t.Puts i (t.nodeOf i) t' →
      Answers t i c next half ⟨t', c, .ok (t.nodeOf i)⟩
  | read {t' : Tree} {now : Instant} {later : Clock} : c.read = (.ok now, later) →
      t.Puts i (next now) t' → Answers t i c next half ⟨t', later, .ok (next now)⟩
  | stuck {t' : Tree} {e : TimeError} : c.Stuck → t.Puts i half t' →
      Answers t i c next half ⟨t', c, .error e⟩

theorem Coherent.started_answers {t : Tree} (ht : t.Coherent) (i : Identifier) (c : Clock) :
    t.Answers i c (t.nodeOf i).begun (t.nodeOf i) (t.started i c) := by
  cases h : (t.nodeOf i).start with
  | some start =>
    simp only [Tree.started, h]
    exact .kept (fun now => Node.begun_of_start h now) (ht.puts_touch i)
  | none =>
    simp only [Tree.started, h]
    rcases hread : c.read with ⟨e | now, later⟩
    · obtain ⟨rfl, hstuck⟩ := Clock.stuck_of_read hread
      exact .stuck hstuck (ht.puts_touch i)
    · dsimp only
      rw [← Node.begun_of_none h now]
      exact .read hread (ht.puts_setNode (ht.nodeOf_id i))

theorem Coherent.ended_answers {t : Tree} (ht : t.Coherent) (i : Identifier) (e : Ending)
    (c : Clock) :
    t.Answers i c ((t.nodeOf i).closed e) { t.nodeOf i with ending := some e } (t.ended i e c) := by
  cases h : (t.nodeOf i).ending with
  | some ending =>
    simp only [Tree.ended, h]
    exact .kept (fun now => Node.closed_of_ending h e now) (ht.puts_touch i)
  | none =>
    simp only [Tree.ended, h]
    rcases hread : c.read with ⟨f | now, later⟩
    · obtain ⟨rfl, hstuck⟩ := Clock.stuck_of_read hread
      exact .stuck hstuck (ht.puts_setNode (ht.nodeOf_id i))
    · have hid : ((t.nodeOf i).closed e now).identifier.id = i.id := by
        rw [Node.closed_of_none h]
        exact ht.nodeOf_id i
      dsimp only
      rw [← Node.closed_of_none h e now]
      exact .read hread (ht.puts_setNode hid)

section Answers

variable {t : Tree} {i : Identifier} {c : Clock} {next : Instant → Node} {half : Node} {r : Reply}

theorem Answers.exists_puts (h : t.Answers i c next half r) : ∃ n, t.Puts i n r.tree := by
  cases h with
  | kept _ hputs | read _ hputs | stuck _ hputs => exact ⟨_, hputs⟩

theorem Answers.puts_next (h : t.Answers i c next half r) {n : Node} (hr : r.answer = .ok n) :
    ∃ now, t.Puts i (next now) r.tree := by
  cases h with
  | kept hnext hputs => exact ⟨.epoch, hnext .epoch ▸ hputs⟩
  | read _ hputs => exact ⟨_, hputs⟩
  | stuck _ _ => cases hr

end Answers

/-- The tree `t'` may have more nodes than `t`, and its plan gains at most the identifier `i`. -/
structure Grows (t : Tree) (i : Identifier) (t' : Tree) : Prop where
  plan_eq : t'.plan = t.plan.add i
  coherent : t'.Coherent

theorem Puts.grows {t t' : Tree} {i : Identifier} {n : Node} (h : t.Puts i n t') : t.Grows i t' :=
  ⟨h.plan_eq, h.coherent⟩

theorem Answers.grows {t : Tree} {i : Identifier} {c : Clock} {next : Instant → Node} {half : Node}
    {r : Reply} (h : t.Answers i c next half r) : t.Grows i r.tree := by
  obtain ⟨_, hputs⟩ := h.exists_puts
  exact hputs.grows

theorem perform_hearEnded_reply (t : Tree) (i : Identifier) (e : Ending) (s : Surroundings) :
    ∃ s', (hearEnded i e).perform (t, s) = ((t.ended i e s.clock).answer.mapError .time,
      ((t.ended i e s.clock).tree, s')) ∧ s.Quiet s' ∧ s'.clock = (t.ended i e s.clock).clock := by
  unfold hearEnded
  rw [Hearing.perform_state_bind]
  split
  · rw [Act.perform_bind_ok (Hearing.perform_outside_eq (Surroundings.perform_debug _ _)),
      perform_hear]
    exact ⟨_, rfl, ⟨_, _, rfl⟩, rfl⟩
  · rw [perform_hear]
    exact ⟨_, rfl, .withClock s _, rfl⟩

theorem Coherent.hearStarted_grows {t : Tree} (ht : t.Coherent) (i : Identifier)
    (s : Surroundings) :
    ∃ answer t' s', (hearStarted i).perform (t, s) = (answer, (t', s')) ∧ t.Grows i t' ∧
      s.Quiet s' := by
  unfold hearStarted
  rw [perform_hear]
  exact ⟨_, _, _, rfl, (ht.started_answers i s.clock).grows, .withClock s _⟩

theorem Coherent.hearEnded_grows {t : Tree} (ht : t.Coherent) (i : Identifier) (e : Ending)
    (s : Surroundings) :
    ∃ answer t' s', (hearEnded i e).perform (t, s) = (answer, (t', s')) ∧ t.Grows i t' ∧
      s.Quiet s' := by
  obtain ⟨s', hact, hquiet, -⟩ := perform_hearEnded_reply t i e s
  exact ⟨_, _, s', hact, (ht.ended_answers i e s.clock).grows, hquiet⟩

end Tree

end TestRun
