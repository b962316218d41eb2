import TestRun.Proofs.Tree.Nodes
set_option autoImplicit false

/-!
# Calls on a tree

A log of calls on a tree, what it says of each id, and the invariant that ties the nodes of the
tree to the log: an id has ended as its first skip or finish says, and has a start if a call
started it or the run opened it. Every call keeps the invariant, so it holds after any log.
-/

namespace TestRun

open Time

structure Surroundings.Passed (s s' : Surroundings) : Prop where
  clock : s.clock.Later s'.clock
  disk_eq : s'.disk = s.disk
  host_eq : s'.host = s.host

@[simp] theorem Surroundings.screen_onWall (s : Surroundings) : s.onWall.screen = s.screen := by
  unfold onWall
  split <;> rfl

@[simp] theorem Surroundings.screen_offWall (s left : Surroundings) :
    (s.offWall left).screen = left.screen := by
  unfold offWall
  split <;> rfl

theorem Surroundings.neverFails_onWall {s : Surroundings} (h : s.clock.NeverFails) :
    s.onWall.clock.NeverFails := by
  unfold onWall
  split
  · exact Clock.listed_neverFails _ _
  · exact h

theorem Surroundings.neverFails_onWall_of_isSome {s : Surroundings} (h : s.wall?.isSome = true) :
    s.onWall.clock.NeverFails := by
  obtain ⟨w, hw⟩ := Option.isSome_iff_exists.1 h
  unfold onWall
  rw [hw]
  exact Clock.listed_neverFails _ _

/-- What a listener leaves that goes by the clock of the machine. -/
structure Surroundings.Beside (s s' : Surroundings) : Prop extends s.Passed s' where
  wall : s.wall?.isSome = true → s'.wall?.isSome = true ∧ s'.clock = s.clock

theorem Surroundings.Beside.refl (s : Surroundings) : s.Beside s :=
  ⟨⟨.inl rfl, rfl, rfl⟩, fun h => ⟨h, rfl⟩⟩

theorem Surroundings.Passed.beside {s left : Surroundings} (h : s.onWall.Passed left) :
    s.Beside (s.offWall left) := by
  obtain ⟨hclock, hdisk, hhost⟩ := h
  unfold onWall at hclock hdisk hhost
  unfold Surroundings.offWall
  cases hmachine : s.wall? with
  | none =>
    rw [hmachine] at hclock hdisk hhost
    exact ⟨⟨hclock, hdisk, hhost⟩, fun hsome => nomatch hmachine ▸ hsome⟩
  | some w =>
    rw [hmachine] at hdisk hhost
    exact ⟨⟨.inl rfl, hdisk, hhost⟩, fun _ => ⟨rfl, rfl⟩⟩

namespace Tree

inductive Call
  | register (i : Identifier)
  | started (i : Identifier)
  | skipped (i : Identifier) (reason? : Option String)
  | finished (i : Identifier) (result : ExecutionResult)

namespace Call

def identifier : Call → Identifier
  | register i | started i | skipped i _ | finished i _ => i

def ending? : Call → Option Ending
  | register _ | started _ => none
  | skipped _ reason? => some (.skipped (reason?.getD ""))
  | finished _ result => some (.finished result)

def isStart : Call → Bool
  | started _ => true
  | _ => false

def act : Call → Hearing Tree Unit
  | register i => hearRegistered i
  | started i => do let _ ← hearStarted i
  | skipped i reason? => do let _ ← hearSkipped i reason?
  | finished i result => do let _ ← hearFinished i result

def Moves (c : Call) (now : Instant) (t t' : Tree) : Prop :=
  match c with
  | register i => t' = t.register i
  | started i => t.Puts i ((t.nodeOf i).begun now) t'
  | skipped i reason? => t.Puts i ((t.nodeOf i).closed (.skipped (reason?.getD "")) now) t'
  | finished i result => t.Puts i ((t.nodeOf i).closed (.finished result) now) t'

end Call

/-- How an id ended by a log: its first skip or finish. -/
def endIn (log : List Call) (id : String) : Option Ending :=
  log.findSome? fun c => if c.identifier.id = id then c.ending? else none

def startsIn (log : List Call) (id : String) : Bool :=
  log.any fun c => c.identifier.id == id && c.isStart

def planAfter (p : Plan) (log : List Call) : Plan := log.foldl (fun p c => p.add c.identifier) p

/-- Whether an id starts with the run itself. -/
def opensAt (p : Plan) (startedAt? : Option Instant) (id : String) : Bool :=
  startedAt?.isSome && p.roots.any (·.id == id)

structure Reflects (p : Plan) (startedAt? : Option Instant) (log : List Call) (t : Tree) :
    Prop where
  plan_eq : t.plan = planAfter p log
  coherent : t.Coherent
  ending_eq : ∀ id, (t.node? id).bind (·.ending) = endIn log id
  start_eq : ∀ id,
    ((t.node? id).bind (·.start)).isSome = (opensAt p startedAt? id || startsIn log id)

theorem endIn_cons (c : Call) (log : List Call) (id : String) :
    endIn (c :: log) id = (if c.identifier.id = id then c.ending? else none).or (endIn log id) := by
  unfold endIn
  rw [List.findSome?_cons]
  cases if c.identifier.id = id then c.ending? else none <;> rfl

theorem endIn_append (log later : List Call) (id : String) :
    endIn (log ++ later) id = (endIn log id).or (endIn later id) := List.findSome?_append

theorem endIn_concat (log : List Call) (c : Call) (id : String) :
    endIn (log ++ [c]) id =
      (endIn log id).or (if c.identifier.id = id then c.ending? else none) := by
  rw [endIn_append]
  congr 1
  exact List.findSome?_singleton

theorem startsIn_concat (log : List Call) (c : Call) (id : String) :
    startsIn (log ++ [c]) id = (startsIn log id || (c.identifier.id == id && c.isStart)) := by
  simp [startsIn]

theorem planAfter_concat (p : Plan) (log : List Call) (c : Call) :
    planAfter p (log ++ [c]) = (planAfter p log).add c.identifier := by
  simp [planAfter]

theorem identifiers_subset_planAfter (p : Plan) (log : List Call) :
    p.identifiers ⊆ (planAfter p log).identifiers := by
  unfold planAfter
  induction log generalizing p with
  | nil => exact List.Subset.refl _
  | cons c log ih => exact List.Subset.trans (p.identifiers_subset_add c.identifier) (ih _)

theorem planAfter_of_held {p : Plan} {log : List Call}
    (h : ∀ c ∈ log, c.identifier ∈ p.identifiers) : planAfter p log = p := by
  unfold planAfter
  induction log with
  | nil => rfl
  | cons c log ih =>
    have hc : c.identifier.id ∈ p.ids := List.mem_map_of_mem (h c List.mem_cons_self)
    rw [List.foldl_cons, Plan.add_of_mem hc]
    exact ih fun d hd => h d (List.mem_cons_of_mem c hd)

theorem planAfter_append (p : Plan) (log later : List Call) :
    planAfter p (log ++ later) = planAfter (planAfter p log) later :=
  List.foldl_append

theorem begin_reflects (p : Plan) (startedAt? : Option Instant) :
    Reflects p startedAt? [] (begin p startedAt?) := by
  refine ⟨rfl, begin_coherent p startedAt?, fun id => ?_, fun id => ?_⟩
  · rcases node?_begin p startedAt? id with ⟨i, _, _, hget⟩ | ⟨_, hget⟩ <;> rw [hget] <;> rfl
  · rcases node?_begin p startedAt? id with ⟨i, hi, hid, hget⟩ | ⟨hne, hget⟩ <;> rw [hget]
    · have hany : p.roots.any (·.id == id) = true :=
        List.any_eq_true.2 ⟨i, hi, by simpa using hid⟩
      simp [opensAt, startsIn, hany, Node.fresh]
    · have hany : p.roots.any (·.id == id) = false := by
        rw [List.any_eq_false]
        exact fun i hi => by simpa using hne i hi
      simp [opensAt, startsIn, hany]

section Step

variable {p : Plan} {startedAt? : Option Instant} {log : List Call} {t t' : Tree}

theorem Reflects.register (h : Reflects p startedAt? log t) (i : Identifier) :
    Reflects p startedAt? (log ++ [.register i]) (t.register i) := by
  refine ⟨?_, h.coherent.register i, fun id => ?_, fun id => ?_⟩
  · rw [plan_register, h.plan_eq, planAfter_concat]
    rfl
  · rw [node?_register, h.ending_eq, endIn_concat]
    simp [Call.ending?]
  · rw [node?_register, h.start_eq, startsIn_concat]
    simp [Call.isStart]

theorem Reflects.started (h : Reflects p startedAt? log t) {i : Identifier} {now : Instant}
    (ht : t.Puts i ((t.nodeOf i).begun now) t') :
    Reflects p startedAt? (log ++ [.started i]) t' := by
  refine ⟨?_, ht.coherent, fun id => ?_, fun id => ?_⟩
  · rw [ht.plan_eq, h.plan_eq, planAfter_concat]
    rfl
  · rw [ht.node?_eq, endIn_concat, ← h.ending_eq]
    by_cases hid : id = i.id
    · subst hid
      simp [Call.identifier, Call.ending?, Node.begun, ending_nodeOf]
    · simp [Call.ending?, hid]
  · rw [ht.node?_eq, startsIn_concat, ← Bool.or_assoc, ← h.start_eq]
    by_cases hid : id = i.id
    · subst hid
      simp [Call.identifier, Call.isStart, Node.begun]
    · have hne : (i.id == id) = false := by simpa using Ne.symm hid
      simp [Call.identifier, hid, hne]

/-- The end of a node counts only if no earlier call ended it. -/
theorem Reflects.ended (h : Reflects p startedAt? log t) {c : Call} {e : Ending} {now : Instant}
    (hc : c.ending? = some e) (hs : c.isStart = false)
    (ht : t.Puts c.identifier ((t.nodeOf c.identifier).closed e now) t') :
    Reflects p startedAt? (log ++ [c]) t' := by
  refine ⟨?_, ht.coherent, fun id => ?_, fun id => ?_⟩
  · rw [ht.plan_eq, h.plan_eq, planAfter_concat]
  · rw [ht.node?_eq, endIn_concat, ← h.ending_eq]
    by_cases hid : id = c.identifier.id
    · subst hid
      rw [if_pos rfl, if_pos rfl, ← ending_nodeOf, hc, Option.bind_some]
      cases he : (t.nodeOf c.identifier).ending with
      | some ending => rw [Node.closed_of_ending he, he]; rfl
      | none => rw [Node.closed_of_none he]; rfl
    · rw [if_neg hid, if_neg (Ne.symm hid), Option.or_none]
  · rw [ht.node?_eq, startsIn_concat, ← Bool.or_assoc, ← h.start_eq, hs, Bool.and_false,
      Bool.or_false]
    by_cases hid : id = c.identifier.id
    · subst hid
      rw [if_pos rfl, ← start_nodeOf, Option.bind_some]
      cases he : (t.nodeOf c.identifier).ending with
      | some ending => rw [Node.closed_of_ending he]
      | none => rw [Node.closed_of_none he]
    · rw [if_neg hid]

theorem Reflects.step (h : Reflects p startedAt? log t) {c : Call} {now : Instant}
    (ht : c.Moves now t t') : Reflects p startedAt? (log ++ [c]) t' := by
  cases c with
  | register i => cases ht; exact h.register i
  | started i => exact h.started ht
  | skipped i reason? => exact h.ended (c := .skipped i reason?) rfl rfl ht
  | finished i result => exact h.ended (c := .finished i result) rfl rfl ht

end Step

theorem perform_act {t : Tree} (ht : t.Coherent) {s : Surroundings} (hs : s.clock.CanRead 1)
    (c : Call) : ∃ now t' s', c.act.perform (t, s) = (.ok (), (t', s')) ∧ c.Moves now t t' ∧
      s.Passed s' := by
  obtain ⟨now, hnow⟩ := hs 0 Nat.one_pos
  have hread : s.clock.read = (.ok now, s.clock.read.2) := Prod.ext hnow rfl
  have hend : ∀ i, s.Passed (t.surroundingsAfterEnd i s.clock.read.2 s) := by
    intro i
    unfold surroundingsAfterEnd
    split
    · exact ⟨.inl rfl, rfl, rfl⟩
    · exact ⟨.inr rfl, rfl, rfl⟩
  cases c with
  | register i => exact ⟨now, _, s, rfl, rfl, .inl rfl, rfl, rfl⟩
  | started i =>
    obtain ⟨t', hact, hputs⟩ := perform_hearStarted ht hread i
    refine ⟨now, t', _, Act.perform_bind_ok hact _, hputs, ?_, rfl, rfl⟩
    dsimp only
    split
    · exact .inl rfl
    · exact .inr rfl
  | skipped i reason? =>
    obtain ⟨t', hact, hputs⟩ := perform_hearEnded ht hread i (.skipped (reason?.getD ""))
    exact ⟨now, t', _, Act.perform_bind_ok hact _, hputs, hend i⟩
  | finished i result =>
    obtain ⟨t', hact, hputs⟩ := perform_hearEnded ht hread i (.finished result)
    exact ⟨now, t', _, Act.perform_bind_ok hact _, hputs, hend i⟩

theorem reply_of_hear {op : Tree → Clock → Reply} {t t' : Tree} {s s' : Surroundings} {n : Node}
    (h : (hear op).perform (t, s) = (.ok n, (t', s'))) :
    (op t s.clock).answer = .ok n ∧ t' = (op t s.clock).tree := by
  rw [perform_hear] at h
  cases hanswer : (op t s.clock).answer <;> rw [hanswer] at h <;> cases h
  exact ⟨rfl, rfl⟩

theorem reply_of_hearEnded {i : Identifier} {e : Ending} {t t' : Tree} {s s' : Surroundings}
    {n : Node} (h : (hearEnded i e).perform (t, s) = (.ok n, (t', s'))) :
    (t.ended i e s.clock).answer = .ok n ∧ t' = (t.ended i e s.clock).tree := by
  unfold hearEnded at h
  rw [Hearing.perform_state_bind] at h
  split at h
  · rw [Act.perform_bind_ok (Hearing.perform_outside_eq (Surroundings.perform_debug _ _))] at h
    exact reply_of_hear h
  · exact reply_of_hear h

theorem moves_of_act {t t' : Tree} (ht : t.Coherent) {s s' : Surroundings} {c : Call}
    (h : c.act.perform (t, s) = (.ok (), (t', s'))) : ∃ now, c.Moves now t t' := by
  cases c with
  | register i =>
    cases h
    exact ⟨.epoch, rfl⟩
  | started i =>
    obtain ⟨n, q, hact, hdone⟩ := Act.perform_bind_eq_ok h
    cases hdone
    obtain ⟨hanswer, rfl⟩ := reply_of_hear hact
    exact (ht.started_answers i s.clock).puts_next hanswer
  | skipped i reason? =>
    obtain ⟨n, q, hact, hdone⟩ := Act.perform_bind_eq_ok h
    cases hdone
    obtain ⟨hanswer, rfl⟩ := reply_of_hearEnded hact
    exact (ht.ended_answers i _ s.clock).puts_next hanswer
  | finished i result =>
    obtain ⟨n, q, hact, hdone⟩ := Act.perform_bind_eq_ok h
    cases hdone
    obtain ⟨hanswer, rfl⟩ := reply_of_hearEnded hact
    exact (ht.ended_answers i _ s.clock).puts_next hanswer

def callAll (log : List Call) : Hearing Tree Unit := log.forM Call.act

theorem perform_callAll {p : Plan} {startedAt? : Option Instant} {log : List Call} {t : Tree}
    (ht : Reflects p startedAt? log t) {s : Surroundings} {calls : List Call}
    (hs : s.clock.CanRead calls.length) :
    ∃ t' s', (callAll calls).perform (t, s) = (.ok (), (t', s')) ∧
      Reflects p startedAt? (log ++ calls) t' := by
  induction calls generalizing log t s with
  | nil => exact ⟨t, s, rfl, by simpa using ht⟩
  | cons c calls ih =>
    have hfirst : s.clock.CanRead 1 := fun k hk => hs k (by rw [List.length_cons]; omega)
    obtain ⟨now, t₁, s₁, hact, hmoves, hpassed⟩ := perform_act ht.coherent hfirst c
    obtain ⟨t₂, s₂, hrest, ht₂⟩ := ih (ht.step hmoves) (hpassed.clock.canRead hs)
    refine ⟨t₂, s₂, ?_, by simpa using ht₂⟩
    rw [callAll, Act.perform_forM_cons, Act.perform_bind_ok hact]
    exact hrest

namespace Call

def IsEvent (c : Call) : Prop := ∀ i, c ≠ register i

def next (c : Call) (n : Node) (now : Instant) : Node :=
  match c with
  | register _ => n
  | started _ => n.begun now
  | skipped _ reason? => n.closed (.skipped (reason?.getD "")) now
  | finished _ result => n.closed (.finished result) now

def isDone (c : Call) (n : Node) : Bool :=
  match c with
  | register _ => true
  | started _ => n.start.isSome
  | skipped _ _ | finished _ _ => n.ending.isSome

theorem isDone_of_ending {c : Call} {e : Ending} (h : c.ending? = some e) (n : Node) :
    c.isDone n = n.ending.isSome := by
  cases c with
  | register i | started i => cases h
  | skipped i reason? | finished i result => rfl

/-- What a call has made of the node of its identifier by the time it reads the clock. -/
def half (c : Call) (n : Node) : Node :=
  match c.ending? with
  | some e => { n with ending := some e }
  | none => n

@[simp] theorem start_half (c : Call) (n : Node) : (c.half n).start = n.start := by
  unfold half
  split <;> rfl

@[simp] theorem finish_half (c : Call) (n : Node) : (c.half n).finish = n.finish := by
  unfold half
  split <;> rfl

theorem next_of_ending {c : Call} {e : Ending} (h : c.ending? = some e) (n : Node) (now : Instant) :
    c.next n now = n.closed e now := by
  cases c with
  | register i | started i => cases h
  | skipped i reason? | finished i result =>
    cases h
    rfl

theorem IsEvent.started_or_ending {c : Call} (hc : c.IsEvent) :
    c = .started c.identifier ∨ ∃ e, c.ending? = some e := by
  cases c with
  | register i => exact absurd rfl (hc i)
  | started i => exact .inl rfl
  | skipped i reason? | finished i result => exact .inr ⟨_, rfl⟩

theorem IsEvent.moves_iff {c : Call} (hc : c.IsEvent) {now : Instant} {t t' : Tree} :
    c.Moves now t t' ↔ t.Puts c.identifier (c.next (t.nodeOf c.identifier) now) t' := by
  cases c with
  | register i => exact absurd rfl (hc i)
  | started i | skipped i reason? | finished i result => exact Iff.rfl

end Call

theorem perform_act_of_hear {op : Hearing Tree Node} {t t' : Tree} {s s' : Surroundings}
    {answer : Except Fault Node} (h : op.perform (t, s) = (answer, (t', s'))) :
    (do let _ ← op : Hearing Tree Unit).perform (t, s) = (answer.map fun _ => (), (t', s')) := by
  change (op >>= fun _ => pure ()).perform (t, s) = _
  rw [Act.perform_bind, h]
  cases answer <;> rfl

theorem Coherent.act_answers {t : Tree} (ht : t.Coherent) {c : Call} (hc : c.IsEvent)
    (s : Surroundings) : ∃ r s',
      c.act.perform (t, s) = ((r.answer.mapError .time).map fun _ => (), (r.tree, s')) ∧
      s.Quiet s' ∧ s'.clock = r.clock ∧
      t.Answers c.identifier s.clock (c.next (t.nodeOf c.identifier))
        (c.half (t.nodeOf c.identifier)) r := by
  cases c with
  | register i => exact absurd rfl (hc i)
  | started i =>
    exact ⟨_, _, perform_act_of_hear (perform_hear _ t s), .withClock s _, rfl,
      ht.started_answers i s.clock⟩
  | skipped i reason? =>
    obtain ⟨s', hact, hquiet, hclock⟩ :=
      perform_hearEnded_reply t i (.skipped (reason?.getD "")) s
    exact ⟨_, s', perform_act_of_hear hact, hquiet, hclock, ht.ended_answers i _ s.clock⟩
  | finished i result =>
    obtain ⟨s', hact, hquiet, hclock⟩ := perform_hearEnded_reply t i (.finished result) s
    exact ⟨_, s', perform_act_of_hear hact, hquiet, hclock, ht.ended_answers i _ s.clock⟩

end Tree

end TestRun
