import TestRun.Proofs.Time.Stepping
import TestRun.Proofs.Tree.Spans
set_option autoImplicit false

/-!
# Which reading an instant is

The clock is read once at the start of a run, and then once for each call that has something to do:
the first start of an id that did not start with the run, and its first end. So each instant in the
tree is the reading that the calls before it have left, and where the clock goes by steps, the time
of a node is the number of readings in it.
-/

namespace TestRun

open Time

namespace Tree

/-- Whether a call that follows a log leaves the clock alone. The roots of the plan start with the
run. -/
def isIdle (p : Plan) (log : List Call) : Call → Bool
  | .register _ => true
  | .started i => p.roots.any (·.id == i.id) || startsIn log i.id
  | .skipped i _ | .finished i _ => (endIn log i.id).isSome

def ticks (p : Plan) (log : List Call) : List Call → Nat
  | [] => 0
  | c :: rest => (if isIdle p log c then 0 else 1) + ticks p (log ++ [c]) rest

variable {p : Plan} {log : List Call} {t t' : Tree} {c : Call} {startedAt now : Instant}

theorem ticks_append (p : Plan) (log xs ys : List Call) :
    ticks p log (xs ++ ys) = ticks p log xs + ticks p (log ++ xs) ys := by
  induction xs generalizing log with
  | nil => rw [List.nil_append, List.append_nil, ticks, Nat.zero_add]
  | cons c xs ih => rw [List.cons_append, ticks, ticks, ih, List.append_assoc, Nat.add_assoc]; rfl

theorem ticks_concat (p : Plan) (log xs : List Call) (c : Call) :
    ticks p log (xs ++ [c]) = ticks p log xs + if isIdle p (log ++ xs) c then 0 else 1 := by
  rw [ticks_append, ticks, ticks, Nat.add_zero]

theorem ticks_concat_of_busy {xs : List Call} (h : isIdle p (log ++ xs) c = false) :
    ticks p log (xs ++ [c]) = ticks p log xs + 1 := by
  rw [ticks_concat, h, if_neg Bool.false_ne_true]

theorem isIdle_of_ending {e : Ending} (h : c.ending? = some e) :
    isIdle p log c = (endIn log c.identifier.id).isSome := by
  cases c with
  | register i | started i => cases h
  | skipped i reason? | finished i result => rfl

theorem Reflects.isDone_eq (h : Reflects p (some startedAt) log t) (c : Call) :
    c.isDone (t.nodeOf c.identifier) = isIdle p log c := by
  cases c with
  | register i => rfl
  | started i =>
    change (t.nodeOf i).start.isSome = _
    rw [start_nodeOf, h.start_eq]
    rfl
  | skipped i reason? | finished i result =>
    change (t.nodeOf i).ending.isSome = _
    rw [ending_nodeOf, h.ending_eq]
    rfl

def Call.starts (id : String) (c : Call) : Bool := c.identifier.id == id && c.isStart

def Call.ends (id : String) (c : Call) : Bool := c.identifier.id == id && c.ending?.isSome

theorem Call.starts_self (i : Identifier) : Call.starts i.id (.started i) = true :=
  Bool.and_eq_true_iff.2 ⟨beq_self_eq_true _, rfl⟩

theorem Call.ends_self {e : Ending} (h : c.ending? = some e) :
    Call.ends c.identifier.id c = true := by
  rw [ends, h, beq_self_eq_true]
  rfl

theorem Call.id_of_starts {id : String} (h : Call.starts id c = true) : c.identifier.id = id :=
  beq_iff_eq.1 (Bool.and_eq_true_iff.1 h).1

theorem Call.id_of_ends {id : String} (h : Call.ends id c = true) : c.identifier.id = id :=
  beq_iff_eq.1 (Bool.and_eq_true_iff.1 h).1

theorem startsIn_eq (log : List Call) (id : String) : startsIn log id = log.any (Call.starts id) :=
  rfl

def before (q : Call → Bool) (log : List Call) : List Call := log.takeWhile fun c => !q c

section Before

variable {q : Call → Bool} {xs : List Call}

theorem before_append_of_none (h : log.any q = false) (more : List Call) :
    before q (log ++ more) = log ++ before q more := by
  refine List.takeWhile_append_of_pos fun c hc => ?_
  rw [Bool.not_eq_true']
  exact Bool.eq_false_iff.2 (List.any_eq_false.1 h c hc)

theorem before_append_of_any (h : log.any q = true) (more : List Call) :
    before q (log ++ more) = before q log := by
  induction log with
  | nil => cases h
  | cons c log ih =>
    unfold before at ih ⊢
    rw [List.cons_append, List.takeWhile_cons, List.takeWhile_cons]
    cases hc : q c with
    | true => rfl
    | false =>
      rw [List.any_cons, hc, Bool.false_or] at h
      rw [ih h]

theorem before_cons (h : q c = true) (more : List Call) : before q (c :: more) = [] := by
  unfold before
  rw [List.takeWhile_cons, h]
  rfl

theorem before_eq (h : xs.any q = false) (hc : q c = true) (more : List Call) :
    before q (xs ++ c :: more) = xs := by
  rw [before_append_of_none h, before_cons hc, List.append_nil]

end Before

theorem any_ends (log : List Call) (id : String) :
    log.any (Call.ends id) = (endIn log id).isSome := by
  unfold endIn
  rw [List.isSome_findSome?]
  congr 1
  funext c
  unfold Call.ends
  by_cases hid : c.identifier.id = id
  · rw [if_pos hid, hid, beq_self_eq_true, Bool.true_and]
  · rw [if_neg hid, beq_false_of_ne hid, Bool.false_and]
    rfl

theorem isIdle_of_ends {id : String} (h : Call.ends id c = true) :
    isIdle p log c = log.any (Call.ends id) := by
  obtain ⟨hid, hending⟩ := Bool.and_eq_true_iff.1 h
  obtain ⟨e, he⟩ := Option.isSome_iff_exists.1 hending
  rw [isIdle_of_ending he, any_ends, beq_iff_eq.1 hid]

/-- The reading that comes after these calls. The first of all was taken when the run began. -/
def readingAfter (p : Plan) (clock : Clock) (calls : List Call) : Except TimeError Instant :=
  (clock.after (1 + ticks p [] calls)).read.1

/-- Each start and each finish in the tree is the reading that the calls before it left, except that
the roots start with the run. -/
structure Stamped (p : Plan) (clock : Clock) (log : List Call) (t : Tree) : Prop where
  start : ∀ id n now, t.node? id = some n → n.start = some now →
    p.roots.any (·.id == id) = false →
      readingAfter p clock (before (Call.starts id) log) = .ok now
  finish : ∀ id n now, t.node? id = some n → n.finish = some now →
    log.any (Call.ends id) = true ∧ readingAfter p clock (before (Call.ends id) log) = .ok now

variable {clock : Clock} {i : Identifier} {n : Node}

theorem begin_stamped (p : Plan) (clock : Clock) (startedAt : Instant) :
    (begin p (some startedAt)).Stamped p clock [] := by
  have hfresh {id : String} {n : Node} (hn : (begin p (some startedAt)).node? id = some n) :
      p.roots.any (·.id == id) = true ∧ n.finish = none := by
    rcases node?_begin p (some startedAt) id with ⟨i, hi, hid, hget⟩ | ⟨-, hget⟩ <;>
      rw [hget] at hn <;> cases hn
    exact ⟨List.any_eq_true.2 ⟨i, hi, beq_iff_eq.2 hid⟩, rfl⟩
  refine ⟨fun id n now hn _ hroot => ?_, fun id n now hn hfinish => ?_⟩
  · rw [(hfresh hn).1] at hroot
    cases hroot
  · rw [(hfresh hn).2] at hfinish
    cases hfinish

section Step

variable (h : t.Stamped p clock log) (hr : Reflects p (some startedAt) log t)

include h hr in
theorem Stamped.keeps_start {id : String} (hn : t.node? id = some n) (hs : n.start = some now)
    (hroot : p.roots.any (·.id == id) = false) (c : Call) :
    readingAfter p clock (before (Call.starts id) (log ++ [c])) = .ok now := by
  have hstarts := hr.start_eq id
  rw [hn, Option.bind_some, hs, opensAt, hroot, Bool.and_false, Bool.false_or,
    startsIn_eq] at hstarts
  rw [before_append_of_any hstarts.symm]
  exact h.start id n now hn hs hroot

include h in
theorem Stamped.keeps_finish {id : String} (hn : t.node? id = some n) (hf : n.finish = some now)
    (c : Call) : (log ++ [c]).any (Call.ends id) = true ∧
      readingAfter p clock (before (Call.ends id) (log ++ [c])) = .ok now := by
  obtain ⟨hends, hreading⟩ := h.finish id n now hn hf
  rw [List.any_append, hends, before_append_of_any hends]
  exact ⟨rfl, hreading⟩

include h hr in
theorem Stamped.puts (hputs : t.Puts i n t')
    (hstart : ∀ now, n.start = some now → (t.nodeOf i).start ≠ some now →
      p.roots.any (·.id == i.id) = false →
        readingAfter p clock (before (Call.starts i.id) (log ++ [c])) = .ok now)
    (hfinish : ∀ now, n.finish = some now → (t.nodeOf i).finish ≠ some now →
      (log ++ [c]).any (Call.ends i.id) = true ∧
        readingAfter p clock (before (Call.ends i.id) (log ++ [c])) = .ok now) :
    t'.Stamped p clock (log ++ [c]) := by
  have hnode (field : Node → Option Instant) (hfresh : field (.fresh i none) = none) {now : Instant}
      (hnow : field (t.nodeOf i) = some now) : t.node? i.id = some (t.nodeOf i) := by
    unfold nodeOf at hnow ⊢
    cases hget : t.node? i.id with
    | some m => rfl
    | none =>
      rw [hget, Option.getD_none, hfresh] at hnow
      cases hnow
  refine ⟨fun id m now hm hs hroot => ?_, fun id m now hm hf => ?_⟩ <;>
    rw [hputs.node?_eq] at hm <;> split at hm
  · next hid =>
    cases hm
    subst hid
    by_cases hold : (t.nodeOf i).start = some now
    · exact h.keeps_start hr (hnode Node.start rfl hold) hold hroot c
    · exact hstart now hs hold hroot
  · exact h.keeps_start hr hm hs hroot c
  · next hid =>
    cases hm
    subst hid
    by_cases hold : (t.nodeOf i).finish = some now
    · exact h.keeps_finish (hnode Node.finish rfl hold) hold c
    · exact hfinish now hf hold
  · exact h.keeps_finish hm hf c

include h hr in
theorem Stamped.ended {e : Ending} (hc : c.ending? = some e)
    (hread : readingAfter p clock log = .ok now)
    (hputs : t.Puts c.identifier ((t.nodeOf c.identifier).closed e now) t') :
    t'.Stamped p clock (log ++ [c]) := by
  have hcloses := Call.ends_self hc
  cases hended : (t.nodeOf c.identifier).ending with
  | some ending =>
    rw [Node.closed_of_ending hended] at hputs
    exact h.puts hr hputs (fun _ hs hne => absurd hs hne) fun _ hf hne => absurd hf hne
  | none =>
    rw [Node.closed_of_none hended] at hputs
    refine h.puts hr hputs (fun _ hs hne => absurd hs hne) fun _ hf _ => ?_
    have hnone : log.any (Call.ends c.identifier.id) = false := by
      rw [any_ends, ← hr.ending_eq, ← ending_nodeOf, hended]
      rfl
    cases hf
    rw [before_eq hnone hcloses, List.any_append, List.any_cons, hcloses]
    exact ⟨Bool.or_true _, hread⟩

include h hr in
theorem Stamped.step (hmoves : c.Moves now t t') (hread : readingAfter p clock log = .ok now) :
    t'.Stamped p clock (log ++ [c]) := by
  cases c with
  | register i =>
    cases hmoves
    exact ⟨fun id n at' hn hs hroot => h.keeps_start hr hn hs hroot _,
      fun id n at' hn hf => h.keeps_finish hn hf _⟩
  | started i =>
    refine h.puts hr hmoves (fun at' hs hne hroot => ?_) fun _ hf hne => absurd hf hne
    cases hstart : (t.nodeOf i).start with
    | some start =>
      rw [Node.begun_of_start hstart] at hs
      exact absurd hs hne
    | none =>
      have hnone : log.any (Call.starts i.id) = false := by
        have hstarts := hr.start_eq i.id
        rw [← start_nodeOf, hstart, opensAt, hroot, Bool.and_false, Bool.false_or] at hstarts
        exact hstarts.symm
      rw [Node.begun_of_none hstart] at hs
      cases hs
      rw [before_eq hnone (Call.starts_self i)]
      exact hread
  | skipped i reason? => exact h.ended hr (c := .skipped i reason?) rfl hread hmoves
  | finished i result => exact h.ended hr (c := .finished i result) rfl hread hmoves

end Step

theorem Reflects.spent_of_unstarted (h : Reflects p (some startedAt) log t) {id : String}
    (hroot : p.roots.any (·.id == id) = false) (hstarts : startsIn log id = false) (m : Int) :
    t.spent id m = 0 := by
  have hnone := h.start_eq id
  rw [opensAt, hroot, hstarts, Bool.and_false, Bool.false_or, Option.isSome_eq_false_iff,
    Option.isNone_iff_eq_none, Option.bind_eq_none_iff] at hnone
  unfold spent
  cases hn : t.node? id with
  | none => rfl
  | some n =>
    rw [Option.elim_some, Node.spent, hnone n hn]

/-- A node that starts and ends at two calls that follow each other takes one step. -/
theorem Stamped.spent_of_started {first : Instant} {step : Nat} {aware : Bool}
    {earlier later : List Call}
    (h : t.Stamped p (.stepping first step) log) (hr : Reflects p (some startedAt) log t)
    (ht : t.Timed aware) (hroot : p.roots.any (·.id == i.id) = false)
    (hlog : log = earlier ++ .started i :: c :: later) (hc : Call.ends i.id c = true)
    (hother : ∀ d ∈ earlier, d.identifier.id ≠ i.id) (m : Int) :
    t.spent i.id m = step := by
  have hnone (q : Call → Bool) (hq : ∀ {d}, q d = true → d.identifier.id = i.id) :
      earlier.any q = false :=
    List.any_eq_false.2 fun d hd hqd => hother d hd (hq hqd)
  have hearlier : startsIn earlier i.id = false := hnone (Call.starts i.id) Call.id_of_starts
  have hends : (earlier ++ [Call.started i]).any (Call.ends i.id) = false := by
    rw [List.any_append, hnone (Call.ends i.id) Call.id_of_ends, List.any_cons, List.any_nil,
      Bool.or_false, Bool.false_or]
    exact Bool.and_false _
  have hsplit : log = (earlier ++ [Call.started i]) ++ c :: later := by rw [hlog, List.append_cons]
  have hbefore : before (Call.starts i.id) log = earlier := by
    rw [hlog]
    exact before_eq hearlier (Call.starts_self i) _
  have hbetween : before (Call.ends i.id) log = earlier ++ [Call.started i] := by
    rw [hsplit]
    exact before_eq hends hc _
  have hbusy : isIdle p ([] ++ earlier) (.started i) = false := by
    rw [List.nil_append, isIdle, hroot, hearlier]
    rfl
  have hstarted := hr.start_eq i.id
  have hsome : startsIn log i.id = true :=
    List.any_eq_true.2 ⟨.started i, hlog ▸ by simp, Call.starts_self i⟩
  have hending : (endIn log i.id).isSome = true := by
    rw [← any_ends]
    exact List.any_eq_true.2 ⟨c, hsplit ▸ by simp, hc⟩
  rw [hsome, Bool.or_true] at hstarted
  rw [← hr.ending_eq] at hending
  obtain ⟨start, hstart⟩ := Option.isSome_iff_exists.1 hstarted
  obtain ⟨n, hn, hstart⟩ := Option.bind_eq_some_iff.1 hstart
  rw [hn, Option.bind_some] at hending
  obtain ⟨finish, hfinish⟩ := Option.isSome_iff_exists.1 ((ht i.id n hn).finished hending)
  -- the start is one reading, the end the next
  have hfirst := h.start i.id n start hn hstart hroot
  have hlast := (h.finish i.id n finish hn hfinish).2
  rw [hbefore, readingAfter] at hfirst
  rw [hbetween, readingAfter, ticks_concat_of_busy hbusy] at hlast
  have hfrom := (Clock.moment_of_stepping hfirst).1
  have hto := (Clock.moment_of_stepping hlast).1
  calc t.spent i.id m
    _ = max (finish.moment - start.moment) 0 := by
        rw [spent, hn, Option.elim_some, Node.spent, hstart]
        dsimp only
        rw [hfinish, Option.elim_some]
    _ = step := by
        rw [hfrom, hto, ← Nat.add_assoc, Int.natCast_succ, Int.mul_add, Int.mul_one]
        omega

end Tree

end TestRun
