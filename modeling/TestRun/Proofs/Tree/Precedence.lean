import TestRun.Proofs.Listener.Recalling
import TestRun.Proofs.Tree.Lasting
set_option autoImplicit false

namespace TestRun

open Time

namespace Node

def Ordered (startsFirst : Bool) (n : Node) : Prop :=
  ∀ start finish, n.start = some start → n.finish = some finish →
    if startsFirst then start.moment ≤ finish.moment else finish.moment ≤ start.moment

theorem ordered_of_start {n : Node} (h : n.start = none) (startsFirst : Bool) :
    n.Ordered startsFirst := fun _ _ hs => absurd (h.symm.trans hs) nofun

theorem ordered_of_finish {n : Node} (h : n.finish = none) (startsFirst : Bool) :
    n.Ordered startsFirst := fun _ _ _ hf => absurd (h.symm.trans hf) nofun

theorem Dated.mono {P Q : Instant → Prop} {n : Node} (h : n.Dated P) (hPQ : ∀ i, P i → Q i) :
    n.Dated Q :=
  ⟨fun now hnow => hPQ now (h.start now hnow), fun now hnow => hPQ now (h.finish now hnow)⟩

end Node

namespace Tree

def startsByEnd (p : Plan) (startedAt? : Option Instant) (log : List Call) (id : String) : Bool :=
  opensAt p startedAt? id || startsIn (uptoEnd id log) id

theorem uptoEnd_isPrefix (id : String) (log : List Call) : uptoEnd id log <+: log := by
  induction log with
  | nil => exact List.prefix_rfl
  | cons c log ih =>
    rw [uptoEnd]
    split
    · exact List.cons_prefix_cons.2 ⟨rfl, List.nil_prefix⟩
    · exact List.cons_prefix_cons.2 ⟨rfl, ih⟩

theorem startsIn_of_uptoEnd {id : String} {log : List Call}
    (h : startsIn (uptoEnd id log) id = true) : startsIn log id = true := by
  obtain ⟨c, hc, hstart⟩ := List.any_eq_true.1 h
  exact List.any_eq_true.2 ⟨c, (uptoEnd_isPrefix id log).subset hc, hstart⟩

section Log

variable {p : Plan} {startedAt? : Option Instant} {log : List Call} {id : String}

theorem startsByEnd_of_open (h : endIn log id = none) :
    startsByEnd p startedAt? log id = (opensAt p startedAt? id || startsIn log id) := by
  rw [startsByEnd, uptoEnd_of_open h]

theorem startsByEnd_concat_of_end (h : endIn log id ≠ none) (c : Call) :
    startsByEnd p startedAt? (log ++ [c]) id = startsByEnd p startedAt? log id := by
  rw [startsByEnd, startsByEnd, uptoEnd_append_of_end h]

theorem startsByEnd_concat_of_open (h : endIn log id = none) (c : Call) :
    startsByEnd p startedAt? (log ++ [c]) id =
      (opensAt p startedAt? id || startsIn (log ++ [c]) id) := by
  rw [startsByEnd, uptoEnd_concat h]

theorem startsByEnd_concat_of_ne {c : Call} (h : id ≠ c.identifier.id) :
    startsByEnd p startedAt? (log ++ [c]) id = startsByEnd p startedAt? log id := by
  by_cases hend : endIn log id = none
  · rw [startsByEnd_concat_of_open hend, startsByEnd_of_open hend, startsIn_concat,
      beq_false_of_ne (Ne.symm h), Bool.false_and, Bool.or_false]
  · exact startsByEnd_concat_of_end hend c

end Log

/-- What is known of a tree after a log of calls, when no reading of the clock that is still to come
lies before one that was made. -/
structure Ranked (p : Plan) (startedAt? : Option Instant) (log : List Call) (clock : Clock)
    (t : Tree) : Prop where
  coherent : t.Coherent
  neverGoesBack : clock.NeverGoesBack
  reflects : ¬ clock.Stuck → Reflects p startedAt? log t
  dated : t.Each (Node.Dated fun i => clock.NotBefore i.moment)
  unfinished : ∀ id, endIn log id = none → (t.node? id).bind (·.finish) = none
  ordered : ∀ id n, t.node? id = some n → n.Ordered (startsByEnd p startedAt? log id)

section Ranked

variable {p : Plan} {startedAt? : Option Instant} {log : List Call} {clock later : Clock}
variable {t t' : Tree} {c : Call} {m : Node}

theorem begin_ranked (p : Plan) (hclock : clock.NeverGoesBack)
    (hstart : ∀ i, startedAt? = some i → clock.NotBefore i.moment) :
    (begin p startedAt?).Ranked p startedAt? [] clock := by
  have hfresh : ∀ id n, (begin p startedAt?).node? id = some n → n.finish = none := by
    intro id n hn
    rcases node?_begin p startedAt? id with ⟨i, -, -, hget⟩ | ⟨-, hget⟩ <;> rw [hget] at hn <;>
      cases hn
    rfl
  refine ⟨begin_coherent p _, hclock, fun _ => begin_reflects p _,
    each_begin (fun i => Node.fresh_dated i hstart) p, fun id _ => ?_,
    fun id n hn => Node.ordered_of_finish (hfresh id n hn) _⟩
  cases hn : (begin p startedAt?).node? id with
  | none => rfl
  | some n => exact hfresh id n hn

theorem Ranked.dated_nodeOf (h : t.Ranked p startedAt? log clock) (i : Identifier) :
    (t.nodeOf i).Dated fun now => clock.NotBefore now.moment :=
  h.dated.nodeOf (Node.fresh_dated i fun _ hnow => nomatch hnow)

theorem Ranked.ordered_nodeOf (h : t.Ranked p startedAt? log clock) (i : Identifier) :
    (t.nodeOf i).Ordered (startsByEnd p startedAt? log i.id) := by
  unfold nodeOf
  cases hn : t.node? i.id with
  | none => exact Node.ordered_of_start rfl _
  | some n => exact h.ordered i.id n hn

/-- A node whose instants stay as they are stays in order, for it has a finish only if the log has an
end of it. -/
theorem Ranked.ordered_of_same (h : t.Ranked p startedAt? log clock)
    (hstart : m.start = (t.nodeOf c.identifier).start)
    (hfinish : m.finish = (t.nodeOf c.identifier).finish) :
    m.Ordered (startsByEnd p startedAt? (log ++ [c]) c.identifier.id) := by
  by_cases hend : endIn log c.identifier.id = none
  · refine Node.ordered_of_finish ?_ _
    rw [hfinish, finish_nodeOf, h.unfinished _ hend]
  · rw [startsByEnd_concat_of_end hend]
    intro start finish hs hf
    exact h.ordered_nodeOf c.identifier start finish (hstart ▸ hs) (hfinish ▸ hf)

theorem Ranked.puts (h : t.Ranked p startedAt? log clock) (hputs : t.Puts c.identifier m t')
    (hclock : later.NeverGoesBack) (hlater : ∀ k, clock.NotBefore k → later.NotBefore k)
    (hreflects : ¬ later.Stuck → Reflects p startedAt? (log ++ [c]) t')
    (hdated : m.Dated fun i => later.NotBefore i.moment)
    (hunfinished : endIn (log ++ [c]) c.identifier.id = none → m.finish = none)
    (hordered : m.Ordered (startsByEnd p startedAt? (log ++ [c]) c.identifier.id)) :
    t'.Ranked p startedAt? (log ++ [c]) later := by
  have heach : t.Each (Node.Dated fun i => later.NotBefore i.moment) := fun id n hn =>
    (h.dated id n hn).mono fun i => hlater i.moment
  refine ⟨hputs.coherent, hclock, hreflects, heach.puts hdated hputs, fun id hid => ?_,
    fun id n hn => ?_⟩
  · rw [hputs.node?_eq]
    split
    · next heq => exact hunfinished (heq ▸ hid)
    · rw [endIn_concat, Option.or_eq_none_iff] at hid
      exact h.unfinished id hid.1
  · rw [hputs.node?_eq] at hn
    split at hn
    · next heq =>
      cases hn
      exact heq ▸ hordered
    · next hne =>
      rw [startsByEnd_concat_of_ne hne]
      exact h.ordered id n hn

theorem Ranked.register (h : t.Ranked p startedAt? log clock) (i : Identifier) :
    (t.register i).Ranked p startedAt? (log ++ [.register i]) clock := by
  refine ⟨h.coherent.register i, h.neverGoesBack, fun hc => (h.reflects hc).register i, h.dated,
    fun id hid => ?_, fun id n hn => ?_⟩
  · rw [endIn_concat, Option.or_eq_none_iff] at hid
    exact h.unfinished id hid.1
  · have hsame : startsByEnd p startedAt? (log ++ [.register i]) id =
        startsByEnd p startedAt? log id := by
      by_cases hend : endIn log id = none
      · rw [startsByEnd_concat_of_open hend, startsByEnd_of_open hend, startsIn_concat]
        simp [Call.isStart]
      · exact startsByEnd_concat_of_end hend _
    rw [hsame]
    exact h.ordered id n hn

theorem Ranked.ordered_begun (h : t.Ranked p startedAt? log clock) {now : Instant}
    (hread : clock.read = (.ok now, later)) (i : Identifier) :
    ((t.nodeOf i).begun now).Ordered (startsByEnd p startedAt? (log ++ [.started i]) i.id) := by
  cases hs : (t.nodeOf i).start with
  | some start =>
    rw [Node.begun_of_start hs]
    exact h.ordered_of_same (c := .started i) rfl rfl
  | none =>
    rw [Node.begun_of_none hs]
    by_cases hend : endIn log i.id = none
    · refine Node.ordered_of_finish ?_ _
      exact (finish_nodeOf t i).trans (h.unfinished i.id hend)
    · have hunstarted := (h.reflects fun hstuck => hstuck.not_read hread).start_eq i.id
      rw [← start_nodeOf, hs, Option.isSome_none, eq_comm, Bool.or_eq_false_iff] at hunstarted
      have hfirst : startsByEnd p startedAt? log i.id = false := by
        refine Bool.or_eq_false_iff.2 ⟨hunstarted.1, Bool.eq_false_iff.2 fun hstart => ?_⟩
        exact Bool.eq_false_iff.1 hunstarted.2 (startsIn_of_uptoEnd hstart)
      rw [startsByEnd_concat_of_end hend, hfirst]
      rintro start finish hnow hf
      cases hnow
      exact ((h.dated_nodeOf i).finish finish hf).read hread |>.1

theorem Ranked.ordered_closed (h : t.Ranked p startedAt? log clock) {now : Instant}
    (hread : clock.read = (.ok now, later)) (c : Call) (e : Ending) :
    ((t.nodeOf c.identifier).closed e now).Ordered
      (startsByEnd p startedAt? (log ++ [c]) c.identifier.id) := by
  cases he : (t.nodeOf c.identifier).ending with
  | some ending =>
    rw [Node.closed_of_ending he]
    exact h.ordered_of_same rfl rfl
  | none =>
    have hreflects := h.reflects fun hstuck => hstuck.not_read hread
    have hopen : endIn log c.identifier.id = none := by
      rw [← hreflects.ending_eq, ← ending_nodeOf, he]
    rw [Node.closed_of_none he, startsByEnd_concat_of_open hopen, startsIn_concat, ← Bool.or_assoc,
      ← hreflects.start_eq, ← start_nodeOf]
    rintro start finish (hs : (t.nodeOf c.identifier).start = some start) hnow
    cases hnow
    rw [hs]
    exact ((h.dated_nodeOf c.identifier).start start hs).read hread |>.1

theorem Ranked.unfinished_concat (h : t.Ranked p startedAt? log clock) {i : Identifier}
    (hm : m.finish = (t.nodeOf i).finish) (c : Call) (hend : endIn (log ++ [c]) i.id = none) :
    m.finish = none := by
  rw [endIn_concat, Option.or_eq_none_iff] at hend
  rw [hm, finish_nodeOf, h.unfinished i.id hend.1]

theorem Ranked.read (h : t.Ranked p startedAt? log clock) {now : Instant}
    (hread : clock.read = (.ok now, later)) (hc : c.IsEvent)
    (hputs : t.Puts c.identifier (c.next (t.nodeOf c.identifier) now) t') :
    t'.Ranked p startedAt? (log ++ [c]) later := by
  obtain ⟨hback, hbound⟩ := h.neverGoesBack.read hread
  have hlater : ∀ k, clock.NotBefore k → later.NotBefore k := fun k hk => (hk.read hread).2
  have hreflects := (h.reflects fun hstuck => hstuck.not_read hread).step (hc.moves_iff.2 hputs)
  have hdated := (h.dated_nodeOf c.identifier).mono fun i => hlater i.moment
  rcases hc.started_or_ending with heq | ⟨e, he⟩
  · have hnext : c.next (t.nodeOf c.identifier) now = (t.nodeOf c.identifier).begun now := by
      rw [heq]
      rfl
    rw [hnext] at hputs
    refine h.puts hputs hback hlater (fun _ => hreflects) (hdated.begun hbound)
      (h.unfinished_concat rfl c) ?_
    rw [heq]
    exact h.ordered_begun hread c.identifier
  · rw [Call.next_of_ending he] at hputs
    refine h.puts hputs hback hlater (fun _ => hreflects) (hdated.closed e hbound) (fun hend => ?_)
      (h.ordered_closed hread c e)
    rw [endIn_concat, if_pos rfl, he] at hend
    exact absurd hend (by simp)

theorem Ranked.act {s : Surroundings} (h : t.Ranked p startedAt? log s.clock) (c : Call) :
    ∃ t' s', (c.act.perform (t, s)).2 = (t', s') ∧
      t'.Ranked p startedAt? (log ++ [c]) s'.clock := by
  by_cases hregister : ∃ i, c = .register i
  · obtain ⟨i, rfl⟩ := hregister
    exact ⟨_, s, rfl, h.register i⟩
  have hc : c.IsEvent := fun i heq => hregister ⟨i, heq⟩
  obtain ⟨r, s', hact, -, hclock, hanswers⟩ := h.coherent.act_answers hc s
  refine ⟨r.tree, s', congrArg Prod.snd hact, ?_⟩
  rw [hclock]
  have hdated := h.dated_nodeOf c.identifier
  cases hanswers with
  | kept hsame hputs =>
    have hmoves : c.Moves .epoch t _ := hc.moves_iff.2 (hsame .epoch ▸ hputs)
    exact h.puts hputs h.neverGoesBack (fun _ hk => hk) (fun hopen => (h.reflects hopen).step hmoves)
      hdated (h.unfinished_concat rfl c) (h.ordered_of_same rfl rfl)
  | read hread hputs => exact h.read hread hc hputs
  | stuck hstuck hputs =>
    refine h.puts hputs h.neverGoesBack (fun _ hk => hk) (fun hopen => absurd hstuck hopen) ⟨?_, ?_⟩
      (h.unfinished_concat (c.finish_half _) c)
      (h.ordered_of_same (c.start_half _) (c.finish_half _))
    · rw [Call.start_half]
      exact hdated.start
    · rw [Call.finish_half]
      exact hdated.finish

theorem Ranked.callEach {s : Surroundings} (h : t.Ranked p startedAt? log s.clock)
    (calls : List Call) : ∃ t' s', (callEach calls).perform (t, s) = (.ok (), (t', s')) ∧
      t'.Ranked p startedAt? (log ++ calls) s'.clock := by
  induction calls generalizing log t s with
  | nil => exact ⟨t, s, rfl, (List.append_nil log).symm ▸ h⟩
  | cons c calls ih =>
    obtain ⟨t₁, s₁, hact, h₁⟩ := h.act c
    obtain ⟨t₂, s₂, hrest, h₂⟩ := ih h₁
    rw [List.append_assoc] at h₂
    refine ⟨t₂, s₂, ?_, h₂⟩
    rw [perform_callEach_cons, hact]
    exact hrest

end Ranked

/-- With a clock that never goes back, a node starts no later than it finishes if a call started it,
or the run opened it, before it ended. Any other node with a start was started after it had ended,
and finishes no later than it starts. -/
theorem start_le_finish (p : Plan) (startedAt? : Option Instant) (s : Surroundings)
    (hs : s.clock.NeverGoesBack)
    (hstart : ∀ i now c, startedAt? = some i → s.clock.read = (.ok now, c) → i.moment ≤ now.moment)
    (log : List Call) {id : String} {n : Node} {start finish : Instant}
    (hn : ((callEach log).perform (begin p startedAt?, s)).2.1.node? id = some n)
    (hsome : n.start = some start) (hfinish : n.finish = some finish) :
    if opensAt p startedAt? id || startsIn (uptoEnd id log) id then start.moment ≤ finish.moment
    else finish.moment ≤ start.moment := by
  have hbefore : ∀ i, startedAt? = some i → s.clock.NotBefore i.moment := by
    intro i hi
    rcases hread : s.clock.read with ⟨e | now, c⟩
    · obtain ⟨rfl, hstuck⟩ := Clock.stuck_of_read hread
      exact fun j hj => absurd hj (hstuck.not_shows j)
    · have hfirst := hstart i now c hi hread
      rintro j ⟨k, hk⟩
      cases k with
      | zero =>
        rw [Clock.after, hread] at hk
        cases hk
        exact hfirst
      | succ k =>
        rw [Clock.after, hread] at hk
        exact Int.le_trans hfirst ((hs.read hread).2 j ⟨k, hk⟩)
  obtain ⟨t, s', hact, hranked⟩ := (begin_ranked p hs hbefore).callEach log
  rw [hact] at hn
  exact hranked.ordered id n hn start finish hsome hfinish

/-- An engine starts with the run and finishes, and one of its tests finishes before it starts. -/
theorem start_le_finish_both :
    let engine : Identifier := ⟨"e", "e", none, .engine⟩
    let late : Identifier := ⟨"e:t", "t", some "e", .test⟩
    let at3 : Instant := ⟨3, some 0, by decide, by decide⟩
    let at5 : Instant := ⟨5, some 0, by decide, by decide⟩
    let at9 : Instant := ⟨9, some 0, by decide, by decide⟩
    let p := Plan.ofList 1 [engine, late]
    let s := Surroundings.bare (.listed at3 [at5, at9])
    let log : List Call := [.finished late .successful, .started late, .started engine,
      .finished engine .successful]
    let t := ((callEach log).perform (begin p (some at3), s)).2.1
    s.clock.NeverGoesBack ∧
      (∀ i now c, some at3 = some i → s.clock.read = (.ok now, c) → i.moment ≤ now.moment) ∧
      (∃ n start finish, t.node? "e" = some n ∧ n.start = some start ∧ n.finish = some finish ∧
        start.moment ≤ finish.moment) ∧
      ∃ n start finish, t.node? "e:t" = some n ∧ n.start = some start ∧ n.finish = some finish ∧
        finish.moment ≤ start.moment := by
  intro engine late at3 at5 at9 p s log t
  have hs : s.clock.NeverGoesBack := Clock.listed_neverGoesBack (by decide)
  have hstart : ∀ i now c, some at3 = some i → s.clock.read = (.ok now, c) →
      i.moment ≤ now.moment := by
    intro i now c hi hread
    cases hi
    cases hread
    exact Int.le_refl _
  have hnode : t.node? "e" = some ⟨engine, some at3, some (.finished .successful), some at9⟩ := by
    decide
  have hlate : t.node? "e:t" = some ⟨late, some at5, some (.finished .successful), some at3⟩ := by
    decide
  exact ⟨hs, hstart,
    ⟨_, _, _, hnode, rfl, rfl, start_le_finish p (some at3) s hs hstart log hnode rfl rfl⟩,
    _, _, _, hlate, rfl, rfl, start_le_finish p (some at3) s hs hstart log hlate rfl rfl⟩

/-- Not every node that has both instants starts before it finishes. -/
theorem start_le_finish_refuted :
    ¬ ∀ (p : Plan) (startedAt? : Option Instant) (s : Surroundings), s.clock.NeverGoesBack →
      (∀ i now c, startedAt? = some i → s.clock.read = (.ok now, c) → i.moment ≤ now.moment) →
      ∀ (log : List Call) (id : String) (n : Node) (start finish : Instant),
        ((callEach log).perform (begin p startedAt?, s)).2.1.node? id = some n →
        n.start = some start → n.finish = some finish → start.moment ≤ finish.moment := by
  intro hall
  let late : Identifier := ⟨"e:u", "u", some "e", .test⟩
  let at5 : Instant := ⟨5, some 0, by decide, by decide⟩
  let at9 : Instant := ⟨9, some 0, by decide, by decide⟩
  have hle := hall (.empty 0) none (.bare (.listed at5 [at9]))
    (Clock.listed_neverGoesBack (by decide)) (fun _ _ _ h => nomatch h)
    [.finished late .successful, .started late] "e:u"
    ⟨late, some at9, some (.finished .successful), some at5⟩ at9 at5 (by decide) rfl rfl
  exact absurd hle (by decide)

end Tree

end TestRun
