import TestRun.Proofs.Listener.Recalling
set_option autoImplicit false

namespace TestRun

open Time

namespace Tree

section Touch

variable (t : Tree) (i : Identifier)

theorem nodeOf_touch : (t.touch i).nodeOf i = t.nodeOf i := by
  unfold nodeOf
  rw [node?_touch, if_pos rfl]
  rfl

theorem touch_of_known {t : Tree} {i : Identifier} (h : (t.node? i.id).isSome = true) :
    t.touch i = t := if_pos h

theorem touch_touch : (t.touch i).touch i = t.touch i := by
  refine touch_of_known ?_
  rw [node?_touch, if_pos rfl]
  rfl

theorem started_touch (clock : Clock) : (t.touch i).started i clock = t.started i clock := by
  unfold started
  rw [nodeOf_touch, touch_touch]

end Touch

section Fails

variable {t : Tree} {c : Call} {s : Surroundings} {f : Fault}

theorem isEvent_of_error (h : (c.act.perform (t, s)).1 = .error f) : c.IsEvent := by
  rintro i rfl
  cases h

/-- Nothing but the clock makes a call fail. By then half of the call has been done. -/
theorem Coherent.act_error (ht : t.Coherent) (h : (c.act.perform (t, s)).1 = .error f) :
    ∃ e t' s', f = .time e ∧ c.act.perform (t, s) = (.error f, (t', s')) ∧ s.Quiet s' ∧
      s.clock.Stuck ∧ s'.clock = s.clock ∧
      t.Puts c.identifier (c.half (t.nodeOf c.identifier)) t' := by
  obtain ⟨r, s', hact, hquiet, hclock, hanswers⟩ := ht.act_answers (isEvent_of_error h) s
  rw [hact] at h
  cases hanswers with
  | kept | read => cases h
  | @stuck t' e hstuck hputs =>
    cases h
    exact ⟨e, t', s', rfl, hact, hquiet, hstuck, hclock, hputs⟩

theorem started_error_iff (i : Identifier) (clock : Clock) (e : TimeError) :
    (t.started i clock).answer = .error e ↔
      (t.nodeOf i).start.isSome = false ∧ clock.read.1 = .error e := by
  cases hs : (t.nodeOf i).start with
  | some start => simp [Tree.started, hs]
  | none => rcases hread : clock.read with ⟨_ | now, later⟩ <;> simp [Tree.started, hs, hread]

theorem ended_error_iff (i : Identifier) (ending : Ending) (clock : Clock) (e : TimeError) :
    (t.ended i ending clock).answer = .error e ↔
      (t.nodeOf i).ending.isSome = false ∧ clock.read.1 = .error e := by
  cases he : (t.nodeOf i).ending with
  | some ended => simp [Tree.ended, he]
  | none => rcases hread : clock.read with ⟨_ | now, later⟩ <;> simp [Tree.ended, he, hread]

theorem act_started (t : Tree) (i : Identifier) (s : Surroundings) :
    (Call.act (.started i)).perform (t, s) =
      (((t.started i s.clock).answer.mapError .time).map fun _ => (),
        ((t.started i s.clock).tree, { s with clock := (t.started i s.clock).clock })) :=
  perform_act_of_hear (perform_hear _ t s)

theorem act_error_iff (t : Tree) (c : Call) (s : Surroundings) (e : TimeError) :
    (c.act.perform (t, s)).1 = .error (.time e) ↔
      c.isDone (t.nodeOf c.identifier) = false ∧ s.clock.read.1 = .error e := by
  have hanswer (answer : Except TimeError Node) :
      ((answer.mapError Fault.time).map fun _ => ()) = .error (.time e) ↔ answer = .error e := by
    cases answer <;> simp [Except.mapError, Except.map]
  have hended (i : Identifier) (ending : Ending) :
      ((do let _ ← hearEnded i ending : Hearing Tree Unit).perform (t, s)).1 = .error (.time e) ↔
        (t.nodeOf i).ending.isSome = false ∧ s.clock.read.1 = .error e := by
    obtain ⟨s', hact, -, -⟩ := perform_hearEnded_reply t i ending s
    rw [perform_act_of_hear hact, hanswer, ended_error_iff]
  cases c with
  | register i => exact iff_of_false nofun (fun h => nomatch h.1)
  | started i =>
    rw [act_started, hanswer, started_error_iff]
    rfl
  | skipped i reason? => exact hended i _
  | finished i result => exact hended i _

theorem ended_of_ending {i : Identifier} (h : (t.nodeOf i).ending.isSome = true) (e : Ending)
    (clock : Clock) : t.ended i e clock = ⟨t.touch i, clock, .ok (t.nodeOf i)⟩ := by
  obtain ⟨ending, hending⟩ := Option.isSome_iff_exists.1 h
  simp only [Tree.ended, hending]

theorem nodeOf_of_node? {i : Identifier} {n : Node} (h : t.node? i.id = some n) :
    t.nodeOf i = n := by
  rw [nodeOf, h]
  rfl

theorem hearEnded_repeated {i : Identifier} {n : Node} (hn : t.node? i.id = some n)
    (hended : n.ending.isSome = true) (e : Ending) (s : Surroundings) : ∃ s',
      (hearEnded i e).perform (t, s) = (.ok n, (t, s')) ∧ s.Quiet s' ∧ s'.clock = s.clock := by
  obtain ⟨s', hact, hquiet, hclock⟩ := perform_hearEnded_reply t i e s
  have hnode := nodeOf_of_node? hn
  rw [ended_of_ending (hnode.symm ▸ hended), hnode, touch_of_known (hn ▸ rfl)] at hact hclock
  exact ⟨s', hact, hquiet, hclock⟩

theorem act_repeated {n : Node} {e : Ending} (hn : t.node? c.identifier.id = some n)
    (hended : n.ending.isSome = true) (hc : c.ending? = some e) (s : Surroundings) : ∃ s',
      c.act.perform (t, s) = (.ok (), (t, s')) ∧ s.Quiet s' ∧ s'.clock = s.clock := by
  cases c with
  | register i | started i => cases hc
  | skipped i reason? | finished i result =>
    obtain ⟨s', hact, hquiet, hclock⟩ := hearEnded_repeated hn hended _ s
    exact ⟨s', perform_act_of_hear hact, hquiet, hclock⟩

theorem perform_op_error {op : Hearing Tree Node}
    (h : ((do let _ ← op : Hearing Tree Unit).perform (t, s)).1 = .error f) :
    op.perform (t, s) = (.error f, ((do let _ ← op : Hearing Tree Unit).perform (t, s)).2) := by
  rcases hop : op.perform (t, s) with ⟨answer, t', s'⟩
  rw [perform_act_of_hear hop] at h ⊢
  cases answer with
  | ok n => cases h
  | error e =>
    cases h
    rfl

end Fails

def meet (t : Tree) (x : Call × Surroundings) : Tree := (x.1.act.perform (t, x.2)).2.1

def failedEnd (t : Tree) (x : Call × Surroundings) : List String :=
  if x.1.ending?.isSome && !(x.1.act.perform (t, x.2)).1.isOk then [x.1.identifier.id] else []

/-- The ids of which an end failed, when these calls were made one after the other. Each is made in
surroundings of its own, so a clock that could not be read may answer again. -/
def failedEnds (t : Tree) : List (Call × Surroundings) → List String
  | [] => []
  | x :: rest => t.failedEnd x ++ (t.meet x).failedEnds rest

end Tree

def Node.IsCut (n : Node) : Prop := n.ending.isSome = true ∧ n.finish = none

def Node.IsWhole (n : Node) : Prop := n.finish.isSome = true → n.ending.isSome = true

namespace Tree

section Cut

variable {n : Node} {now : Instant} {c : Call}

theorem finish_of_open (h : n.IsWhole) (hend : n.ending = none) : n.finish = none := by
  cases hf : n.finish with
  | none => rfl
  | some finish =>
    have hsome := h (hf ▸ rfl)
    rw [hend] at hsome
    cases hsome

theorem isWhole_closed (n : Node) (e : Ending) (now : Instant) : (n.closed e now).IsWhole :=
  fun _ => n.isSome_ending_closed e now

theorem isCut_closed (e : Ending) (now : Instant) : (n.closed e now).IsCut ↔ n.IsCut := by
  cases he : n.ending with
  | some ending => rw [Node.closed_of_ending he]
  | none =>
    rw [Node.closed_of_none he]
    exact iff_of_false (fun h => nomatch h.2) fun h => by simp [Node.IsCut, he] at h

theorem isWhole_next (c : Call) (h : n.IsWhole) (now : Instant) : (c.next n now).IsWhole := by
  cases c with
  | register i | started i => exact h
  | skipped i reason? | finished i result => exact isWhole_closed n _ now

theorem isCut_next (c : Call) (n : Node) (now : Instant) : (c.next n now).IsCut ↔ n.IsCut := by
  cases c with
  | register i | started i => exact Iff.rfl
  | skipped i reason? | finished i result => exact isCut_closed _ now

end Cut

/-- The ids of the nodes that have ended without a finish. -/
structure Marks (t : Tree) (ids : List String) : Prop where
  coherent : t.Coherent
  whole : t.Each Node.IsWhole
  cut_iff : ∀ id, (∃ n, t.node? id = some n ∧ n.IsCut) ↔ id ∈ ids

section Marks

variable {t t' : Tree} {ids : List String} {i : Identifier} {m : Node}

theorem begin_marks (p : Plan) (startedAt? : Option Instant) : (begin p startedAt?).Marks [] := by
  refine ⟨begin_coherent p startedAt?, each_begin (fun i h => nomatch h) p, fun id => ?_⟩
  refine iff_of_false ?_ List.not_mem_nil
  rintro ⟨n, hn, hcut⟩
  rcases node?_begin p startedAt? id with ⟨i, -, -, hget⟩ | ⟨-, hget⟩ <;> rw [hget] at hn <;>
    cases hn
  cases hcut.1

theorem isCut_nodeOf (t : Tree) (i : Identifier) :
    (t.nodeOf i).IsCut ↔ ∃ n, t.node? i.id = some n ∧ n.IsCut := by
  unfold nodeOf
  cases t.node? i.id with
  | none => exact iff_of_false (fun h => nomatch h.1) (fun ⟨n, hn, _⟩ => nomatch hn)
  | some n => exact ⟨fun h => ⟨n, rfl, h⟩, fun ⟨m, hm, h⟩ => Option.some.inj hm ▸ h⟩

theorem Marks.whole_nodeOf (h : t.Marks ids) (i : Identifier) : (t.nodeOf i).IsWhole :=
  h.whole.nodeOf fun hsome => nomatch hsome

theorem Marks.puts (h : t.Marks ids) (hputs : t.Puts i m t') (hwhole : m.IsWhole)
    {more : List String} (hmore : ∀ id ∈ more, id = i.id)
    (hcut : m.IsCut ↔ (t.nodeOf i).IsCut ∨ i.id ∈ more) : t'.Marks (ids ++ more) := by
  refine ⟨hputs.coherent, h.whole.puts hwhole hputs, fun id => ?_⟩
  rw [hputs.node?_eq, List.mem_append, ← h.cut_iff]
  split
  · next hid =>
    rw [hid, ← isCut_nodeOf, ← hcut]
    exact ⟨fun ⟨n, hn, hn'⟩ => Option.some.inj hn ▸ hn', fun hm => ⟨m, rfl, hm⟩⟩
  · next hid => exact ⟨.inl, fun hor => hor.resolve_right fun hmem => hid (hmore id hmem)⟩

theorem half_of_no_ending {c : Call} (h : c.ending? = none) (n : Node) : c.half n = n := by
  unfold Call.half
  rw [h]

theorem half_of_ending {c : Call} {e : Ending} (h : c.ending? = some e) (n : Node) :
    c.half n = { n with ending := some e } := by
  unfold Call.half
  rw [h]

theorem Marks.meet_error (h : t.Marks ids) {x : Call × Surroundings} {f : Fault}
    (herror : (x.1.act.perform (t, x.2)).1 = .error f) :
    (t.meet x).Marks (ids ++ t.failedEnd x) := by
  obtain ⟨e, t', s', rfl, hact, -, -, -, hputs⟩ := h.coherent.act_error herror
  have hopen := ((act_error_iff t x.1 x.2 e).1 herror).1
  have hmeet : t.meet x = t' := by rw [meet, hact]
  have hwhole := h.whole_nodeOf x.1.identifier
  rw [hmeet]
  cases hend : x.1.ending? with
  | none =>
    have hnone : t.failedEnd x = [] := by simp [failedEnd, hend]
    rw [half_of_no_ending hend] at hputs
    rw [hnone]
    exact h.puts hputs hwhole (fun _ hid => nomatch hid) (by simp)
  | some ending =>
    have hsome : t.failedEnd x = [x.1.identifier.id] := by
      rw [failedEnd, hend, herror]
      rfl
    rw [Call.isDone_of_ending hend, Option.isSome_eq_false_iff, Option.isNone_iff_eq_none] at hopen
    rw [half_of_ending hend] at hputs
    rw [hsome]
    have hfinish : (t.nodeOf x.1.identifier).finish = none := finish_of_open hwhole hopen
    refine h.puts hputs (fun _ => rfl) (fun id hid => List.mem_singleton.1 hid) ?_
    exact iff_of_true ⟨rfl, hfinish⟩ (.inr (List.mem_singleton_self _))

theorem Marks.meet (h : t.Marks ids) (x : Call × Surroundings) :
    (t.meet x).Marks (ids ++ t.failedEnd x) := by
  obtain ⟨c, s⟩ := x
  cases hanswer : (c.act.perform (t, s)).1 with
  | error f => exact h.meet_error hanswer
  | ok _ =>
    have hnone : t.failedEnd (c, s) = [] := by
      rw [failedEnd, hanswer]
      simp [Except.isOk, Except.toBool]
    rw [hnone]
    by_cases hregister : ∃ i, c = .register i
    · obtain ⟨i, rfl⟩ := hregister
      rw [List.append_nil]
      exact ⟨h.coherent.register i, h.whole, h.cut_iff⟩
    · obtain ⟨r, s', hact, -, -, hanswers⟩ :=
        h.coherent.act_answers (fun i heq => hregister ⟨i, heq⟩) s
      have hmeet : t.meet (c, s) = r.tree := by rw [Tree.meet, hact]
      rw [hmeet]
      rw [hact] at hanswer
      have hwhole := h.whole_nodeOf c.identifier
      cases hanswers with
      | kept hsame hputs =>
        exact h.puts hputs hwhole (fun _ hid => absurd hid List.not_mem_nil) (by simp)
      | read hread hputs =>
        refine h.puts hputs (isWhole_next c hwhole _)
          (fun _ hid => absurd hid List.not_mem_nil) ?_
        rw [isCut_next]
        simp
      | stuck hstuck hputs => cases hanswer

theorem Marks.foldl (h : t.Marks ids) (xs : List (Call × Surroundings)) :
    (xs.foldl Tree.meet t).Marks (ids ++ t.failedEnds xs) := by
  induction xs generalizing t ids with
  | nil =>
    rw [failedEnds, List.append_nil]
    exact h
  | cons x xs ih =>
    rw [failedEnds, ← List.append_assoc]
    exact ih (h.meet x)

end Marks

end Tree

namespace Writer

open TestRun.Tree (Call)

variable {o : Settings} {run : Run} {s : Surroundings} {c : Call} {f : Fault} {t t' : Tree}
variable {i : Identifier}

theorem callAct_error (o : Settings) (h : (c.act.perform (run.tree, s)).1 = .error f) :
    (callAct o c).perform (run, s) = (.error f,
      ({ run with tree := (c.act.perform (run.tree, s)).2.1 },
        (c.act.perform (run.tree, s)).2.2)) := by
  cases c with
  | register i => cases h
  | started i => exact Act.perform_bind_error (perform_withTree (Tree.perform_op_error h)) _
  | skipped i reason? | finished i result =>
    exact Act.perform_bind_error (perform_withTree (Tree.perform_op_error h)) _

theorem callAct_of_ending {e : Ending} (h : c.ending? = some e) (o : Settings) :
    callAct o c = endAct o c.identifier e := by
  cases c with
  | register i | started i => cases h
  | skipped i reason? | finished i result =>
    cases h
    rfl

theorem endAct_cut (o : Settings) {n : Node} (hn : run.tree.node? i.id = some n) (hcut : n.IsCut)
    (hawaits : run.awaits i.id = true) (e : Ending) (s : Surroundings) : ∃ failure s',
      (endAct o i e).perform (run, s) = (.error (.time failure), (run.settle i.id, s')) ∧
        s.Quiet s' ∧ s'.clock = s.clock := by
  obtain ⟨s', hact, hquiet, hclock⟩ := Tree.hearEnded_repeated hn hcut.1 e s
  cases hreport : run.report i.id none with
  | ok r => exact absurd hreport (run.report_none _)
  | error failure =>
    refine ⟨failure, s', ?_, hquiet, hclock⟩
    unfold endAct
    rw [Act.perform_bind_ok (perform_withTree hact), hcut.2]
    exact perform_complete_error hawaits hreport o s'

theorem awaits_settle (run : Run) (id : String) : (run.settle id).awaits id = false := by
  refine List.any_eq_false.2 fun root hroot => ?_
  have hother := (List.mem_filter.1 hroot).2
  simpa using hother

theorem meet_of_started_error {s : Surroundings} {e : TimeError}
    (h : ((Call.act (.started i)).perform (t, s)).1 = .error (.time e)) :
    t.meet (.started i, s) = t.touch i := by
  obtain ⟨hopen, hread⟩ := (Tree.act_error_iff t (.started i) s e).1 h
  have hstart : (t.nodeOf i).start = none :=
    Option.isNone_iff_eq_none.1 (Option.isSome_eq_false_iff.1 hopen)
  rw [Tree.meet, Tree.act_started]
  rcases hclock : s.clock.read with ⟨_ | now, later⟩
  · simp [Tree.started, hstart, hclock]
  · rw [hclock] at hread
    cases hread

/-- A start that failed on `t` and left `t'` is as good as never told: the nodes are what they were,
but for a bare one of an identifier that had none, and told again the start has its full effect. -/
structure AsUntold (t : Tree) (i : Identifier) (t' : Tree) : Prop where
  node?_eq : ∀ id, t'.node? id = if id = i.id then some (t.nodeOf i) else t.node? id
  act_eq : ∀ s : Surroundings,
    (Call.act (.started i)).perform (t', s) = (Call.act (.started i)).perform (t, s)
  hear_eq : ∀ (o : Settings) (run : Run) (s : Surroundings),
    (hear (.started i)).perform (⟨o, .running { run with tree := t' }⟩, s) =
      (hear (.started i)).perform (⟨o, .running { run with tree := t }⟩, s)

/-- An end that failed on `t` and left `t'` is noted in the node, which has no finish. Told again it
changes nothing more, and where a report is awaited, the report is given up. -/
structure HalfDone (t : Tree) (i : Identifier) (e : Ending) (t' : Tree) : Prop where
  open_before : (t.nodeOf i).ending = none ∧ (t.nodeOf i).finish = none
  node?_eq : ∀ id, t'.node? id =
    if id = i.id then some { t.nodeOf i with ending := some e } else t.node? id
  act_eq : ∀ (c : Call) (s : Surroundings), c.identifier.id = i.id → c.ending?.isSome = true →
    ∃ s', c.act.perform (t', s) = (.ok (), (t', s')) ∧ s'.clock = s.clock
  hear_eq : ∀ (o : Settings) (run : Run) (s : Surroundings) (c : Call), run.awaits i.id = true →
    c.identifier.id = i.id → c.ending?.isSome = true → ∃ failure run' s',
      (hear c.event).perform (⟨o, .running { run with tree := t' }⟩, s) =
        (.error (.time failure), (⟨o, .running run'⟩, s')) ∧
      run'.awaits i.id = false ∧ s'.disk = s.disk ∧ s'.clock = s.clock

theorem perform_hear_started (o : Settings) (run : Run) (i : Identifier) (s : Surroundings) :
    (hear (.started i)).perform (⟨o, .running run⟩, s) =
      (((run.tree.started i s.clock).answer.mapError .time).map fun _ => (),
        (⟨o, .running { run with tree := (run.tree.started i s.clock).tree }⟩,
          { s with clock := (run.tree.started i s.clock).clock })) := by
  have hstart : (Tree.hearStarted i).perform (run.tree, s) = _ := Tree.perform_hear _ run.tree s
  refine (perform_hear_call (.started i) o run s).trans ?_
  rw [perform_callAct_started o hstart]

theorem asUntold_touch (t : Tree) (i : Identifier) : AsUntold t i (t.touch i) := by
  refine ⟨t.node?_touch i, fun s => ?_, fun o run s => ?_⟩
  · rw [Tree.act_started, Tree.act_started, Tree.started_touch]
  · rw [perform_hear_started, perform_hear_started, Tree.started_touch]

theorem halfDone_of_puts {e : Ending} (hopen : (t.nodeOf i).ending = none)
    (hfinish : (t.nodeOf i).finish = none)
    (hputs : t.Puts i { t.nodeOf i with ending := some e } t') : HalfDone t i e t' := by
  have hnode : t'.node? i.id = some { t.nodeOf i with ending := some e } := by
    rw [hputs.node?_eq, if_pos rfl]
  refine ⟨⟨hopen, hfinish⟩, hputs.node?_eq, fun c s hid hend => ?_,
    fun o run s c hawaits hid hend => ?_⟩
  · obtain ⟨e', he'⟩ := Option.isSome_iff_exists.1 hend
    obtain ⟨s', hact, -, hclock⟩ := Tree.act_repeated (hid ▸ hnode) rfl he' s
    exact ⟨s', hact, hclock⟩
  · obtain ⟨e', he'⟩ := Option.isSome_iff_exists.1 hend
    let later : Run := { run with tree := t' }
    have hcut : Node.IsCut { t.nodeOf i with ending := some e } := ⟨rfl, hfinish⟩
    have hlater : later.tree.node? c.identifier.id = some { t.nodeOf i with ending := some e } :=
      hid ▸ hnode
    have hawaits' : later.awaits c.identifier.id = true := hid ▸ hawaits
    obtain ⟨failure, s', hact, hquiet, hclock⟩ := endAct_cut o hlater hcut hawaits' e' s
    refine ⟨failure, _, s', ?_, awaits_settle later i.id, hquiet.disk_eq, hclock⟩
    rw [perform_hear_call, callAct_of_ending he', hact, hid]

/-- What holds after any calls, each made in surroundings of its own. A node has ended just when it
has a finish, unless an end of its id has failed. A call fails just where it has something to do and
the clock cannot be read; a start that fails is as good as untold, an end that fails is half done. -/
theorem failed_calls (p : Plan) (startedAt? : Option Instant) (xs : List (Call × Surroundings)) :
    let first := Tree.begin p startedAt?
    let t := xs.foldl Tree.meet first
    (∀ id ∈ first.failedEnds xs, ∃ n, t.node? id = some n ∧ n.ending.isSome = true ∧
      n.finish = none) ∧
    (∀ id n, t.node? id = some n → id ∉ first.failedEnds xs →
      (n.ending.isSome = true ↔ n.finish.isSome = true)) ∧
    ∀ (c : Call) (s : Surroundings),
      (∀ e, (c.act.perform (t, s)).1 = .error (.time e) ↔
        c.isDone (t.nodeOf c.identifier) = false ∧ s.clock.read.1 = .error e) ∧
      ∀ f, (c.act.perform (t, s)).1 = .error f →
        (∃ e, f = .time e) ∧
        (∀ i, c = .started i → AsUntold t i (t.meet (c, s))) ∧
        (∀ e, c.ending? = some e → HalfDone t c.identifier e (t.meet (c, s))) ∧
        ∀ (o : Settings) (run : Run), run.tree = t → ∃ s',
          (hear c.event).perform (⟨o, .running run⟩, s) =
            (.error f, (⟨o, .running { run with tree := t.meet (c, s) }⟩, s')) ∧
          s'.disk = s.disk := by
  intro first t
  have hmarks : t.Marks (first.failedEnds xs) := (Tree.begin_marks p startedAt?).foldl xs
  refine ⟨fun id hid => (hmarks.cut_iff id).2 hid, fun id n hn hid => ⟨fun hend => ?_, fun hfinish =>
    hmarks.whole id n hn hfinish⟩, fun c s => ⟨Tree.act_error_iff t c s, fun f hf => ?_⟩⟩
  · rw [← Option.isSome_iff_ne_none.symm]
    exact fun hnone => hid ((hmarks.cut_iff id).1 ⟨n, hn, hend, hnone⟩)
  obtain ⟨e, t', s', rfl, hact, hquiet, -, -, hputs⟩ := hmarks.coherent.act_error hf
  have hmeet : t.meet (c, s) = t' := by rw [Tree.meet, hact]
  refine ⟨⟨e, rfl⟩, ?_, fun ending hend => ?_, ?_⟩
  · rintro i rfl
    rw [meet_of_started_error hf]
    exact asUntold_touch t i
  · have hopen := ((Tree.act_error_iff t c s e).1 hf).1
    rw [Call.isDone_of_ending hend, Option.isSome_eq_false_iff, Option.isNone_iff_eq_none] at hopen
    rw [Tree.half_of_ending hend] at hputs
    rw [hmeet]
    exact halfDone_of_puts hopen (Tree.finish_of_open (hmarks.whole_nodeOf _) hopen) hputs
  · intro o run htree
    have hfails : (c.act.perform (run.tree, s)).1 = .error (.time e) := by rw [htree, hf]
    have hcall := callAct_error o hfails
    rw [htree, hact] at hcall
    refine ⟨s', ?_, hquiet.disk_eq⟩
    rw [perform_hear_call, hcall, hmeet]

/-- A test ends while the clock is stuck, and so does its engine. The test stays without a finish;
the end of the engine is half done, and its start, had it been told, would be as good as untold. -/
theorem failed_calls_stuck :
    let engine : Identifier := ⟨"e", "e", none, .engine⟩
    let test : Identifier := ⟨"e:t", "t", some "e", .test⟩
    let other : Identifier := ⟨"f", "f", none, .engine⟩
    let last : Instant := ⟨253402300799999999, some 0, by decide, by decide⟩
    let good := Surroundings.bare (.fixed .epoch)
    let stuck := Surroundings.bare (.stepping last 1)
    let first := Tree.begin (.ofList 1 [engine, test]) (some .epoch)
    let xs := [(.started test, good), (.finished test .successful, stuck)]
    let t := xs.foldl Tree.meet first
    (∃ n, t.node? "e:t" = some n ∧ n.ending.isSome = true ∧ n.finish = none) ∧
      HalfDone t engine (.finished .successful) (t.meet (.finished engine .successful, stuck)) ∧
      AsUntold t other (t.meet (.started other, stuck)) := by
  intro engine test other last good stuck first xs t
  obtain ⟨hcut, -, hcalls⟩ := failed_calls (.ofList 1 [engine, test]) (some .epoch) xs
  have hlast : stuck.clock.read.1 = .error .outOfRange := by decide
  obtain ⟨hend, hendFails⟩ := hcalls (.finished engine .successful) stuck
  obtain ⟨hstart, hstartFails⟩ := hcalls (.started other) stuck
  obtain ⟨-, -, hhalf, -⟩ := hendFails _ ((hend .outOfRange).2 ⟨by decide, hlast⟩)
  obtain ⟨-, huntold, -, -⟩ := hstartFails _ ((hstart .outOfRange).2 ⟨by decide, hlast⟩)
  exact ⟨hcut "e:t" (by decide), hhalf _ rfl, huntold _ rfl⟩

/-- A call that fails does not leave the nodes as they were. -/
theorem failed_calls_refuted :
    ¬ ∀ (p : Plan) (startedAt? : Option Instant) (xs : List (Call × Surroundings)) (c : Call)
      (s : Surroundings) (f : Fault),
      let t := xs.foldl Tree.meet (Tree.begin p startedAt?)
      (c.act.perform (t, s)).1 = .error f → ∀ id, (t.meet (c, s)).node? id = t.node? id := by
  intro hall
  let engine : Identifier := ⟨"e", "e", none, .engine⟩
  let last : Instant := ⟨253402300799999999, some 0, by decide, by decide⟩
  have hfails : ((Call.act (.finished engine .successful)).perform
      (Tree.begin (.ofList 1 [engine]) (some .epoch), .bare (.stepping last 1))).1 =
        .error (.time .outOfRange) :=
    (Tree.act_error_iff _ _ _ _).2 ⟨by decide, by decide⟩
  have hsame := hall (.ofList 1 [engine]) (some .epoch) [] _ _ _ hfails "e"
  exact absurd hsame (by decide)

end Writer

end TestRun
