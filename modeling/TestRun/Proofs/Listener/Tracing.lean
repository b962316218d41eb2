import TestRun.Proofs.Listener.Starting
set_option autoImplicit false

namespace TestRun

open Time Files

namespace Node

structure Timed (aware : Bool) (n : Node) : Prop where
  start : ∀ now, n.start = some now → now.offset.isSome = aware
  finish : ∀ now, n.finish = some now → now.offset.isSome = aware
  finished : n.ending.isSome = true → n.finish.isSome = true

variable {aware : Bool} {n : Node} {now : Instant}

theorem Timed.dated (h : n.Timed aware) : n.Dated fun now => now.offset.isSome = aware :=
  ⟨h.start, h.finish⟩

theorem fresh_timed (i : Identifier) {start : Option Instant}
    (h : ∀ now, start = some now → now.offset.isSome = aware) :
    (Node.fresh i start).Timed aware :=
  ⟨h, (Node.fresh_dated i h).finish, nofun⟩

theorem Timed.begun (h : n.Timed aware) (hnow : now.offset.isSome = aware) :
    (n.begun now).Timed aware :=
  ⟨(h.dated.begun hnow).start, h.finish, h.finished⟩

theorem Timed.closed (h : n.Timed aware) (e : Ending) (hnow : now.offset.isSome = aware) :
    (n.closed e now).Timed aware := by
  have hdated := h.dated.closed e hnow
  refine ⟨hdated.start, hdated.finish, ?_⟩
  cases he : n.ending with
  | some ending =>
    rw [closed_of_ending he]
    exact h.finished
  | none =>
    rw [closed_of_none he]
    exact fun _ => rfl

end Node

namespace Tree

def Timed (aware : Bool) (t : Tree) : Prop := ∀ id n, t.node? id = some n → n.Timed aware

variable {aware : Bool} {t t' : Tree} {i : Identifier} {n : Node}

theorem begin_timed (p : Plan) {now : Instant} (hnow : now.offset.isSome = aware) :
    (begin p (some now)).Timed aware :=
  each_begin (fun i => Node.fresh_timed i fun _ hstart => Option.some.inj hstart ▸ hnow) p

theorem Timed.nodeOf (h : t.Timed aware) (i : Identifier) : (t.nodeOf i).Timed aware :=
  Each.nodeOf (Q := Node.Timed aware) h (Node.fresh_timed i fun _ hstart => nomatch hstart)

theorem Timed.puts (h : t.Timed aware) (hn : n.Timed aware) (ht : t.Puts i n t') :
    t'.Timed aware := Each.puts (Q := Node.Timed aware) h hn ht

theorem Timed.duration_isOk (h : t.Timed aware) (id : String) {now : Instant}
    (hnow : now.offset.isSome = aware) : ∃ d, t.duration id (some now) = .ok d := by
  unfold Tree.duration
  cases hn : t.node? id with
  | none => exact ⟨0, rfl⟩
  | some n =>
    have htimed := h id n hn
    have hfinish : ∃ finish, n.finish.or (some now) = some finish ∧
        finish.offset.isSome = aware := by
      cases hf : n.finish with
      | some finish => exact ⟨finish, rfl, htimed.finish finish hf⟩
      | none => exact ⟨now, rfl, hnow⟩
    obtain ⟨finish, hor, hkind⟩ := hfinish
    dsimp only
    rw [hor]
    cases hs : n.start with
    | some start => exact elapsed_isOk ((htimed.start start hs).trans hkind.symm)
    | none => exact elapsed_isOk rfl

end Tree

theorem mapM_eq_map {ε α β : Type} {f : α → Except ε β} {g : α → β} {xs : List α}
    (h : ∀ a ∈ xs, f a = .ok (g a)) : xs.mapM f = .ok (xs.map g) := by
  induction xs with
  | nil => rfl
  | cons a xs ih =>
    have hhead := h a List.mem_cons_self
    have htail := ih fun b hb => h b (List.mem_cons_of_mem a hb)
    rw [List.mapM_cons, hhead, List.map_cons]
    change (xs.mapM f >>= fun bs => pure (g a :: bs)) = _
    rw [htail]
    rfl

namespace Writer

open TestRun.Tree (Call endIn)

/-- The tree of the run reflects a log of calls on top of a plan, all instants are of one kind, and
the engines still to be reported on are those that have not ended. -/
structure Run.Traces (run : Run) (p : Plan) (aware : Bool) (log : List Call) : Prop where
  reflects : Tree.Reflects p (some run.startedAt) log run.tree
  timed : run.tree.Timed aware
  startedAt_kind : run.startedAt.offset.isSome = aware
  pending_eq : run.pending = p.roots.filter fun root => (endIn log root.id).isNone

variable {run : Run} {p : Plan} {aware : Bool} {log : List Call} {o : Settings} {s : Surroundings}

theorem begun_traces (p : Plan) {now : Instant} (hnow : now.offset.isSome = aware)
    (hostName : String) (properties : List (String × String)) (directory? : Option Path) :
    (begun p now hostName properties directory?).Traces p aware [] :=
  ⟨Tree.begin_reflects p (some now), Tree.begin_timed p hnow, hnow,
    (List.filter_eq_self.2 fun _ _ => rfl).symm⟩

theorem Run.report_isOk (h : run.tree.Timed aware) (hstart : run.startedAt.offset.isSome = aware)
    (id : String) {now : Instant} (hnow : now.offset.isSome = aware) :
    ∃ r, run.report id (some now) = .ok r := by
  have htest : ∀ test ∈ run.tree.plan.testsUnder id, run.testcase id test (some now) =
      .ok ⟨test.id, test.name, id, (run.tree.duration test.id (some now)).toOption.getD 0,
        run.tree.classify test⟩ := by
    intro test _
    obtain ⟨d, hd⟩ := h.duration_isOk test.id hnow
    unfold Run.testcase
    rw [hd]
    rfl
  obtain ⟨span, hspan⟩ := elapsed_isOk (hstart.trans hnow.symm)
  have hspan' : elapsed? (some run.startedAt) (some now) = .ok span := hspan
  unfold Run.report
  rw [mapM_eq_map htest, hspan']
  exact ⟨_, rfl⟩

def Closes (p : Plan) (log : List Call) (c : Call) : Prop :=
  c.ending?.isSome = true ∧ (∃ root ∈ p.roots, root.id = c.identifier.id) ∧
    endIn log c.identifier.id = none

instance (p : Plan) (log : List Call) (c : Call) : Decidable (Closes p log c) :=
  inferInstanceAs (Decidable (_ ∧ _ ∧ _))

theorem not_closes_of_ending {c : Call} (hc : c.ending? = none) : ¬ Closes p log c := by
  intro h
  have hsome := h.1
  rw [hc] at hsome
  cases hsome

theorem pending_concat (p : Plan) (log : List Call) {c : Call} {e : Ending}
    (hc : c.ending? = some e) :
    (p.roots.filter fun root => (endIn (log ++ [c]) root.id).isNone) =
      (p.roots.filter fun root => (endIn log root.id).isNone).filter
        (·.id != c.identifier.id) := by
  rw [List.filter_filter]
  congr 1
  funext root
  rw [Tree.endIn_concat, hc]
  by_cases hid : c.identifier.id = root.id
  · rw [if_pos hid, hid, bne_self_eq_false, Bool.false_and]
    cases endIn log root.id <;> rfl
  · have hne : (root.id != c.identifier.id) = true := by simpa using Ne.symm hid
    rw [if_neg hid, Option.or_none, hne, Bool.true_and]

theorem Run.Traces.awaits_iff (h : run.Traces p aware log) (id : String) :
    run.awaits id = true ↔ (∃ root ∈ p.roots, root.id = id) ∧ endIn log id = none := by
  unfold Run.awaits
  rw [h.pending_eq, List.any_eq_true]
  constructor
  · rintro ⟨root, hroot, hid⟩
    obtain ⟨hmem, hnone⟩ := List.mem_filter.1 hroot
    obtain rfl := beq_iff_eq.1 hid
    exact ⟨⟨root, hmem, rfl⟩, Option.isNone_iff_eq_none.1 hnone⟩
  · rintro ⟨⟨root, hmem, rfl⟩, hnone⟩
    refine ⟨root, List.mem_filter.2 ⟨hmem, ?_⟩, beq_self_eq_true _⟩
    rw [hnone]
    rfl

theorem Run.Traces.closes_iff (h : run.Traces p aware log) {c : Call} {e : Ending}
    (hc : c.ending? = some e) : Closes p log c ↔ run.awaits c.identifier.id = true := by
  rw [h.awaits_iff]
  unfold Closes
  rw [hc]
  exact and_iff_right rfl

def closedBy (p : Plan) (log : List Call) (c : Call) : List String :=
  if Closes p log c then [c.identifier.id] else []

theorem Run.Traces.complete (h : run.Traces p aware log) {c : Call} {e : Ending}
    (hc : c.ending? = some e) {t : Tree}
    (ht : Tree.Reflects p (some run.startedAt) (log ++ [c]) t) (htimed : t.Timed aware)
    {finish : Instant} (hfinish : finish.offset.isSome = aware) (o : Settings)
    (s : Surroundings) :
    let run₁ : Run := { run with tree := t }
    (Writer.complete o c.identifier.id (some finish)).perform (run₁, s) =
        (.ok (), (run₁.settle c.identifier.id, (run₁.completion c.identifier.id
          (some finish)).foldl (publish o.indent run.directory?) s)) ∧
      (run₁.settle c.identifier.id).Traces p aware (log ++ [c]) ∧
      (run₁.completion c.identifier.id (some finish)).map (·.id) = closedBy p log c := by
  intro run₁
  have hpending : (run₁.settle c.identifier.id).pending =
      p.roots.filter fun root => (endIn (log ++ [c]) root.id).isNone := by
    rw [pending_concat p log hc, ← h.pending_eq]
    rfl
  have htraces : (run₁.settle c.identifier.id).Traces p aware (log ++ [c]) :=
    ⟨ht, htimed, h.startedAt_kind, hpending⟩
  have hcloses : Closes p log c ↔ run₁.awaits c.identifier.id = true := h.closes_iff hc
  have hafter := perform_complete o run₁ c.identifier.id (some finish) s
  suffices hok : ((Writer.complete o c.identifier.id (some finish)).perform (run₁, s)).1 =
      .ok () ∧ (run₁.completion c.identifier.id (some finish)).map (·.id) = closedBy p log c from
    ⟨Prod.ext hok.1 hafter, htraces, hok.2⟩
  unfold Run.completion closedBy
  cases hawaits : run₁.awaits c.identifier.id with
  | false =>
    rw [perform_complete_other hawaits, if_neg Bool.false_ne_true, if_neg fun hclose => ?_]
    · exact ⟨rfl, rfl⟩
    · rw [hcloses, hawaits] at hclose
      exact Bool.false_ne_true hclose
  | true =>
    have htimed₁ : run₁.tree.Timed aware := htimed
    obtain ⟨r, hr⟩ := Run.report_isOk htimed₁ h.startedAt_kind c.identifier.id hfinish
    rw [perform_complete_ok hawaits hr, if_pos rfl, if_pos (hcloses.2 hawaits), hr]
    exact ⟨rfl, congrArg (fun id => [id]) (Run.report_eq_ok hr).1⟩

/-- An end succeeds where the clock can be read. It builds just the report that it has to, and leaves
the clock alone if the node had ended before. -/
theorem Run.Traces.endAct_of_read (h : run.Traces p aware log) {c : Call} {e : Ending}
    (hc : c.ending? = some e) (hstart : c.isStart = false) {now : Instant} {later : Clock}
    (hread : s.clock.read = (.ok now, later)) (hnow : now.offset.isSome = aware) (o : Settings) :
    ∃ run' s', (Writer.endAct o c.identifier e).perform (run, s) = (.ok (), (run', s')) ∧
      run'.Traces p aware (log ++ [c]) ∧
      run.tree.Puts c.identifier ((run.tree.nodeOf c.identifier).closed e now) run'.tree ∧
      s'.clock = (if (run.tree.nodeOf c.identifier).ending.isSome then s.clock else later) ∧
      (run.builtAtEnd c.identifier e s).map (·.id) = closedBy p log c := by
  obtain ⟨t, hact, hputs⟩ :=
    Tree.perform_hearEnded h.reflects.coherent hread c.identifier e
  have htimed := (h.timed.nodeOf c.identifier).closed e hnow
  have ht := h.reflects.ended hc hstart hputs
  obtain ⟨finish, hfinish⟩ :=
    Option.isSome_iff_exists.1 (htimed.finished (Node.isSome_ending_closed _ e now))
  let s₁ := run.tree.surroundingsAfterEnd c.identifier later s
  obtain ⟨hcomplete, htraces, hids⟩ :=
    h.complete hc ht (h.timed.puts htimed hputs) (htimed.finish finish hfinish) o s₁
  rw [← hfinish] at hcomplete
  refine ⟨_, _, (Act.perform_bind_ok (perform_withTree hact) _).trans hcomplete, htraces, hputs, ?_,
    ?_⟩
  · rw [clock_foldl_publish]
    unfold s₁ Tree.surroundingsAfterEnd
    split <;> rfl
  · unfold Run.builtAtEnd
    rw [hact]
    dsimp only
    rw [hfinish]
    exact hids

theorem Run.Traces.keep (h : run.Traces p aware log) {c : Call} (hc : c.ending? = none)
    {t : Tree} (ht : Tree.Reflects p (some run.startedAt) (log ++ [c]) t)
    (htimed : t.Timed aware) : ({ run with tree := t } : Run).Traces p aware (log ++ [c]) := by
  refine ⟨ht, htimed, h.startedAt_kind, ?_⟩
  rw [show ({ run with tree := t } : Run).pending = run.pending from rfl, h.pending_eq]
  congr 1
  funext root
  rw [Tree.endIn_concat, hc, ite_self, Option.or_none]

theorem Run.Traces.callAct_of_read (h : run.Traces p aware log) (c : Call) {now : Instant}
    {later : Clock} (hread : s.clock.read = (.ok now, later)) (hnow : now.offset.isSome = aware)
    (o : Settings) :
    ∃ run' s', (Writer.callAct o c).perform (run, s) = (.ok (), (run', s')) ∧
      run'.Traces p aware (log ++ [c]) ∧ c.Moves now run.tree run'.tree ∧
      s'.clock = (if c.isDone (run.tree.nodeOf c.identifier) then s.clock else later) ∧
      (built c.event ⟨o, .running run⟩ s).map (·.id) = closedBy p log c := by
  have hquiet (hc : c.ending? = none) : [] = closedBy p log c :=
    (if_neg (not_closes_of_ending hc)).symm
  cases c with
  | register i =>
    exact ⟨_, s, rfl, h.keep rfl (h.reflects.register i) h.timed, rfl, rfl, hquiet rfl⟩
  | started i =>
    obtain ⟨t, hact, hputs⟩ := Tree.perform_hearStarted h.reflects.coherent hread i
    have htimed := h.timed.puts ((h.timed.nodeOf i).begun hnow) hputs
    have hperform : (Writer.callAct o (.started i)).perform (run, s) =
        (.ok (), ({ run with tree := t },
          { s with clock := if (run.tree.nodeOf i).start.isSome then s.clock else later })) :=
      perform_callAct_started o hact
    exact ⟨_, _, hperform, h.keep rfl (h.reflects.started hputs) htimed, hputs, rfl, hquiet rfl⟩
  | skipped i reason? => exact h.endAct_of_read (c := .skipped i reason?) rfl rfl hread hnow o
  | finished i result => exact h.endAct_of_read (c := .finished i result) rfl rfl hread hnow o

theorem Run.Traces.callAct (h : run.Traces p aware log) (c : Call) (hs : s.clock.Lasts aware 1)
    (o : Settings) :
    ∃ run' s', (Writer.callAct o c).perform (run, s) = (.ok (), (run', s')) ∧
      run'.Traces p aware (log ++ [c]) ∧ s.clock.Later s'.clock ∧
      (built c.event ⟨o, .running run⟩ s).map (·.id) = closedBy p log c := by
  obtain ⟨now, hread, hnow, -⟩ := hs.read
  obtain ⟨run', s', hact, htraces, -, hclock, hids⟩ := h.callAct_of_read c hread hnow o
  refine ⟨run', s', hact, htraces, ?_, hids⟩
  rw [hclock]
  split
  · exact .inl rfl
  · exact .inr rfl

theorem nodup_roots (p : Plan) : (p.roots.map (·.id)).Nodup :=
  ((List.filter_sublist).map _).nodup p.ids_nodup

theorem completeEach_isOk {now : Instant} (o : Settings) (roots : List Identifier) (run : Run)
    (s : Surroundings) (hok : ∀ id, ∃ r, run.report id (some now) = .ok r)
    (hnodup : (roots.map (·.id)).Nodup) (hawaits : ∀ root ∈ roots, run.awaits root.id = true) :
    ((roots.forM fun root => complete o root.id (some now)).perform (run, s)).1 = .ok () ∧
      (Run.completions now roots run).map (·.id) = roots.map (·.id) := by
  induction roots generalizing run s with
  | nil => exact ⟨rfl, rfl⟩
  | cons root rest ih =>
    have hawait := hawaits root List.mem_cons_self
    obtain ⟨r, hr⟩ := hok root.id
    rw [List.map_cons, List.nodup_cons] at hnodup
    have hrest : ∀ other ∈ rest, (run.settle root.id).awaits other.id = true := by
      intro other hother
      obtain ⟨found, hfound, hid⟩ :=
        List.any_eq_true.1 (hawaits other (List.mem_cons_of_mem _ hother))
      refine List.any_eq_true.2 ⟨found, List.mem_filter.2 ⟨hfound, ?_⟩, hid⟩
      rw [beq_iff_eq.1 hid, bne_iff_ne]
      exact fun heq => hnodup.1 (heq ▸ List.mem_map_of_mem hother)
    obtain ⟨hact, hids⟩ := ih (run.settle root.id) (publish o.indent run.directory? s r) hok
      hnodup.2 hrest
    unfold Run.completions
    rw [Act.perform_forM_cons, Act.perform_bind_ok (perform_complete_ok hawait hr o s),
      if_pos hawait, hr, List.map_cons, List.map_cons, hids, (Run.report_eq_ok hr).1]
    exact ⟨hact, rfl⟩

theorem perform_completeRest_isOk {now : Instant} {c : Clock} (hread : s.clock.read = (.ok now, c))
    (o : Settings) (run : Run) :
    (Writer.completeRest o).perform (run, s) =
      if run.pending.isEmpty then (.ok (), (run, s))
      else (run.pending.forM fun root => complete o root.id (some now)).perform
        (run, { s with clock := c }) := by
  unfold Writer.completeRest
  rw [Hearing.perform_state_bind]
  dsimp only
  cases run.pending.isEmpty with
  | true => rfl
  | false =>
    have hout : (Hearing.outside Surroundings.readClock : Hearing Run Instant).perform (run, s) =
        (.ok now, (run, { s with clock := c })) :=
      Hearing.perform_outside_eq (Surroundings.perform_readClock hread)
    simp only [Bool.not_false, if_true]
    rw [Act.perform_bind_ok hout]
    rfl

theorem Run.Traces.completeRest (h : run.Traces p aware log) (hs : s.clock.Lasts aware 1)
    (o : Settings) :
    ((Writer.completeRest o).perform (run, s)).1 = .ok () ∧
      s.clock.Later ((Writer.completeRest o).perform (run, s)).2.2.clock ∧
      (run.builtAtClose s).map (·.id) =
        (p.roots.filter fun root => (endIn log root.id).isNone).map (·.id) := by
  obtain ⟨now, hread, hnow, -⟩ := hs.read
  have hnodup : (run.pending.map (·.id)).Nodup := by
    rw [h.pending_eq]
    exact ((List.filter_sublist).map _).nodup (nodup_roots p)
  have hawaits : ∀ root ∈ run.pending, run.awaits root.id = true :=
    fun root hroot => List.any_eq_true.2 ⟨root, hroot, beq_self_eq_true _⟩
  obtain ⟨hact, hids⟩ := completeEach_isOk o run.pending run
    { s with clock := s.clock.read.2 }
    (fun id => Run.report_isOk h.timed h.startedAt_kind id hnow) hnodup hawaits
  obtain ⟨left, -, hafter⟩ := perform_completeEach o now run.pending run
    { s with clock := s.clock.read.2 }
  have hbuilt : run.builtAtClose s = Run.completions now run.pending run := by
    unfold Run.builtAtClose
    rw [hread]
  rw [perform_completeRest_isOk hread, hbuilt, ← h.pending_eq]
  split
  · exact ⟨rfl, .inl rfl, hids⟩
  · rw [hafter, clock_foldl_publish]
    exact ⟨hact, .inr rfl, hids⟩

end Writer

end TestRun
