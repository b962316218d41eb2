import TestRun.Proofs.Listener.Epochs
import TestRun.Proofs.Tree.Spans
set_option autoImplicit false

namespace TestRun

open Time
open TestRun.Tree (Call endIn startsIn opensAt)

namespace Tree

def openIn (log : List Call) (id : String) : Bool := startsIn log id && (endIn log id).isNone

/-- At no time were two of the ids open together. -/
def Solo (ids : List String) (log : List Call) : Prop :=
  ∀ earlier, earlier <+: log → ∀ a ∈ ids, ∀ b ∈ ids,
    openIn earlier a = true → openIn earlier b = true → a = b

theorem Solo.earlier {ids : List String} {log earlier : List Call} (h : Solo ids log)
    (hearlier : earlier <+: log) : Solo ids earlier :=
  fun pre hpre => h pre (hpre.trans hearlier)

theorem Solo.subset {ids fewer : List String} {log : List Call} (h : Solo ids log)
    (hfewer : fewer ⊆ ids) : Solo fewer log :=
  fun pre hpre a ha b hb => h pre hpre a (hfewer ha) b (hfewer hb)

variable {log : List Call} {c : Call} {a : String}

theorem openIn_concat (log : List Call) (c : Call) (a : String) :
    openIn (log ++ [c]) a = ((startsIn log a || (c.identifier.id == a && c.isStart)) &&
      ((endIn log a).or (if c.identifier.id = a then c.ending? else none)).isNone) := by
  rw [openIn, startsIn_concat, endIn_concat]

theorem openIn_of_concat (h : openIn (log ++ [c]) a = true) :
    openIn log a = true ∨ c.identifier.id = a ∧ c.isStart = true := by
  rw [openIn_concat, Bool.and_eq_true, Bool.or_eq_true, Bool.and_eq_true, beq_iff_eq,
    Option.isNone_iff_eq_none, Option.or_eq_none_iff] at h
  obtain ⟨hstarted | hstarts, hnone, -⟩ := h
  · left
    rw [openIn, hstarted, hnone]
    rfl
  · exact .inr hstarts

theorem openIn_concat_ending (h : c.ending?.isSome = true) :
    openIn (log ++ [c]) c.identifier.id = false := by
  rw [openIn_concat, if_pos rfl, Bool.and_eq_false_iff]
  right
  obtain ⟨e, he⟩ := Option.isSome_iff_exists.1 h
  rw [he]
  cases endIn log c.identifier.id <;> rfl

theorem Solo.concat {ids : List String} (h : Solo ids log) {turn? : Option String}
    (hturn : ∀ a ∈ ids, openIn (log ++ [c]) a = true → turn? = some a) : Solo ids (log ++ [c]) := by
  intro earlier hearlier a ha b hb hopen hopen'
  rcases List.prefix_concat_iff.1 hearlier with rfl | hprefix
  · exact Option.some.inj ((hturn a ha hopen).symm.trans (hturn b hb hopen'))
  · exact h earlier hprefix a ha b hb hopen hopen'

theorem Reflects.openIn_of_isOpen {p : Plan} {startedAt? : Option Instant} {log : List Call}
    {t : Tree} {aware : Bool} (h : Reflects p startedAt? log t) (ht : t.Timed aware) {id : String}
    (hroot : opensAt p startedAt? id = false) (hopen : t.isOpen id = true) :
    openIn log id = true := by
  have hstart := h.start_eq id
  have hending := h.ending_eq id
  unfold isOpen at hopen
  cases hn : t.node? id with
  | none => rw [hn] at hopen; cases hopen
  | some n =>
    rw [hn] at hopen hstart hending
    obtain ⟨hstarted, hunfinished⟩ := Bool.and_eq_true_iff.1 hopen
    have hnone : n.ending = none := by
      cases he : n.ending with
      | none => rfl
      | some e =>
        have := (ht id n hn).finished (he ▸ rfl)
        rw [Option.isNone_iff_eq_none.1 hunfinished] at this
        cases this
    simp only [Option.bind_some] at hstart hending
    rw [hroot, Bool.false_or] at hstart
    rw [openIn, ← hstart, ← hending, hnone, hstarted]
    rfl

end Tree

/-- The times of the report are those that a tree tells up to a moment, of a run since another. -/
structure EngineReport.Measures (r : EngineReport) (t : Tree) (lo hi : Int) : Prop where
  time_eq : r.time = hi - lo
  times_eq : ∀ c ∈ r.testcases, c.time = t.spent c.id hi

namespace Writer

variable {run : Run} {p : Plan} {aware : Bool} {log : List Call} {o : Settings} {s : Surroundings}
  {hi : Int}

theorem Run.measures_of_report (htree : run.tree.Timed aware)
    (hstart : run.startedAt.offset.isSome = aware) {now : Instant}
    (hnow : now.offset.isSome = aware) (hle : run.startedAt.moment ≤ now.moment) {id : String}
    {r : EngineReport} (hr : run.report id (some now) = .ok r) :
    r.Measures run.tree run.startedAt.moment now.moment := by
  obtain ⟨htests, hspan, -⟩ := Run.parts_of_report hr
  constructor
  · rw [elapsed?, elapsed_eq (hstart.trans hnow.symm)] at hspan
    rw [← Except.ok.inj hspan]
    exact Int.max_eq_left (Int.sub_nonneg_of_le hle)
  · have hrows : r.testcases.map (fun c => (c.id, c.time)) =
        (run.tree.plan.testsUnder id).map fun i => (i.id, run.tree.spent i.id now.moment) := by
      refine map_of_mapM_eq_ok (fun test c hc => ?_) htests
      obtain ⟨hduration, hcase⟩ := Run.testcase_eq_ok hc
      rw [htree.duration_eq hnow] at hduration
      rw [hcase, Except.ok.inj hduration]
    intro c hc
    have hrow := List.mem_map_of_mem (f := fun c : Testcase => (c.id, c.time)) hc
    rw [hrows] at hrow
    obtain ⟨test, -, heq⟩ := List.mem_map.1 hrow
    rw [Prod.mk.injEq] at heq
    rw [← heq.1, heq.2]

/-- All that the run recorded lies between its start and a moment, and the clock is past that. -/
structure Run.Timely (run : Run) (hi : Int) (c : Clock) : Prop where
  clocked : run.tree.Clocked run.startedAt.moment hi
  notBefore : c.NotBefore hi

/-- Some time passes while an event makes `run'` of a run and builds reports; what the event itself
did cost no time. -/
structure Run.Passes (run : Run) (hi : Int) (reports : List EngineReport) (run' : Run) (c' : Clock)
    (hi' : Int) : Prop where
  le : hi ≤ hi'
  startedAt_eq : run'.startedAt = run.startedAt
  timely : run'.Timely hi' c'
  neverGoesBack : c'.NeverGoesBack
  spent_eq : ∀ id, run'.tree.spent id hi' = run.tree.spent id hi'
  measures : ∀ r ∈ reports, r.Measures run'.tree run.startedAt.moment hi'

theorem Run.Passes.stays {run' : Run} {c' : Clock} (h : run.Timely hi c')
    (hc : c'.NeverGoesBack) (hstart : run'.startedAt = run.startedAt)
    (ht : run'.tree.Clocked run.startedAt.moment hi ∧
      ∀ id, run'.tree.spent id hi = run.tree.spent id hi) :
    run.Passes hi [] run' c' hi :=
  ⟨Int.le_refl _, hstart, ⟨hstart ▸ ht.1, h.notBefore⟩, hc, ht.2, List.forall_mem_nil _⟩

theorem Run.Passes.reads {run' : Run} {now : Instant} {later c' : Clock}
    {reports : List EngineReport} (h : run.Timely hi s.clock) (hc : s.clock.NeverGoesBack)
    (hread : s.clock.read = (.ok now, later)) (hclock : c' = later)
    (hstart : run'.startedAt = run.startedAt)
    (ht : run'.tree.Clocked run.startedAt.moment now.moment ∧
      ∀ id, run'.tree.spent id now.moment = run.tree.spent id now.moment)
    (hreports : ∀ r ∈ reports, r.Measures run'.tree run.startedAt.moment now.moment) :
    run.Passes hi reports run' c' now.moment := by
  obtain ⟨hlater, hbound⟩ := hc.read hread
  subst hclock
  exact ⟨(h.notBefore.read hread).1, hstart, ⟨hstart ▸ ht.1, hbound⟩, hlater, ht.2, hreports⟩

theorem Run.Timely.endAct (h : run.Timely hi s.clock) (htraces : run.Traces p aware log)
    (hs : s.clock.Lasts aware 1) (hc : s.clock.NeverGoesBack) (o : Settings) (i : Identifier)
    (e : Ending) :
    let after := ((Writer.endAct o i e).perform (run, s)).2
    ∃ hi', run.Passes hi (run.builtAtEnd i e s) after.1 after.2.clock hi' := by
  intro after
  obtain ⟨now, hread, hnow, -⟩ := hs.read
  obtain ⟨t, hact, hputs⟩ := Tree.perform_hearEnded htraces.reflects.coherent hread i e
  have hle := (h.notBefore.read hread).1
  have htimed := (htraces.timed.nodeOf i).closed e hnow
  obtain ⟨hafter, hbuilt⟩ := perform_endAct_ok o hact
  unfold after
  rw [hafter, hbuilt, clock_foldl_publish]
  cases he : (run.tree.nodeOf i).ending with
  | some ending =>
    rw [Node.closed_of_ending he] at hputs
    have hended : run.awaits i.id = false := by
      rw [Bool.eq_false_iff, Ne, htraces.awaits_iff, not_and, ← htraces.reflects.ending_eq,
        ← Tree.ending_nodeOf, he]
      exact fun _ => nofun
    have hnone : ({ run with tree := t } : Run).completion i.id
        ((run.tree.nodeOf i).closed e now).finish = [] :=
      if_neg (ne_true_of_eq_false hended)
    have hclock : (run.tree.surroundingsAfterEnd i s.clock.read.2 s).clock = s.clock := by
      rw [Tree.surroundingsAfterEnd, he, Option.isSome_some, if_pos rfl]
    rw [hnone, hclock]
    exact ⟨hi, .stays h hc rfl (h.clocked.puts (h.clocked.nodeOf i) rfl hputs)⟩
  | none =>
    have hclosed := (h.clocked.later hle).nodeOf i |>.closed (h.clocked.later hle).le e
    have hclock : (run.tree.surroundingsAfterEnd i s.clock.read.2 s).clock = s.clock.read.2 := by
      rw [Tree.surroundingsAfterEnd, he]
      rfl
    refine ⟨now.moment, .reads h hc hread hclock rfl
      ((h.clocked.later hle).puts hclosed.1 hclosed.2 hputs) fun r hr => ?_⟩
    have hreport := (Run.report_of_mem_completion hr).2
    rw [Node.closed_of_none he] at hreport
    have htree : ({ run with tree := t } : Run).tree.Timed aware := htraces.timed.puts htimed hputs
    exact Run.measures_of_report htree htraces.startedAt_kind hnow (h.clocked.later hle).le hreport

theorem Run.Timely.callAct (h : run.Timely hi s.clock) (htraces : run.Traces p aware log)
    (hs : s.clock.Lasts aware 1) (hc : s.clock.NeverGoesBack) (o : Settings) (c : Call) :
    let after := ((Writer.callAct o c).perform (run, s)).2
    ∃ hi', run.Passes hi (built c.event ⟨o, .running run⟩ s) after.1 after.2.clock hi' := by
  intro after
  cases c with
  | register i =>
    exact ⟨hi, .stays h hc rfl ⟨⟨h.clocked.le, h.clocked.within⟩, fun _ => rfl⟩⟩
  | started i =>
    obtain ⟨now, hread, -, -⟩ := hs.read
    obtain ⟨t, hact, hputs⟩ := Tree.perform_hearStarted htraces.reflects.coherent hread i
    have hle := (h.notBefore.read hread).1
    unfold after
    rw [perform_callAct_started o hact]
    cases hstart : (run.tree.nodeOf i).start with
    | some start =>
      rw [Node.begun_of_start hstart] at hputs
      exact ⟨hi, .stays h hc rfl (h.clocked.puts (h.clocked.nodeOf i) rfl hputs)⟩
    | none =>
      have hbegun := (h.clocked.later hle).nodeOf i |>.begun (h.clocked.later hle).le
      exact ⟨now.moment, .reads h hc hread rfl rfl
        ((h.clocked.later hle).puts hbegun.1 hbegun.2 hputs) (List.forall_mem_nil _)⟩
  | skipped i reason? => exact h.endAct htraces hs hc o i _
  | finished i result => exact h.endAct htraces hs hc o i _

theorem Run.Timely.completeRest (h : run.Timely hi s.clock) (htraces : run.Traces p aware log)
    (hs : s.clock.Lasts aware 1) (hc : s.clock.NeverGoesBack) (o : Settings) :
    let after := ((Writer.completeRest o).perform (run, s)).2
    ∃ hi', run.Passes hi (run.builtAtClose s) after.1 after.2.clock hi' := by
  intro after
  obtain ⟨now, hread, hnow, -⟩ := hs.read
  have hle := (h.notBefore.read hread).1
  have hbuilt : run.builtAtClose s = Run.completions now run.pending run := by
    unfold Run.builtAtClose
    rw [hread]
  unfold after
  rw [perform_completeRest_isOk hread, hbuilt]
  cases hpending : run.pending with
  | nil => exact ⟨hi, .stays h hc rfl ⟨h.clocked, fun _ => rfl⟩⟩
  | cons root rest =>
    rw [← hpending, if_neg (by rw [hpending]; exact Bool.false_ne_true)]
    obtain ⟨left, -, hafter⟩ := perform_completeEach o now run.pending run
      { s with clock := s.clock.read.2 }
    rw [hafter, clock_foldl_publish]
    refine ⟨now.moment, .reads h hc hread rfl rfl ⟨h.clocked.later hle, fun _ => rfl⟩
      fun r hr => ?_⟩
    obtain ⟨other, -, hreport⟩ := Run.report_of_mem_completions hr
    exact Run.measures_of_report htraces.timed htraces.startedAt_kind hnow
      (h.clocked.later hle).le hreport

/-- Nodes of which no two were ever open together share what passes. -/
theorem Run.Passes.sum_le {reports : List EngineReport} {run' : Run} {c' : Clock} {hi' : Int}
    (h : run.Passes hi reports run' c' hi') (htraces : run.Traces p aware log) {ids : List String}
    (hnodup : ids.Nodup) (hroots : ∀ root ∈ p.roots, root.id ∉ ids) (hsolo : Tree.Solo ids log)
    (hsum : (ids.map (run.tree.spent · hi)).sum ≤ hi - run.startedAt.moment) :
    (ids.map (run'.tree.spent · hi')).sum ≤ hi' - run.startedAt.moment := by
  have hopen (a : String) (ha : a ∈ ids) (hisOpen : run.tree.isOpen a = true) :
      Tree.openIn log a = true := by
    refine htraces.reflects.openIn_of_isOpen htraces.timed ?_ hisOpen
    rw [opensAt, Bool.and_eq_false_iff]
    refine .inr (List.any_eq_false.2 fun root hroot hid => ?_)
    exact hroots root hroot (beq_iff_eq.1 hid ▸ ha)
  have hpass := run.tree.sum_spent_le hnodup
    (fun a ha b hb hoa hob => hsolo log List.prefix_rfl a ha b hb (hopen a ha hoa) (hopen b hb hob))
    h.le
  calc (ids.map (run'.tree.spent · hi')).sum
    _ = (ids.map (run.tree.spent · hi')).sum :=
        congrArg List.sum (List.map_congr_left fun id _ => h.spent_eq id)
    _ ≤ (ids.map (run.tree.spent · hi)).sum + (hi' - hi) := hpass
    _ ≤ hi' - run.startedAt.moment := by omega

theorem sum_spent_begin (p : Plan) (startedAt : Instant) {ids : List String}
    (hroots : ∀ root ∈ p.roots, root.id ∉ ids) (m : Int) :
    (ids.map ((Tree.begin p (some startedAt)).spent · m)).sum = 0 := by
  apply List.sum_eq_zero
  intro d hd
  obtain ⟨id, hid, rfl⟩ := List.mem_map.1 hd
  rw [Tree.spent]
  rcases Tree.node?_begin p (some startedAt) id with ⟨root, hroot, heq, -⟩ | ⟨-, hnone⟩
  · exact absurd hid (heq ▸ hroots root hroot)
  · rw [hnone]
    rfl

namespace Watch

variable {h : Watch} {host : Host} {span? : Option Span} {n : Nat}

structure Paced (h : Watch) (x : Epoch) (run : Run) (hi : Int) : Prop where
  timely : run.Timely hi h.surroundings.clock
  shares : ∀ ids : List String, ids.Nodup → (∀ root ∈ x.plan.roots, root.id ∉ ids) →
    Tree.Solo ids x.calls →
      (ids.map (run.tree.spent · hi)).sum ≤ hi - run.startedAt.moment

structure Timely (h : Watch) : Prop where
  neverGoesBack : h.surroundings.clock.NeverGoesBack
  paced : ∀ x run, h.epoch? = some x → h.writer.run? = some run → ∃ hi, h.Paced x run hi

theorem clock_hear_planStarted (h : Watch) (p : Plan) :
    (h.hear (.planStarted p)).surroundings.clock = h.surroundings.clock.read.2 := by
  cases hopens : opens h.writer h.surroundings with
  | true =>
    obtain ⟨now, c, rows, hread, hrows⟩ := opens_eq_true hopens
    rw [(hear_opens hread hrows p).clock_eq, hread]
  | false =>
    obtain ⟨f, w', s', hact, -, hclock, -⟩ := hear_planStarted_refused hopens p
    rw [(hear_eq hact).2, hclock]

theorem Traced.passes (ht : h.Traced o host aware span? (n + 1)) (hh : h.Timely) {x : Epoch}
    (hx : h.epoch? = some x) (hrun : h.writer.run? = some run) (hpaced : h.Paced x run hi)
    {e : Event} (he : ∀ p, e ≠ .planStarted p) :
    ∃ run' hi', run.Passes hi (h.built e) run' (h.hear e).surroundings.clock hi' ∧
      ∀ later, (h.hear e).writer.run? = some later → later = run' := by
  have htraces := (ht.kept x hx).traces run hrun
  have hwriter := writer_of_run hrun
  rcases e.shape with ⟨p, rfl⟩ | ⟨p?, rfl⟩ | ⟨c, rfl⟩
  · exact absurd rfl (he p)
  · obtain ⟨hi', hpasses⟩ :=
      hpaced.timely.completeRest htraces ht.lasts_one hh.neverGoesBack h.writer.settings
    have hact := perform_hear_planFinished p? h.writer.settings run h.surroundings
    have hbuilt : h.built (.planFinished p?) = run.builtAtClose h.surroundings := by
      rw [built, hwriter]
      rfl
    rw [← hwriter] at hact
    rw [hbuilt]
    rcases hrest : (completeRest h.writer.settings).perform (run, h.surroundings) with
      ⟨_ | _, run', s'⟩ <;> rw [hrest] at hact hpasses <;> obtain ⟨hafter, hs'⟩ := hear_eq hact <;>
      rw [hs', hafter]
    · exact ⟨run', hi', hpasses, fun later hlater => (Option.some.inj hlater).symm⟩
    · refine ⟨run', hi', hpasses, fun later hlater => ?_⟩
      cases hlater
  · obtain ⟨hi', hpasses⟩ :=
      hpaced.timely.callAct htraces ht.lasts_one hh.neverGoesBack h.writer.settings c
    have hact := perform_hear_call c h.writer.settings run h.surroundings
    rw [← hwriter] at hact hpasses
    obtain ⟨hafter, hs'⟩ := hear_eq hact
    rw [hs', hafter]
    exact ⟨_, hi', hpasses, fun later hlater => (Option.some.inj hlater).symm⟩

theorem Traced.timely_planStarted (ht : h.Traced o host aware span? (n + 1)) (hh : h.Timely)
    (p : Plan) : (h.hear (.planStarted p)).Timely := by
  obtain ⟨now, hread, hnow, -⟩ := ht.clock.read
  obtain ⟨hlater, hbound⟩ := hh.neverGoesBack.read hread
  have hclock := h.clock_hear_planStarted p
  rw [hread] at hclock
  refine ⟨hclock ▸ hlater, fun x run hx hrun => ⟨now.moment, ?_⟩⟩
  -- a run is in progress only if the host could be read, and then it has just begun
  have hreadable := ((ht.hear (.planStarted p)).1.span_of_epoch hx).1
  obtain ⟨rows, hrows⟩ := Host.properties_of_isReadable (h := h.surroundings.host)
    (ht.host_eq ▸ hreadable) h.writer.settings.extra h.writer.settings.withEnvironment
  have hopen := hear_opens hread hrows p
  rw [hopen.epoch?_eq] at hx
  rw [hopen.writer_eq] at hrun
  cases hx
  cases hrun
  refine ⟨⟨Tree.begin_clocked p now, hclock ▸ hbound⟩, fun ids _ hroots _ => ?_⟩
  rw [begun, sum_spent_begin p now hroots]
  exact Int.sub_nonneg_of_le (Int.le_refl _)

theorem Traced.timely_hear (ht : h.Traced o host aware span? (n + 1)) (hh : h.Timely) (e : Event) :
    (h.hear e).Timely := by
  by_cases he : ∃ p, e = .planStarted p
  · obtain ⟨p, rfl⟩ := he
    exact ht.timely_planStarted hh p
  have hother : ∀ p, e ≠ .planStarted p := fun p hp => he ⟨p, hp⟩
  cases hrun : h.writer.run? with
  | none =>
    obtain ⟨-, hwriter, message, hsurroundings⟩ := Watch.hear_idle hrun hother
    refine ⟨hsurroundings ▸ hh.neverGoesBack, fun x run _ hlater => ?_⟩
    rw [hwriter, hrun] at hlater
    cases hlater
  | some run =>
    obtain ⟨x, _, hx, -, hnext⟩ := ht.sound.continues hrun hother
    obtain ⟨hi, hpaced⟩ := hh.paced x run hx hrun
    obtain ⟨run', hi', hpasses, hlast⟩ := ht.passes hh hx hrun hpaced hother
    refine ⟨hpasses.neverGoesBack, fun y later hy hlater => ⟨hi', ?_⟩⟩
    obtain rfl := hlast later hlater
    obtain rfl := Option.some.inj (hnext.epoch?_eq.symm.trans hy)
    refine ⟨hpasses.timely, fun ids hnodup hroots hsolo => ?_⟩
    rw [hpasses.startedAt_eq]
    have hbefore := hsolo.earlier (List.prefix_append _ _)
    exact hpasses.sum_le ((ht.kept x hx).traces run hrun) hnodup hroots hbefore
      (hpaced.shares ids hnodup hroots hbefore)

theorem timely_foldl {events : List Event} (ht : h.Traced o host aware span? (n + events.length))
    (hh : h.Timely) : (events.foldl Watch.hear h).Timely := by
  induction events generalizing h span? with
  | nil => exact hh
  | cons e events ih => exact ih (ht.hear e).1 (ht.timely_hear hh e)

theorem timely_watch (o : Settings) {s : Surroundings} {events : List Event}
    (hs : s.clock.Lasts aware (events.length + n)) (hc : s.clock.NeverGoesBack) :
    (watch o s events).Timely :=
  timely_foldl (traced_fresh o (Nat.add_comm _ _ ▸ hs)) ⟨hc, fun _ _ hx => nomatch hx⟩

theorem Traced.measures (ht : h.Traced o host aware span? (n + 1)) (hh : h.Timely) {e : Event}
    {r : EngineReport} (hr : r ∈ h.built e) :
    ∃ x t lo hi, h.epoch? = some x ∧ r.Measures t lo hi ∧ t.Clocked lo hi ∧
      ∀ ids : List String, ids.Nodup → (∀ root ∈ x.plan.roots, root.id ∉ ids) →
        Tree.Solo ids x.calls → (ids.map (t.spent · hi)).sum ≤ hi - lo := by
  obtain ⟨x, run, -, -, hx, hrun, -, -⟩ := ht.sound.built_lists hr
  have hother : ∀ p, e ≠ .planStarted p := by
    rintro p rfl
    rw [built, built_planStarted] at hr
    cases hr
  obtain ⟨hi, hpaced⟩ := hh.paced x run hx hrun
  obtain ⟨run', hi', hpasses, -⟩ := ht.passes hh hx hrun hpaced hother
  refine ⟨x, run'.tree, _, hi', hx, hpasses.measures r hr,
    hpasses.startedAt_eq ▸ hpasses.timely.clocked, fun ids hnodup hroots hsolo => ?_⟩
  exact hpasses.sum_le ((ht.kept x hx).traces run hrun) hnodup hroots hsolo
    (hpaced.shares ids hnodup hroots hsolo)

end Watch

end Writer

end TestRun
