import Mathlib
import TestRun.Proofs.Listener.Starting
import TestRun.Proofs.Plan.Descent
set_option autoImplicit false

/-!
# Watching a writer

A writer hears events in any order, with any clock and on any host, and beside it a record is kept
of the last run that began: the calls that were heard in it and the reports that were built. What
the writer knows of a run always agrees with this record, so each report lists the tests that the
plan has below the engine by then, and no test is listed for two engines.
-/

namespace TestRun

open TestRun.Tree (Call planAfter)

def Event.call? : Event → Option Call
  | .registered i => some (.register i)
  | .started i => some (.started i)
  | .skipped i reason? => some (.skipped i reason?)
  | .finished i result => some (.finished i result)
  | .planStarted _ | .planFinished _ => none

@[simp] theorem call?_event (c : Call) : c.event.call? = some c := by
  cases c <;> rfl

theorem Event.shape (e : Event) :
    (∃ p, e = .planStarted p) ∨ (∃ p?, e = .planFinished p?) ∨ ∃ c : Call, e = c.event := by
  cases e with
  | planStarted p => exact .inl ⟨p, rfl⟩
  | planFinished p? => exact .inr (.inl ⟨p?, rfl⟩)
  | registered i => exact .inr (.inr ⟨.register i, rfl⟩)
  | started i => exact .inr (.inr ⟨.started i, rfl⟩)
  | skipped i reason? => exact .inr (.inr ⟨.skipped i reason?, rfl⟩)
  | finished i result => exact .inr (.inr ⟨.finished i result, rfl⟩)

namespace EngineReport

/-- The report is on this engine and has one testcase for each test that the plan has below it. -/
structure Lists (r : EngineReport) (p : Plan) (root : Identifier) : Prop where
  id_eq : r.id = root.id
  exists_tests : ∃ tests, p.ListsTests root tests ∧
    r.testcases.map (fun c => (c.id, c.name, c.className)) =
      tests.map fun t => (t.id, t.name, root.id)

def Under (r : EngineReport) (p : Plan) (root : Identifier) : Prop :=
  ∀ c ∈ r.testcases, ∃ t ∈ p.identifiers, t.id = c.id ∧ p.Above t root

variable {r r' : EngineReport} {p q : Plan} {root root' : Identifier}

theorem Lists.under (h : r.Lists p root) : r.Under p root := by
  intro c hc
  obtain ⟨tests, htests, heq⟩ := h.exists_tests
  have hmem : (c.id, c.name, c.className) ∈ tests.map fun t => (t.id, t.name, root.id) := by
    rw [← heq]
    exact List.mem_map_of_mem hc
  obtain ⟨t, ht, htc⟩ := List.mem_map.1 hmem
  obtain ⟨hheld, -, habove⟩ := (htests.mem_iff t).1 ht
  exact ⟨t, hheld, congrArg Prod.fst htc, habove⟩

theorem Under.mono (h : r.Under p root) (hq : p.identifiers ⊆ q.identifiers) :
    r.Under q root := by
  intro c hc
  obtain ⟨t, ht, hid, habove⟩ := h c hc
  exact ⟨t, hq ht, hid, habove.mono hq⟩

theorem Under.disjoint (h : r.Under p root) (h' : r'.Under p root') (hroot : root.isRoot = true)
    (hroot' : root'.isRoot = true) (hne : root ≠ root') :
    ∀ c ∈ r.testcases, ∀ c' ∈ r'.testcases, c.id ≠ c'.id := by
  intro c hc c' hc' heq
  obtain ⟨t, ht, hid, habove⟩ := h c hc
  obtain ⟨t', ht', hid', habove'⟩ := h' c' hc'
  obtain rfl := Plan.eq_of_id_eq ht ht' (hid.trans (heq.trans hid'.symm))
  have hwithin : p.Within t root := habove.to_reflTransGen
  rcases hwithin.total habove'.to_reflTransGen with hup | hup
  · exact hne (hup.eq_of_top (p.parent?_of_isRoot hroot))
  · exact hne (hup.eq_of_top (p.parent?_of_isRoot hroot')).symm

end EngineReport

namespace Writer

structure Span where
  plan : Plan
  calls : List Call
  closed : Bool

/-- A run as it is watched: also the surroundings in which its start was heard, and the reports that
were built in it. -/
structure Epoch extends Span where
  start : Surroundings
  reports : List EngineReport

def Epoch.next (e : Event) (answer : Except Fault Unit) (built : List EngineReport) (x : Epoch) :
    Epoch :=
  if x.closed then x
  else { x with
    calls := x.calls ++ e.call?.toList
    closed := e.call?.isNone && answer.isOk
    reports := x.reports ++ built }

/-- A writer, its surroundings, and the record of the last run that began. -/
structure Watch where
  writer : Writer
  surroundings : Surroundings
  epoch? : Option Epoch

namespace Watch

def built (h : Watch) (e : Event) : List EngineReport := Writer.built e h.writer h.surroundings

def hear (h : Watch) (e : Event) : Watch :=
  let after := (Writer.hear e).perform (h.writer, h.surroundings)
  ⟨after.2.1, after.2.2,
    match e with
    | .planStarted p =>
      if opens h.writer h.surroundings then some ⟨⟨p, [], false⟩, h.surroundings, []⟩ else h.epoch?
    | e => h.epoch?.map (Epoch.next e after.1 (h.built e))⟩

end Watch

def watch (o : Settings) (s : Surroundings) (events : List Event) : Watch :=
  events.foldl Watch.hear ⟨.fresh o, s, none⟩

theorem watch_append (o : Settings) (s : Surroundings) (events later : List Event) :
    watch o s (events ++ later) = later.foldl Watch.hear (watch o s events) := List.foldl_append

def Span.planWith (x : Span) (e : Event) : Plan := planAfter x.plan (x.calls ++ e.call?.toList)

/-- What the run in progress has to do with the record of it. -/
structure Epoch.Holds (x : Epoch) (run : Run) : Prop where
  opened : x.closed = false
  plan_eq : run.tree.plan = planAfter x.plan x.calls
  coherent : run.tree.Coherent
  pending : run.pending ⊆ x.plan.roots

namespace Watch

structure Sound (h : Watch) : Prop where
  running : ∀ run, h.writer.run? = some run → ∃ x, h.epoch? = some x ∧ x.Holds run
  idle : h.writer.run? = none → ∀ x, h.epoch? = some x → x.closed = true
  filed : ∀ x, h.epoch? = some x → ∀ r ∈ x.reports,
    ∃ root ∈ x.plan.roots, r.id = root.id ∧ r.Under (planAfter x.plan x.calls) root

end Watch

theorem Run.lists_of_report {run : Run} {p : Plan} {root : Identifier}
    {finishedAt? : Option Time.Instant} {r : EngineReport}
    (hr : run.report root.id finishedAt? = .ok r) (hroot : root ∈ p.roots)
    (hp : p.identifiers ⊆ run.tree.plan.identifiers) : r.Lists run.tree.plan root := by
  obtain ⟨hid, htestcases, -⟩ := Run.report_eq_ok hr
  obtain ⟨hmem, hisRoot⟩ := List.mem_filter.1 hroot
  refine ⟨hid, _, Plan.testsUnder_listsTests (hp hmem) (Plan.parent?_of_isRoot _ hisRoot), ?_⟩
  have hprojected := congrArg (List.map fun c : String × String × String × Verdict =>
    (c.1, c.2.1, c.2.2.1)) htestcases
  rw [List.map_map, List.map_map] at hprojected
  exact hprojected

theorem Epoch.Holds.lists {x : Epoch} {run run' : Run} (hx : x.Holds run) {e : Event}
    (hplan : run'.tree.plan = x.planWith e) {reports : List EngineReport}
    (hgives : run'.Gives run.pending reports) :
    ∀ r ∈ reports, ∃ root ∈ x.plan.roots, r.Lists (x.planWith e) root := by
  intro r hr
  obtain ⟨root, hroot, finishedAt?, hreport⟩ := hgives r hr
  have hsub : x.plan.identifiers ⊆ run'.tree.plan.identifiers := by
    rw [hplan]
    exact Tree.identifiers_subset_planAfter _ _
  exact ⟨root, hx.pending hroot, hplan ▸ Run.lists_of_report hreport (hx.pending hroot) hsub⟩

namespace Watch

/-- An event other than the start of a plan is heard while a run is in progress: the run goes on
as `run'`, unless the event ends it. -/
structure Continues (h : Watch) (e : Event) (x : Epoch) (run run' : Run) : Prop where
  moves : run.Moves h.writer.settings h.surroundings (h.built e) run' (h.hear e).surroundings
  plan_eq : run'.tree.plan = x.planWith e
  coherent : run'.tree.Coherent
  epoch?_eq : (h.hear e).epoch? = some { x with
    calls := x.calls ++ e.call?.toList
    closed := (h.hear e).writer.run?.isNone
    reports := x.reports ++ h.built e }
  run?_eq : (h.hear e).writer.run? = none ∨ (h.hear e).writer.run? = some run'

variable {o : Settings} {s : Surroundings} {x : Epoch} {run : Run}

theorem call_ne_planStarted (c : Call) (p : Plan) : c.event ≠ .planStarted p := by
  cases c <;> exact nofun

theorem planFinished_ne_planStarted (p? : Option Plan) (p : Plan) :
    Event.planFinished p? ≠ .planStarted p := by
  cases p? <;> exact nofun

theorem epoch?_hear {h : Watch} {e : Event} (he : ∀ p, e ≠ .planStarted p) :
    (h.hear e).epoch? = h.epoch?.map (Epoch.next e
      ((Writer.hear e).perform (h.writer, h.surroundings)).1 (h.built e)) := by
  cases e with
  | planStarted p => exact absurd rfl (he p)
  | planFinished p? | registered i | started i | skipped i reason? | finished i result => rfl

theorem next_of_open (hx : x.closed = false) (e : Event) (answer : Except Fault Unit)
    (built : List EngineReport) : x.next e answer built = { x with
      calls := x.calls ++ e.call?.toList
      closed := e.call?.isNone && answer.isOk
      reports := x.reports ++ built } := by
  unfold Epoch.next
  rw [hx]
  rfl

theorem hear_eq {h : Watch} {e : Event} {answer : Except Fault Unit} {w : Writer}
    {s : Surroundings}
    (hact : (Writer.hear e).perform (h.writer, h.surroundings) = (answer, (w, s))) :
    (h.hear e).writer = w ∧ (h.hear e).surroundings = s := by
  unfold hear
  rw [hact]
  exact ⟨rfl, rfl⟩

theorem continues_of_moves (hx : x.Holds run) {e : Event} (he : ∀ p, e ≠ .planStarted p)
    {answer : Except Fault Unit} {w : Writer} {run' : Run} {s' : Surroundings}
    (hact : (Writer.hear e).perform (⟨o, .running run⟩, s) = (answer, (w, s')))
    (hmoves : run.Moves o s (Writer.built e ⟨o, .running run⟩ s) run' s')
    (hplan : run'.tree.plan = x.planWith e) (hcoherent : run'.tree.Coherent)
    (hrun : w.run? = if e.call?.isNone && answer.isOk then none else some run') :
    Continues ⟨⟨o, .running run⟩, s, some x⟩ e x run run' := by
  let h : Watch := ⟨⟨o, .running run⟩, s, some x⟩
  have hheard : (Writer.hear e).perform (h.writer, h.surroundings) = (answer, (w, s')) := hact
  obtain ⟨hwriter, hsurroundings⟩ := hear_eq hheard
  refine ⟨hsurroundings ▸ hmoves, hplan, hcoherent, ?_, ?_⟩
  · have hclosed : (e.call?.isNone && answer.isOk) = w.run?.isNone := by
      rw [hrun]
      cases e.call?.isNone && answer.isOk <;> rfl
    rw [epoch?_hear he, Option.map_some, next_of_open hx.opened, hheard, hwriter, hclosed]
  · rw [hwriter, hrun]
    split
    · exact .inl rfl
    · exact .inr rfl

theorem continues_call (o : Settings) (s : Surroundings) (hx : x.Holds run) (c : Call) :
    ∃ run', Continues ⟨⟨o, .running run⟩, s, some x⟩ c.event x run run' := by
  obtain ⟨hmoves, hgrows⟩ := moves_callAct o hx.coherent c s
  refine ⟨_, continues_of_moves hx (call_ne_planStarted c) (perform_hear_call c o run s) hmoves ?_
    hgrows.coherent ?_⟩
  · rw [hgrows.plan_eq, hx.plan_eq, Span.planWith, call?_event]
    exact (Tree.planAfter_concat _ _ _).symm
  · rw [call?_event]
    rfl

theorem continues_planFinished (o : Settings) (s : Surroundings) (hx : x.Holds run)
    (p? : Option Plan) :
    ∃ run', Continues ⟨⟨o, .running run⟩, s, some x⟩ (.planFinished p?) x run run' := by
  obtain ⟨hmoves, htree⟩ := moves_completeRest o run s
  have hact := perform_hear_planFinished p? o run s
  rcases hrest : (completeRest o).perform (run, s) with ⟨answer, run', s'⟩
  rw [hrest] at hmoves htree hact
  have hplan : run'.tree.plan = x.planWith (.planFinished p?) := by
    rw [htree, hx.plan_eq, Span.planWith, Event.call?, Option.toList_none, List.append_nil]
  cases answer with
  | ok _ =>
    exact ⟨run', continues_of_moves hx (planFinished_ne_planStarted p?) hact hmoves hplan
      (htree ▸ hx.coherent) rfl⟩
  | error f =>
    exact ⟨run', continues_of_moves hx (planFinished_ne_planStarted p?) hact hmoves hplan
      (htree ▸ hx.coherent) rfl⟩

theorem Sound.continues {h : Watch} (hs : h.Sound) (hrun : h.writer.run? = some run) {e : Event}
    (he : ∀ p, e ≠ .planStarted p) :
    ∃ x run', h.epoch? = some x ∧ x.Holds run ∧ h.Continues e x run run' := by
  obtain ⟨⟨o, phase⟩, s, epoch?⟩ := h
  obtain ⟨x, rfl, hx⟩ := hs.running run hrun
  cases phase with
  | notStarted | finished => cases hrun
  | running run =>
    cases hrun
    rcases e.shape with ⟨p, rfl⟩ | ⟨p?, rfl⟩ | ⟨c, rfl⟩
    · exact absurd rfl (he p)
    · obtain ⟨run', hcontinues⟩ := continues_planFinished o s hx p?
      exact ⟨x, run', rfl, hx, hcontinues⟩
    · obtain ⟨run', hcontinues⟩ := continues_call o s hx c
      exact ⟨x, run', rfl, hx, hcontinues⟩

theorem hear_idle {h : Watch} (hrun : h.writer.run? = none) {e : Event}
    (he : ∀ p, e ≠ .planStarted p) :
    h.built e = [] ∧ (h.hear e).writer = h.writer ∧
      ∃ message, (h.hear e).surroundings = { h.surroundings with
        log := h.surroundings.log.push ⟨.warning, message⟩ } := by
  obtain ⟨message, hact⟩ := perform_hear_idle he hrun h.surroundings
  obtain ⟨hwriter, hsurroundings⟩ := hear_eq hact
  exact ⟨built_idle e hrun _, hwriter, message, hsurroundings⟩

theorem epoch?_hear_idle {h : Watch} (hs : h.Sound) (hrun : h.writer.run? = none) {e : Event}
    (he : ∀ p, e ≠ .planStarted p) : (h.hear e).epoch? = h.epoch? := by
  rw [epoch?_hear he]
  cases hx : h.epoch? with
  | none => rfl
  | some x =>
    rw [Option.map_some, Epoch.next, if_pos (hs.idle hrun x hx)]

theorem begun_holds (p : Plan) (now : Time.Instant) (hostName : String)
    (properties : List (String × String)) (directory? : Option Files.Path) (s : Surroundings) :
    Epoch.Holds ⟨⟨p, [], false⟩, s, []⟩ (begun p now hostName properties directory?) :=
  ⟨rfl, rfl, Tree.begin_coherent p (some now), List.Subset.refl _⟩

/-- The start of a plan begins a run at an instant, with these properties of the host, and opens a
new record. -/
structure Opens (h : Watch) (p : Plan) (now : Time.Instant)
    (rows : List (Text.CodeText × Text.CodeText)) (later : Time.Clock) : Prop where
  writer_eq : (h.hear (.planStarted p)).writer = ⟨h.writer.settings,
    .running (begun p now (h.writer.settings.hostName h.surroundings.host) (shownProperties rows)
      (h.writer.settings.opened h.surroundings.disk).1)⟩
  epoch?_eq : (h.hear (.planStarted p)).epoch? = some ⟨⟨p, [], false⟩, h.surroundings, []⟩
  disk_eq : (h.hear (.planStarted p)).surroundings.disk =
    (h.writer.settings.opened h.surroundings.disk).2
  clock_eq : (h.hear (.planStarted p)).surroundings.clock = later
  host_eq : (h.hear (.planStarted p)).surroundings.host = h.surroundings.host
  sink_eq : (h.hear (.planStarted p)).surroundings.sink =
    h.surroundings.sink ++ h.writer.settings.openingText h.surroundings.disk
  isOk : h.writer.settings.path? ≠ none →
    ((Writer.hear (.planStarted p)).perform (h.writer, h.surroundings)).1 = .ok ()

theorem hear_opens {h : Watch} {now : Time.Instant} {c : Time.Clock}
    {rows : List (Text.CodeText × Text.CodeText)}
    (hread : h.surroundings.clock.read = (.ok now, c))
    (hrows : h.surroundings.host.properties h.writer.settings.extra
      h.writer.settings.withEnvironment = .ok rows) (p : Plan) : h.Opens p now rows c := by
  have hopens : opens h.writer h.surroundings = true := by
    unfold opens
    rw [hread, hrows]
    rfl
  obtain ⟨answer, s₁, s', hquiet, hclock₁, hopen, hact⟩ := hear_planStarted_begun hread hrows p
  obtain ⟨answer', s'', hopen', hdirectory, hdisk, hclock, hhost, hsink, hok⟩ :=
    perform_openDirectory h.writer.settings s₁
  obtain ⟨rfl, rfl⟩ := Prod.mk.inj (hopen.symm.trans hopen')
  rw [hquiet.disk_eq] at hdirectory hdisk hsink
  rw [hdirectory] at hact
  obtain ⟨hwriter, hsurroundings⟩ := hear_eq hact
  refine ⟨hwriter, if_pos hopens, ?_, ?_, ?_, ?_, fun hpath => ?_⟩
  · rw [hsurroundings, hdisk]
  · rw [hsurroundings, hclock, hclock₁]
  · rw [hsurroundings, hhost, hquiet.host_eq]
  · rw [hsurroundings, hsink, hquiet.sink_eq]
  · rw [hact]
    have hanswer := hok hpath
    cases answer with
    | ok _ => rfl
    | error f => cases hanswer

theorem opens_eq_true {w : Writer} {s : Surroundings} (h : opens w s = true) :
    ∃ now c rows, s.clock.read = (.ok now, c) ∧
      s.host.properties w.settings.extra w.settings.withEnvironment = .ok rows := by
  unfold opens at h
  rcases hread : s.clock.read with ⟨_ | now, c⟩
  · rw [hread] at h
    cases h
  cases hrows : s.host.properties w.settings.extra w.settings.withEnvironment with
  | error t =>
    rw [hrows, Bool.and_eq_true] at h
    cases h.2
  | ok rows => exact ⟨now, c, rows, rfl, rfl⟩

theorem Opens.sound {h : Watch} {p : Plan} {now : Time.Instant}
    {rows : List (Text.CodeText × Text.CodeText)} {later : Time.Clock}
    (hopen : h.Opens p now rows later) : (h.hear (.planStarted p)).Sound := by
  refine ⟨fun run hrun => ?_, fun hnone => ?_, fun x hx r hr => ?_⟩
  · rw [hopen.writer_eq] at hrun
    cases hrun
    exact ⟨_, hopen.epoch?_eq, begun_holds ..⟩
  · rw [hopen.writer_eq] at hnone
    cases hnone
  · rw [hopen.epoch?_eq] at hx
    cases hx
    cases hr

theorem Sound.hear_planStarted {h : Watch} (hs : h.Sound) (p : Plan) :
    (h.hear (.planStarted p)).Sound := by
  cases hopens : opens h.writer h.surroundings with
  | true =>
    obtain ⟨now, c, rows, hread, hrows⟩ := opens_eq_true hopens
    exact (hear_opens hread hrows p).sound
  | false =>
    obtain ⟨f, w', s', hact, -, -, -, hw, -⟩ := hear_planStarted_refused hopens p
    have hwriter := (hear_eq hact).1
    have hepoch : (h.hear (.planStarted p)).epoch? = h.epoch? := by
      unfold Watch.hear
      simp only [hopens, Bool.false_eq_true, if_false]
    rcases hw with rfl | ⟨run, startedAt, hostName, hrun, hrun'⟩
    · exact ⟨by rw [hwriter, hepoch]; exact hs.running, by rw [hwriter, hepoch]; exact hs.idle,
        by rw [hepoch]; exact hs.filed⟩
    · refine ⟨fun later hlater => ?_, fun hnone => ?_, by rw [hepoch]; exact hs.filed⟩
      · rw [hwriter, hrun'] at hlater
        cases hlater
        obtain ⟨x, hx, hholds⟩ := hs.running run hrun
        exact ⟨x, hepoch.trans hx, hholds.opened, hholds.plan_eq, hholds.coherent, hholds.pending⟩
      · rw [hwriter, hrun'] at hnone
        cases hnone

theorem Sound.hear {h : Watch} (hs : h.Sound) (e : Event) : (h.hear e).Sound := by
  by_cases hstart : ∃ p, e = .planStarted p
  · obtain ⟨p, rfl⟩ := hstart
    exact hs.hear_planStarted p
  have he : ∀ p, e ≠ .planStarted p := fun p heq => hstart ⟨p, heq⟩
  cases hrun : h.writer.run? with
  | none =>
    obtain ⟨-, hwriter, -⟩ := hear_idle hrun he
    have hepoch := epoch?_hear_idle hs hrun he
    refine ⟨?_, ?_, ?_⟩
    · rw [hwriter, hepoch]
      exact hs.running
    · rw [hwriter, hepoch]
      exact hs.idle
    · rw [hepoch]
      exact hs.filed
  | some run =>
    -- the reports that are new list the tests of the plan as it is now, and those built before
    -- stay under the same roots, for a plan only grows
    obtain ⟨x, run', hx, hholds, hnext⟩ := hs.continues hrun he
    have hlists := hholds.lists hnext.plan_eq hnext.moves.gives
    refine ⟨fun later hlater => ?_, fun hnone y hy => ?_, fun y hy r hr => ?_⟩
    · rw [hnext.epoch?_eq]
      rcases hnext.run?_eq with hnone | hsome
      · exact absurd (hnone.symm.trans hlater) nofun
      · obtain rfl := Option.some.inj (hsome.symm.trans hlater)
        refine ⟨_, rfl, ?_, hnext.plan_eq, hnext.coherent, ?_⟩
        · rw [hsome]
          rfl
        · exact List.Subset.trans hnext.moves.pending_subset hholds.pending
    · obtain rfl := Option.some.inj (hnext.epoch?_eq.symm.trans hy)
      dsimp only
      rw [hnone]
      rfl
    · obtain rfl := Option.some.inj (hnext.epoch?_eq.symm.trans hy)
      rcases List.mem_append.1 hr with hr | hr
      · obtain ⟨root, hroot, hid, hunder⟩ := hs.filed x hx r hr
        refine ⟨root, hroot, hid, hunder.mono ?_⟩
        rw [Tree.planAfter_append]
        exact Tree.identifiers_subset_planAfter _ _
      · obtain ⟨root, hroot, hlist⟩ := hlists r hr
        exact ⟨root, hroot, hlist.id_eq, hlist.under⟩

theorem sound_foldl {h : Watch} (hs : h.Sound) (events : List Event) :
    (events.foldl hear h).Sound := by
  induction events generalizing h with
  | nil => exact hs
  | cons e events ih => exact ih (hs.hear e)

theorem sound_watch (o : Settings) (s : Surroundings) (events : List Event) :
    (watch o s events).Sound := by
  refine sound_foldl ⟨fun run hrun => ?_, fun _ x hx => ?_, fun x hx => ?_⟩ events
  · cases hrun
  · cases hx
  · cases hx

theorem Sound.built_lists {h : Watch} (hs : h.Sound) {e : Event} {r : EngineReport}
    (hr : r ∈ h.built e) :
    ∃ x run run' root, h.epoch? = some x ∧ h.writer.run? = some run ∧ x.Holds run ∧
      h.Continues e x run run' ∧ root ∈ x.plan.roots ∧ r.Lists (x.planWith e) root := by
  cases hrun : h.writer.run? with
  | none =>
    rw [built, built_idle e hrun] at hr
    cases hr
  | some run =>
    have he : ∀ p, e ≠ .planStarted p := by
      rintro p rfl
      rw [built, built_planStarted] at hr
      cases hr
    obtain ⟨x, run', hx, hholds, hnext⟩ := hs.continues hrun he
    obtain ⟨root, hroot, hlists⟩ := hholds.lists hnext.plan_eq hnext.moves.gives r hr
    exact ⟨x, run, run', root, hx, rfl, hholds, hnext, hroot, hlists⟩

end Watch

theorem get?_planAfter (p : Plan) (log : List Call) (id : String) :
    (planAfter p log).get? id =
      (p.identifiers ++ log.map (·.identifier)).find? (·.id == id) := by
  induction log generalizing p with
  | nil =>
    rw [List.map_nil, List.append_nil]
    rfl
  | cons c log ih =>
    rw [show planAfter p (c :: log) = planAfter (p.add c.identifier) log from rfl, ih,
      List.map_cons]
    by_cases hc : c.identifier.id ∈ p.ids
    · rw [Plan.add_of_mem hc, List.find?_append, List.find?_append, List.find?_cons]
      cases hid : c.identifier.id == id with
      | false => rfl
      | true =>
        obtain ⟨i, hi, hic⟩ := Plan.mem_ids.1 hc
        have hfound := Plan.get?_of_mem hi
        rw [hic, beq_iff_eq.1 hid] at hfound
        rw [show p.identifiers.find? (·.id == id) = some i from hfound]
        rfl
    · rw [Plan.identifiers_add hc, List.append_assoc]
      rfl

/-- Every test known below an engine is in the engine's report, once, in the order of the plan, and
in no other report of the run; and the files change by the reports alone. -/
theorem reports_list_tests (o : Settings) (s : Surroundings) (events : List Event) (e : Event)
    {r : EngineReport} (hr : r ∈ (watch o s events).built e) :
    let h := watch o s events
    ∃ x run root, h.epoch? = some x ∧ h.writer.run? = some run ∧
      run.tree.plan = planAfter x.plan x.calls ∧ root ∈ x.plan.roots ∧
      r.Lists (x.planWith e) root ∧
      (∀ id, (x.planWith e).get? id = (x.plan.identifiers ++
        (x.calls ++ e.call?.toList).map (·.identifier)).find? (·.id == id)) ∧
      (∀ r' ∈ x.reports ++ h.built e, r'.id ≠ r.id →
        ∀ c ∈ r.testcases, ∀ c' ∈ r'.testcases, c.id ≠ c'.id) ∧
      (h.hear e).surroundings.disk = (h.built e).foldl
        (store h.writer.settings.indent run.directory? h.surroundings.host.localOffset)
        h.surroundings.disk := by
  intro h
  have hs : h.Sound := Watch.sound_watch o s events
  obtain ⟨x, run, run', root, hx, hrun, hholds, hnext, hroot, hlists⟩ := hs.built_lists hr
  refine ⟨x, run, root, hx, hrun, hholds.plan_eq, hroot, hlists, get?_planAfter _ _,
    fun r' hr' hne => ?_, hnext.moves.disk_eq⟩
  have hfiled : ∃ root' ∈ x.plan.roots, r'.id = root'.id ∧ r'.Under (x.planWith e) root' := by
    rcases List.mem_append.1 hr' with hr' | hr'
    · obtain ⟨root', hroot', hid, hunder⟩ := hs.filed x hx r' hr'
      refine ⟨root', hroot', hid, hunder.mono ?_⟩
      rw [Span.planWith, Tree.planAfter_append]
      exact Tree.identifiers_subset_planAfter _ _
    · obtain ⟨x', -, -, root', hx', -, -, -, hroot', hlists'⟩ := hs.built_lists hr'
      obtain rfl := Option.some.inj (hx.symm.trans hx')
      exact ⟨root', hroot', hlists'.id_eq, hlists'.under⟩
  obtain ⟨root', hroot', hid, hunder⟩ := hfiled
  refine hlists.under.disjoint hunder (List.mem_filter.1 hroot).2 (List.mem_filter.1 hroot').2 ?_
  rintro rfl
  exact hne (hid.trans hlists.id_eq.symm)

/-- A test is registered before the container that it is in, and its engine ends after that. -/
theorem reports_list_tests_late :
    let o : Settings := ⟨.ofString "out", none, [], false, none⟩
    let p := Plan.ofList 1 [⟨"e", "e", none, .engine⟩, ⟨"f", "f", none, .engine⟩,
      ⟨"e:t", "t", some "e", .test⟩]
    let events : List Event := [.planStarted p, .registered ⟨"e:c:x", "x", some "e:c", .test⟩,
      .started ⟨"e:c", "c", some "e", .container⟩]
    let h := watch o (.bare (.fixed .epoch)) events
    let e : Event := .finished ⟨"e", "e", none, .engine⟩ ⟨.successful, none⟩
    ∃ r, h.built e = [r] ∧ r.testcases.map (·.id) = ["e:t", "e:c:x"] ∧
      ∃ x root, h.epoch? = some x ∧ root ∈ x.plan.roots ∧ r.Lists (x.planWith e) root := by
  intro o p events h e
  have hbuilt : (h.built e).map (fun r => (r.id, r.testcases.map (·.id))) =
      [("e", ["e:t", "e:c:x"])] := by cbv
  obtain ⟨r, hr, hpair⟩ := List.map_eq_singleton_iff.1 hbuilt
  have hmem : r ∈ h.built e := by
    rw [hr]
    exact List.mem_singleton_self r
  obtain ⟨x, run, root, hx, -, -, hroot, hlists, -⟩ :=
    reports_list_tests o (.bare (.fixed .epoch)) events e hmem
  exact ⟨r, hr, congrArg Prod.snd hpair, x, root, hx, hroot, hlists⟩

end Writer

end TestRun
