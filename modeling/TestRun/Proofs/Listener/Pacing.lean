import TestRun.Proofs.Listener.Printing
import TestRun.Proofs.Listener.Timing
import TestRun.Proofs.Tree.Stamps
set_option autoImplicit false

/-!
# Keeping pace with the clock

Where the writer is the only listener that reads the session's clock, the calls that a session
delivers decide how often it is read. All that the writer needs is that the clock can be read at
each call; it may fail after the last one.
-/

namespace TestRun

open Time
open TestRun.Tree (Call endIn isIdle readingAfter ticks)
open Writer (Settings Builds Closes)
open Files (Path)

namespace EngineReport

variable {p : Plan} {aware : Bool} {clock : Clock} {calls earlier : List Call} {c : Call}
  {r : EngineReport}

/-- The report was built when a call ended its engine, up to the reading taken for that call. -/
structure BuiltAt (p : Plan) (aware : Bool) (clock : Clock) (earlier : List Call) (c : Call)
    (r : EngineReport) : Prop where
  closes : Closes p earlier c
  id_eq : r.id = c.identifier.id
  exists_run : ∃ (run : Writer.Run) (now : Instant), run.Reflects p aware (earlier ++ [c]) ∧
    run.tree.Stamped p clock (earlier ++ [c]) ∧ clock.read.1 = .ok run.startedAt ∧
    readingAfter p clock earlier = .ok now ∧ now.offset.isSome = aware ∧
    run.report r.id (some now) = .ok r

def BuiltAmong (p : Plan) (aware : Bool) (clock : Clock) (calls : List Call) (r : EngineReport) :
    Prop :=
  ∃ earlier c later, calls = earlier ++ c :: later ∧ r.BuiltAt p aware clock earlier c

end EngineReport

namespace Writer

variable {o : Settings} {directory? : Option Path} {p : Plan} {aware : Bool} {clock : Clock}
  {log : List Call} {run : Run} {w : Writer} {x : Surroundings} {c : Call} {now : Instant}

/-- The run follows a log, and its instants are readings of the clock. -/
structure Run.Paces (run : Run) (p : Plan) (aware : Bool) (clock : Clock) (log : List Call) : Prop
    extends run.Follows p aware log where
  stamped : run.tree.Stamped p clock log
  startedAt_eq : clock.read.1 = .ok run.startedAt

structure Paces (w : Writer) (o : Settings) (directory? : Option Path) (p : Plan) (aware : Bool)
    (clock : Clock) (log : List Call) (x : Surroundings) : Prop where
  exists_run : ∃ run, w = ⟨o, .running run⟩ ∧ run.Paces p aware clock log ∧
    run.directory? = directory?
  clock_eq : x.clock = clock.after (1 + ticks p [] log)

theorem Paces.follows (h : w.Paces o directory? p aware clock log x) :
    w.Follows o directory? p aware log := by
  obtain ⟨run, hw, hrun, hdirectory⟩ := h.exists_run
  exact ⟨run, hw, hrun.toFollows, hdirectory⟩

theorem Paces.of_clock_eq (h : w.Paces o directory? p aware clock log x) {x' : Surroundings}
    (hx : x'.clock = x.clock) : w.Paces o directory? p aware clock log x' :=
  ⟨h.exists_run, hx.trans h.clock_eq⟩

theorem begun_paces (hread : clock.read.1 = .ok now) (hnow : now.offset.isSome = aware) (p : Plan)
    (hostName : String) (properties : List (String × String)) (directory? : Option Path) :
    (begun p now hostName properties directory?).Paces p aware clock [] :=
  ⟨(begun_traces p hnow hostName properties directory?).follows rfl, Tree.begin_stamped p clock now,
    hread⟩

theorem Run.Paces.builtAt_of_end (h : run.Paces p aware clock log)
    (hread : x.clock.read.1 = .ok now) (hreading : readingAfter p clock log = .ok now)
    (hnow : now.offset.isSome = aware) (hp : c.identifier.id ∈ p.ids) {e : Ending}
    (hc : c.ending? = some e) (hstart : c.isStart = false) (hcloses : Closes p log c)
    {r : EngineReport} (hr : r ∈ run.builtAtEnd c.identifier e x) :
    r.BuiltAt p aware clock log c := by
  have hcoherent := h.reflects.coherent
  obtain ⟨t, hact, hputs⟩ :=
    Tree.perform_hearEnded hcoherent (Prod.ext hread rfl) c.identifier e
  have hopen : (run.tree.nodeOf c.identifier).ending = none := by
    rw [Tree.ending_nodeOf, h.reflects.ending_eq]
    exact hcloses.2.2
  unfold Run.builtAtEnd at hr
  rw [hact] at hr
  obtain ⟨-, hreport⟩ := Run.report_of_mem_completion hr
  have htimed := h.timed.puts ((h.timed.nodeOf c.identifier).closed e hnow) hputs
  rw [Node.closed_of_none hopen] at hreport
  have hid := (Run.report_eq_ok hreport).1
  refine ⟨hcloses, hid, { run with tree := t }, now, ⟨?_, h.reflects.ended hc hstart hputs, htimed,
    h.startedAt_kind⟩, h.stamped.ended h.reflects hc hreading hputs, h.startedAt_eq, hreading, hnow,
    ?_⟩
  · rw [hputs.plan_eq, h.plan_eq, Plan.add_of_mem hp]
  · rw [hid]
    exact hreport

/-- At each call the clock must answer. Where it does, the writer keeps pace, and what it builds it
builds at that reading. -/
theorem Paces.hear_call (h : w.Paces o directory? p aware clock log x)
    (hp : c.identifier.id ∈ p.ids) (hread : readingAfter p clock log = .ok now)
    (hnow : now.offset.isSome = aware) :
    ∃ w' x', (hear c.event).perform (w, x) = (.ok (), (w', x')) ∧
      w'.Paces o directory? p aware clock (log ++ [c]) x' ∧ x'.host = x.host ∧
      x'.disk = (built c.event w x).foldl (store o.indent directory? x.host.localOffset) x.disk ∧
      Builds p log c (built c.event w x) ∧
      ∀ r ∈ built c.event w x, r.BuiltAt p aware clock log c := by
  obtain ⟨run, rfl, hrun, rfl⟩ := h.exists_run
  have hclock : x.clock.read = (.ok now, clock.after (1 + ticks p [] log + 1)) := by
    rw [h.clock_eq, Clock.after_add clock (1 + ticks p [] log)]
    exact Prod.ext hread rfl
  obtain ⟨run', x', hact, htraces, hmoves, hlater, hids⟩ :=
    hrun.toFollows.traces.callAct_of_read c hclock hnow o
  obtain ⟨hfollows, hdirectory, hhost, hbuilds⟩ := hrun.toFollows.call hp hact htraces hids
  obtain ⟨hshape, -⟩ := moves_callAct o hrun.reflects.coherent c x
  rw [hact] at hshape
  have hstarted : run'.startedAt = run.startedAt := by
    obtain ⟨tree, left, rfl, -⟩ := hshape.exists_pending
    rfl
  have hpaces : run'.Paces p aware clock (log ++ [c]) :=
    ⟨hfollows, hrun.stamped.step hrun.reflects hmoves hread, hstarted ▸ hrun.startedAt_eq⟩
  refine ⟨⟨o, .running run'⟩, x', ?_, ⟨⟨run', rfl, hpaces, hdirectory⟩, ?_⟩, hhost, hshape.disk_eq,
    hbuilds, fun r hr => ?_⟩
  · rw [perform_hear_call, hact]
  · rw [hlater, hrun.reflects.isDone_eq, Tree.ticks_concat, List.nil_append, h.clock_eq]
    cases isIdle p log c <;> rfl
  · have hcloses : Closes p log c := by
      rcases hbuilds with ⟨hcloses, -⟩ | ⟨-, hnone⟩
      · exact hcloses
      · rw [hnone] at hr
        cases hr
    have hfirst := congrArg Prod.fst hclock
    cases c with
    | register i | started i => cases hr
    | skipped i reason? =>
      exact hrun.builtAt_of_end (c := .skipped i reason?) hfirst hread hnow hp rfl rfl hcloses hr
    | finished i result =>
      exact hrun.builtAt_of_end (c := .finished i result) hfirst hread hnow hp rfl rfl hcloses hr

end Writer

namespace Session

variable {s : Session} {e : Event} {seat : Seat} {o : Settings} {directory? : Option Path}
  {p : Plan} {aware : Bool} {clock : Clock} {log : List Call} {c : Call} {now : Instant}

/-- The writer is the only listener that reads the session's clock; a console reads that of the
machine. -/
structure Alone (s : Session) : Prop where
  one_writer : s.audience.count .writer = 1
  own_clock : .console ∈ s.audience → s.surroundings.wall?.isSome = true

/-- A run is under way, and so far the clock shows what is given, since none but the writer reads
it. -/
structure Waits (s : Session) (p : Plan) (clock : Clock) : Prop extends s.Alone, s.Tuned p where
  clock_eq : s.surroundings.clock = clock

theorem Heard.waits {s' : Session} (h : s.Heard p seat s') (hseat : seat ∈ s.audience)
    (hs : s.Waits p clock) : s'.Waits p clock := by
  have hclock : (.console ∈ s.audience → s'.surroundings.wall?.isSome = true) ∧
      s'.surroundings.clock = clock := by
    rcases h.surroundings with heq | ⟨rfl, hbeside⟩
    · rw [heq]
      exact ⟨hs.own_clock, hs.clock_eq⟩
    · obtain ⟨hwall, hclock⟩ := hbeside.wall (hs.own_clock hseat)
      exact ⟨fun _ => hwall, hclock.trans hs.clock_eq⟩
  refine ⟨⟨?_, ?_⟩, h.toTuned, hclock.2⟩ <;> rw [h.audience_eq]
  · exact hs.one_writer
  · exact hclock.1

theorem harmless_call (hc : c.identifier.id ∈ p.ids) : Harmless c.event (·.Waits p clock) := by
  intro s seat hs hseat hne
  have hclock (hmem : .console ∈ s.audience) : s.surroundings.onWall.clock.NeverFails :=
    Surroundings.neverFails_onWall_of_isSome (hs.own_clock hmem)
  obtain ⟨s', hact, hheard⟩ := hs.toTuned.hear_call hseat hne hclock hc
  exact ⟨s', hact, hheard.waits hseat hs, hheard.toSpares⟩

theorem harmless_planFinished (p q : Plan) (clock : Clock) :
    Harmless (.planFinished (some q)) (·.Waits p clock) := by
  intro s seat hs hseat hne
  obtain ⟨s', hact, hheard⟩ := hs.toTuned.hear_planFinished hseat hne q
  exact ⟨s', hact, hheard.waits hseat hs, hheard.toSpares⟩

theorem Waits.hear_writer (h : s.Waits p clock) {run : Writer.Run} {x : Surroundings}
    (hact : (Writer.hear e).perform (s.writer, s.surroundings) = (.ok (), (⟨o, .running run⟩, x)))
    (hplan : run.tree.plan = p) :
    let s' : Session := { s with writer := ⟨o, .running run⟩, surroundings := x }
    (hearWriter e).perform s = (.ok (), s') ∧ s'.Waits p x.clock := by
  intro s'
  obtain ⟨hput, htuned⟩ := h.toTuned.putWriter (w := ⟨o, .running run⟩) rfl hplan x
  have hwall := (Writer.spared_hear e s.writer s.surroundings).wall_eq
  rw [hact] at hwall
  refine ⟨?_, ⟨h.one_writer, fun hmem => hwall ▸ h.own_clock hmem⟩, htuned, rfl⟩
  rw [← show _ = s' from hput]
  exact perform_hearWriter hact

/-- The writer is alone with the clock and keeps pace with it on the plan at hand. -/
structure Paces (s : Session) (o : Settings) (directory? : Option Path) (p : Plan) (aware : Bool)
    (clock : Clock) (log : List Call) : Prop extends s.Alone, s.Tuned p where
  writer : s.writer.Paces o directory? p aware clock log s.surroundings

theorem Alone.deliver_planStarted (hs : s.Alone) (hplan : s.plan = p)
    (ho : s.writer.settings.Fits s.surroundings.host)
    (hread : s.surroundings.clock.read.1 = .ok now) :
    let opened := s.writer.settings.opened s.surroundings.disk
    ∃ s', (deliver (.planStarted p)).perform s = (.ok (), s') ∧
      s'.Paces s.writer.settings opened.1 p now.offset.isSome s.surroundings.clock [] ∧
      s'.surroundings.host = s.surroundings.host ∧ s'.surroundings.disk = opened.2 := by
  intro opened
  let o := s.writer.settings
  let Q (run : Writer.Run) (x : Surroundings) : Prop :=
    Writer.Paces ⟨o, .running run⟩ o opened.1 p now.offset.isSome s.surroundings.clock [] x ∧
      x.wall? = s.surroundings.wall? ∧ x.host = s.surroundings.host ∧ x.disk = opened.2
  have hwriter : ∀ phase, ∃ run x,
      (Writer.hear (.planStarted p)).perform (⟨o, phase⟩, s.surroundings) =
        (.ok (), (⟨o, .running run⟩, x)) ∧ run.tree.plan = p ∧ Q run x := by
    intro phase
    obtain ⟨rows, x, hact, hclock, hhost, hdisk⟩ := Writer.hear_planStarted_of_read ho
      (show s.surroundings.clock.read = (.ok now, s.surroundings.clock.read.2) from
        Prod.ext hread rfl) phase p
    have hpaces := Writer.begun_paces hread rfl p (o.hostName s.surroundings.host)
      (Writer.shownProperties rows) opened.1
    have hwall := (Writer.spared_hear (.planStarted p) ⟨o, phase⟩ s.surroundings).wall_eq
    rw [hact] at hwall
    exact ⟨_, x, hact, rfl, ⟨⟨_, rfl, hpaces, rfl⟩, hclock⟩, hwall, hhost, hdisk⟩
  obtain ⟨s', run, hdeliver, htuned, haudience, hw, ⟨hpaces, hwall, hhost, hdisk⟩, -⟩ :=
    deliver_planStarted_tuned hplan hs.one_writer hwriter
  refine ⟨s', hdeliver, ⟨⟨?_, ?_⟩, htuned, ?_⟩, hhost, hdisk⟩
  · rw [haudience]
    exact hs.one_writer
  · rw [haudience, hwall]
    exact hs.own_clock
  · rw [hw]
    exact hpaces

theorem Paces.deliver_call (h : s.Paces o directory? p aware clock log)
    (hp : c.identifier.id ∈ p.ids) (hread : readingAfter p clock log = .ok now)
    (hnow : now.offset.isSome = aware) :
    ∃ s', (deliver c.event).perform s = (.ok (), s') ∧
      s'.Paces o directory? p aware clock (log ++ [c]) ∧
      s'.surroundings.host = s.surroundings.host ∧
      s'.surroundings.disk = (built c.event s).foldl
        (Writer.store o.indent directory? s.surroundings.host.localOffset) s.surroundings.disk ∧
      Builds p log c (built c.event s) ∧
      ∀ r ∈ built c.event s, r.BuiltAt p aware clock log c := by
  obtain ⟨s₁, hwaits, hspares, hrest⟩ :=
    (harmless_call hp).deliver ⟨h.toAlone, h.toTuned, rfl⟩ h.one_writer
  have hw : s₁.writer.Paces o directory? p aware clock log s₁.surroundings := by
    rw [hspares.writer_eq]
    exact h.writer.of_clock_eq hwaits.clock_eq
  obtain ⟨w, x, hact, hw', hhost, hdisk, hbuilds, hreports⟩ := hw.hear_call hp hread hnow
  obtain ⟨run, rfl, hrun, -⟩ := id hw'.exists_run
  obtain ⟨hmiddle, hwaits₂⟩ := hwaits.hear_writer hact hrun.plan_eq
  obtain ⟨s', hdeliver, hwaits', hspares', hbuilt⟩ :=
    hrest _ _ (harmless_call hp) hmiddle hwaits₂ rfl
  rw [hbuilt]
  refine ⟨s', hdeliver, ⟨hwaits'.toAlone, hwaits'.toTuned, ?_⟩, ?_, ?_, hbuilds, hreports⟩
  · rw [hspares'.writer_eq]
    exact hw'.of_clock_eq hwaits'.clock_eq
  · rw [hspares'.host_eq, hhost, hspares.host_eq]
  · rw [hspares'.disk_eq, hdisk, hspares.host_eq, hspares.disk_eq]

theorem Paces.deliver_planFinished (h : s.Paces o directory? p aware clock log)
    (hended : ∀ root ∈ p.roots, endIn log root.id ≠ none) (q : Plan) :
    ∃ s', (deliver (.planFinished (some q))).perform s = (.ok (), s') ∧
      s'.surroundings.clock = s.surroundings.clock ∧ s'.surroundings.disk = s.surroundings.disk := by
  have hharmless := harmless_planFinished p q s.surroundings.clock
  obtain ⟨s₁, hwaits, hspares, hrest⟩ :=
    hharmless.deliver ⟨h.toAlone, h.toTuned, rfl⟩ h.one_writer
  have hw : s₁.writer.Follows o directory? p aware log := by
    rw [hspares.writer_eq]
    exact h.writer.follows
  obtain ⟨hact, -⟩ := hw.hear_planFinished hended (some q) s₁.surroundings
  obtain ⟨s', hdeliver, hwaits', hspares', -⟩ := hrest _ _ hharmless (perform_hearWriter hact)
    ⟨⟨hwaits.one_writer, hwaits.own_clock⟩, hwaits.toTuned.putFinished o, hwaits.clock_eq⟩ rfl
  exact ⟨s', hdeliver, hwaits'.clock_eq, hspares'.disk_eq.trans hspares.disk_eq⟩

end Session

end TestRun
