import TestRun.Proofs.Listener.Tracing
import TestRun.Proofs.Tree.Verdict
set_option autoImplicit false

namespace TestRun

open Time Files

namespace Tree

def verdictBy (p : Plan) (log : List Call) (hasStarted : Bool) (i : Identifier) : Verdict :=
  match endIn log i.id with
  | some e => .ofEnding e
  | none => .below (endsOf log (p.ancestors i)) hasStarted

theorem Reflects.classify_eq_by {p : Plan} {startedAt? : Option Instant} {log : List Call}
    {t : Tree} (h : Reflects p startedAt? log t) (hp : t.plan = p) (i : Identifier) :
    t.classify i = verdictBy p log (opensAt p startedAt? i.id || startsIn log i.id) i := by
  unfold verdictBy
  cases he : endIn log i.id with
  | some e => exact h.classify_of_end he
  | none =>
    have hstart := h.start_eq i.id
    rw [classify, h.ending_eq, he]
    change t.inherited i = _
    rw [inherited_eq, h.endsAbove_eq, hstart, hp]

/-- The verdict on an identifier by a log, where the roots of the plan start with the run. -/
def verdictIn (p : Plan) (log : List Call) (i : Identifier) : Verdict :=
  match endIn log i.id with
  | some e => .ofEnding e
  | none => .below (endsOf log (p.ancestors i))
      (p.roots.any (·.id == i.id) || startsIn log i.id)

theorem verdictIn_eq_by (p : Plan) (log : List Call) (i : Identifier) :
    verdictIn p log i = verdictBy p log (p.roots.any (·.id == i.id) || startsIn log i.id) i := rfl

theorem Reflects.classify_eq {p : Plan} {startedAt : Instant} {log : List Call} {t : Tree}
    (h : Reflects p (some startedAt) log t) (hp : t.plan = p) (i : Identifier) :
    t.classify i = verdictIn p log i := h.classify_eq_by hp i

end Tree

namespace EngineReport

/-- The report tells of each test below an engine what a log decides. -/
structure Tells (p : Plan) (log : List Tree.Call) (id : String) (r : EngineReport) : Prop where
  id_eq : r.id = id
  testcases_eq : r.testcases.map (fun c => (c.id, c.name, c.className, c.verdict)) =
    (p.testsUnder id).map fun t => (t.id, t.name, id, Tree.verdictIn p log t)

end EngineReport

namespace Writer

open TestRun.Tree (Call endIn)

structure Run.Reflects (run : Run) (p : Plan) (aware : Bool) (log : List Call) : Prop where
  plan_eq : run.tree.plan = p
  reflects : Tree.Reflects p (some run.startedAt) log run.tree
  timed : run.tree.Timed aware
  startedAt_kind : run.startedAt.offset.isSome = aware

/-- The engines still to be reported on are those that have not ended. -/
structure Run.Follows (run : Run) (p : Plan) (aware : Bool) (log : List Call) : Prop
    extends run.Reflects p aware log where
  pending_eq : run.pending = p.roots.filter fun root => (endIn log root.id).isNone

variable {run : Run} {p : Plan} {aware : Bool} {log : List Call} {i : Identifier}

theorem Run.Follows.traces (h : run.Follows p aware log) : run.Traces p aware log :=
  ⟨h.reflects, h.timed, h.startedAt_kind, h.pending_eq⟩

theorem Run.Traces.follows (h : run.Traces p aware log) (hp : run.tree.plan = p) :
    run.Follows p aware log :=
  ⟨⟨hp, h.reflects, h.timed, h.startedAt_kind⟩, h.pending_eq⟩

theorem Run.Reflects.tells (h : run.Reflects p aware log) {id : String}
    {finishedAt? : Option Instant} {r : EngineReport} (hr : run.report id finishedAt? = .ok r) :
    r.Tells p log id := by
  obtain ⟨hid, htestcases, -⟩ := Run.report_eq_ok hr
  refine ⟨hid, ?_⟩
  rw [htestcases, h.plan_eq]
  apply List.map_congr_left
  intro test _
  rw [h.reflects.classify_eq h.plan_eq]

def Builds (p : Plan) (log : List Call) (c : Call) (reports : List EngineReport) : Prop :=
  (Closes p log c ∧ ∃ r, reports = [r] ∧ r.Tells p (log ++ [c]) c.identifier.id) ∨
    (¬ Closes p log c ∧ reports = [])

/-- The writer follows a log with the given settings and reports directory. -/
structure Follows (w : Writer) (o : Settings) (directory? : Option Path) (p : Plan) (aware : Bool)
    (log : List Call) : Prop where
  exists_run : ∃ run, w = ⟨o, .running run⟩ ∧ run.Follows p aware log ∧
    run.directory? = directory?

variable {w : Writer} {o : Settings} {directory? : Option Path} {host : Host}

theorem Run.Follows.call (h : run.Follows p aware log) {c : Call} (hp : c.identifier.id ∈ p.ids)
    {run' : Run} {s s' : Surroundings}
    (hact : (callAct o c).perform (run, s) = (.ok (), (run', s')))
    (htraces : run'.Traces p aware (log ++ [c]))
    (hids : (built c.event ⟨o, .running run⟩ s).map (·.id) = closedBy p log c) :
    run'.Follows p aware (log ++ [c]) ∧ run'.directory? = run.directory? ∧ s'.host = s.host ∧
      Builds p log c (built c.event ⟨o, .running run⟩ s) := by
  obtain ⟨hmoves, hgrows⟩ := moves_callAct o h.reflects.coherent c s
  rw [hact] at hmoves hgrows
  have hfollows : run'.Follows p aware (log ++ [c]) := by
    refine htraces.follows ?_
    rw [hgrows.plan_eq, h.plan_eq, Plan.add_of_mem hp]
  refine ⟨hfollows, hmoves.directory?_eq, hmoves.host_eq, ?_⟩
  unfold closedBy at hids
  split at hids
  · next hcloses =>
    obtain ⟨r, hr, hid⟩ := List.map_eq_singleton_iff.1 hids
    obtain ⟨root, -, finishedAt?, hreport⟩ := hmoves.gives r (hr ▸ List.mem_singleton_self r)
    have htells := hfollows.tells hreport
    rw [← htells.id_eq, hid] at htells
    exact .inl ⟨hcloses, r, hr, htells⟩
  · next hopen => exact .inr ⟨hopen, List.map_eq_nil_iff.1 hids⟩

theorem Follows.hear_call (h : w.Follows o directory? p aware log) {c : Call}
    (hp : c.identifier.id ∈ p.ids) {s : Surroundings} (hs : s.clock.Lasts aware 1) :
    ∃ w' s', (hear c.event).perform (w, s) = (.ok (), (w', s')) ∧
      w'.Follows o directory? p aware (log ++ [c]) ∧ s.clock.Later s'.clock ∧
      s'.host = s.host ∧ Builds p log c (built c.event w s) := by
  obtain ⟨run, rfl, hrun, rfl⟩ := h.exists_run
  obtain ⟨run', s', hact, htraces, hclock, hids⟩ := hrun.traces.callAct c hs o
  obtain ⟨hfollows, hdirectory, hhost, hbuilds⟩ := hrun.call hp hact htraces hids
  refine ⟨⟨o, .running run'⟩, s', ?_, ⟨run', rfl, hfollows, hdirectory⟩, hclock, hhost, hbuilds⟩
  rw [perform_hear_call, hact]

/-- On this host the properties can be read, and the reports directory has a proper path. -/
structure Settings.Fits (o : Settings) (host : Host) : Prop where
  properties : ∃ rows, host.properties o.extra o.withEnvironment = .ok rows
  path : ∃ path, Path.ofCode o.directory = .ok path
  noZero : o.directory.contains (.ofChar '\x00') = false

theorem Settings.Fits.path?_ne_none (ho : o.Fits host) : o.path? ≠ none := by
  obtain ⟨path, hpath⟩ := ho.path
  unfold Settings.path?
  rw [hpath]
  simp only [ho.noZero]
  exact nofun

theorem hear_planStarted_of_read {s : Surroundings} (ho : o.Fits s.host) {now : Instant}
    {later : Clock} (hread : s.clock.read = (.ok now, later)) (phase : Phase) (p : Plan) :
    ∃ rows s', (hear (.planStarted p)).perform (⟨o, phase⟩, s) = (.ok (), (⟨o, .running (begun p now
        (o.hostName s.host) (shownProperties rows) (o.opened s.disk).1)⟩, s')) ∧
      s'.clock = later ∧ s'.host = s.host ∧ s'.disk = (o.opened s.disk).2 := by
  obtain ⟨rows, hrows⟩ := ho.properties
  obtain ⟨answer, s₁, s', hquiet, hclock₁, hopen, hact⟩ :=
    hear_planStarted_begun (w := ⟨o, phase⟩) hread hrows p
  obtain ⟨answer', s'', hopen', hdirectory, hdisk, hclock, hhost, -, hok⟩ :=
    perform_openDirectory o s₁
  obtain ⟨rfl, rfl⟩ := Prod.mk.inj (hopen.symm.trans hopen')
  have hanswer := hok ho.path?_ne_none
  rw [hquiet.disk_eq] at hdirectory hdisk
  refine ⟨rows, s', ?_, hclock.trans hclock₁, hhost.trans hquiet.host_eq, hdisk⟩
  rw [hact, hdirectory]
  cases answer with
  | ok _ => rfl
  | error _ => cases hanswer

theorem hear_planStarted {s : Surroundings} (ho : o.Fits s.host) (hs : s.clock.Reliable aware)
    (phase : Phase) (p : Plan) :
    ∃ w' s', (hear (.planStarted p)).perform (⟨o, phase⟩, s) = (.ok (), (w', s')) ∧
      (∃ directory?, w'.Follows o directory? p aware []) ∧ s'.clock.Reliable aware ∧
      s'.host = s.host := by
  obtain ⟨now, hread, hnow, hrest⟩ := hs.read
  obtain ⟨rows, s', hact, hclock, hhost, -⟩ := hear_planStarted_of_read ho hread phase p
  have hfollows := (begun_traces p hnow (o.hostName s.host) (shownProperties rows)
    (o.opened s.disk).1).follows rfl
  exact ⟨_, s', hact, ⟨_, _, rfl, hfollows, rfl⟩, hclock ▸ hrest, hhost⟩

theorem Follows.hear_planFinished (h : w.Follows o directory? p aware log)
    (hended : ∀ root ∈ p.roots, endIn log root.id ≠ none) (plan? : Option Plan)
    (s : Surroundings) :
    (hear (.planFinished plan?)).perform (w, s) = (.ok (), (⟨o, .finished⟩, s)) ∧
      built (.planFinished plan?) w s = [] := by
  obtain ⟨run, rfl, hrun, rfl⟩ := h.exists_run
  have hpending : run.pending = [] := by
    rw [hrun.pending_eq, List.filter_eq_nil_iff]
    intro root hroot hnone
    exact hended root hroot (Option.isNone_iff_eq_none.1 hnone)
  have hrest : (completeRest o).perform (run, s) = (.ok (), (run, s)) := by
    unfold completeRest
    rw [Hearing.perform_state_bind, hpending]
    rfl
  constructor
  · rw [perform_hear_planFinished, hrest]
  · change run.builtAtClose s = []
    unfold Run.builtAtClose
    rw [hpending]
    rcases s.clock.read with ⟨_ | _, _⟩ <;> rfl

end Writer

end TestRun
