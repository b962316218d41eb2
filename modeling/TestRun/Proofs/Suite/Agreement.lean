import Mathlib.Algebra.GroupWithZero.Nat
import TestRun.Command.Perform
import TestRun.Proofs.Listener.Printing
import TestRun.Proofs.Suite.Outcomes
set_option autoImplicit false

namespace TestRun

open TestRun.Tree (Call endIn startsIn)

theorem Totals.foldl_count (outcomes : List Outcome) (t : Totals) :
    outcomes.foldl Totals.count t = ⟨t.passed + outcomes.count .success,
      t.failed + outcomes.count .failure, t.errors + outcomes.count .error,
      t.skipped + outcomes.count .skipped⟩ := by
  induction outcomes generalizing t with
  | nil => rfl
  | cons o outcomes ih =>
    rw [List.foldl_cons, ih]
    cases o <;> simp [Totals.count] <;> omega

def Verdict.mark : Verdict → String
  | success => "PASS"
  | skipped _ => "SKIP"
  | failure _ => "FAIL"
  | error _ => "ERROR"

theorem Verdict.label_outcome (v : Verdict) : v.outcome.label = v.mark := by
  cases v <;> rfl

namespace EngineReport

def lines (name : String) (r : EngineReport) : List String :=
  ("Engine: " ++ name) :: r.testcases.map fun c => " - " ++ c.id ++ ": " ++ c.verdict.mark

def outcomes (r : EngineReport) : List (String × Outcome) :=
  r.testcases.map fun c => (c.id, c.verdict.outcome)

theorem linesOn_outcomes (name : String) (r : EngineReport) :
    Console.linesOn name r.outcomes = r.lines name := by
  unfold Console.linesOn outcomes lines
  rw [List.map_map]
  simp only [Function.comp_def, Verdict.label_outcome]

theorem count_outcomes (r : EngineReport) (o : Outcome) :
    (r.outcomes.map (·.2)).count o = r.count o := by
  unfold outcomes count
  rw [List.map_map, List.count_eq_length_filter, List.filter_map, List.length_map]
  congr 2

theorem sum_count (reports : List EngineReport) (o : Outcome) :
    (reports.flatMap fun r => r.outcomes.map (·.2)).count o = (reports.map (·.count o)).sum := by
  rw [List.count_flatMap]
  congr 2
  funext r
  exact r.count_outcomes o

end EngineReport

namespace SuiteNode

variable {p : Plan} {forest : List SuiteNode} {e n t : SuiteNode} {ms : List Moment}

theorem exists_leads {parent? : Option String} {i : Identifier} (hi : i ∈ n.identifiersIn parent?) :
    ∃ path t, Leads n path t ∧ i = t.identifier (parentAlong parent? path) := by
  induction n using induct generalizing parent? with
  | step n ih =>
    rw [identifiersIn_eq] at hi
    rcases List.mem_cons.1 hi with rfl | hi
    · exact ⟨[], n, .here, rfl⟩
    · obtain ⟨m, hm, hi⟩ := mem_identifiersInAll.1 hi
      obtain ⟨path, t, hpath, rfl⟩ := ih m hm hi
      exact ⟨n :: path, t, .down hm hpath, rfl⟩

theorem leads_of_testsUnder (hp : p.Lists forest) (he : e ∈ forest) {i : Identifier}
    (hi : i ∈ p.testsUnder (e.uniqueId none)) :
    ∃ path t, Leads e path t ∧ t.kind = .test ∧ i = t.identifier (parentAlong none path) := by
  rw [testsUnder_eq hp he] at hi
  obtain ⟨hmem, htest⟩ := List.mem_filter.1 hi
  obtain ⟨m, hm, hi⟩ := mem_identifiersInAll.1 hmem
  obtain ⟨path, t, hpath, rfl⟩ := exists_leads hi
  exact ⟨e :: path, t, .down hm hpath, of_decide_eq_true htest, rfl⟩

/-- The verdict on a test does not depend on whether the test has started: without an end of its
own it is below a node that is not open. -/
theorem verdictAlong_irrel {path : List SuiteNode} (hpath : Leads e path t) (ht : t.kind = .test)
    (a b : Bool) : verdictAlong path t a = verdictAlong path t b := by
  by_cases hfails : SetupFails path
  · obtain ⟨outer, g, inner, f, rfl, houter, hskip, hsetup, habort⟩ := hfails
    obtain ⟨v, hv⟩ := masking_total outer f
    have hbody : ∀ o ∈ outer, o.body? = none :=
      fun o ho => hpath.body?_eq o (List.mem_append_left _ ho)
    rw [hv.verdict_eq rfl houter hbody hskip hsetup habort,
      hv.verdict_eq rfl houter hbody hskip hsetup habort]
  · obtain ⟨v, hv⟩ := ruling_total t hfails
    rw [hv.verdict_eq ht, hv.verdict_eq ht]

theorem RunsForest.runsAll (h : RunsForest forest ms) : RunsAll none forest ms := by
  induction h with
  | nil => exact .nil
  | @cons e rest xs ys hxs _ ih => exact .cons hxs ih (Interleave.append xs ys)

theorem ReportedBy.tested_eq {r : EngineReport} (h : ReportedBy p e r) (hp : p.Lists forest)
    (he : e ∈ forest) (hms : RunsForest forest ms) :
    Console.tested p (callsOf ms) (e.identifier none) = r.outcomes := by
  obtain ⟨xs, log, hxs, htells, hlog⟩ := h.exists_log
  obtain ⟨ys, hys, hends⟩ := hms.runsAll.endIn_mem hp.nodup he
  have hreport := congrArg (List.map fun c => (c.1, c.2.2.2.outcome)) htells.testcases_eq
  rw [List.map_map, List.map_map] at hreport
  refine (List.map_congr_left fun i hi => ?_).trans hreport.symm
  obtain ⟨path, t, hpath, ht, rfl⟩ := leads_of_testsUnder hp he hi
  have hverdict (b : Bool) : Tree.verdictBy p (callsOf ms) b (t.identifier (parentAlong none path)) =
      Tree.verdictIn p log (t.identifier (parentAlong none path)) := by
    rw [Tree.verdictIn_eq_by, verdictBy_along hp he hpath hys hends,
      verdictBy_along hp he hpath hxs hlog]
    exact verdictAlong_irrel hpath ht _ _
  rw [hverdict]
  rfl

end SuiteNode

theorem Surroundings.screen_tick (n : Nat) (s : Surroundings) :
    ((tick n).perform s).2.screen = s.screen := by
  induction n generalizing s with
  | zero => rfl
  | succ n ih =>
    unfold tick readClock
    rw [Act.perform_bind, Act.perform_get_bind, Act.perform_set_bind]
    rcases s.clock.read with ⟨e | now, c⟩
    · rfl
    · exact ih { s with clock := c }

namespace Session

open SuiteNode

variable {s s' : Session} {p : Plan} {log : List Call} {d : Discovery} {ms : List Moment}
variable {totals : Totals} {screen : String} {audience : List Seat}

theorem attends_of_openPlan (hone : s.audience.count .console = 1)
    (h : (openPlan d).perform s = (.ok (), s')) :
    s'.Attends s'.plan [] .zero s.surroundings.screen s.audience := by
  unfold openPlan at h
  rw [Act.perform_modify_bind, Act.perform_get_bind] at h
  obtain ⟨_, s₀, hdebug, hact⟩ := Act.perform_bind_eq_ok h
  have hs₀ : s₀.plan = (s.newPlan d.identifiers).plan ∧
      s₀.surroundings.screen = s.surroundings.screen ∧ s₀.audience = s.audience := by
    obtain rfl := congrArg Prod.snd hdebug
    exact ⟨rfl, rfl, rfl⟩
  obtain ⟨hplan, hscreen, haudience⟩ := hs₀
  rw [← haudience] at hone
  have hattends := attends_of_planStarted hplan hone hact
  rwa [hattends.holds.plan_eq, ← hscreen, ← haudience]

theorem Attends.moment (h : s.Attends p log totals screen audience)
    (hone : audience.count .console = 1) {m : Moment}
    (hm : ∀ c, m.call? = some c → c.identifier.id ∈ p.ids)
    (hact : m.act.perform s = (.ok (), s')) :
    s'.Attends p (log ++ m.call?.toList) totals screen audience := by
  cases m with
  | read times =>
    have hscreen := Surroundings.screen_tick times s.surroundings
    obtain rfl := congrArg Prod.snd hact
    rw [show (Moment.read times).call?.toList = [] from rfl, List.append_nil]
    exact ⟨⟨h.holds.plan_eq, h.holds.writer, h.holds.console⟩, h.records, h.totals_eq,
      hscreen.trans h.screen_eq, h.audience_eq⟩
  | call c => exact h.deliver_call hone (hm c rfl) hact

theorem Attends.play (h : s.Attends p log totals screen audience)
    (hone : audience.count .console = 1) (hms : ∀ c ∈ callsOf ms, c.identifier.id ∈ p.ids)
    (hact : (play ms).perform s = (.ok (), s')) :
    s'.Attends p (log ++ callsOf ms) totals screen audience := by
  induction ms generalizing s log with
  | nil =>
    cases hact
    rw [show callsOf [] = [] from rfl, List.append_nil]
    exact h
  | cons m ms ih =>
    unfold play at hact
    rw [Act.perform_forM_cons] at hact
    obtain ⟨_, s₁, hfirst, hrest⟩ := Act.perform_bind_eq_ok hact
    have hcalls : callsOf (m :: ms) = m.call?.toList ++ callsOf ms := by
      unfold callsOf
      rw [List.filterMap_cons]
      cases m.call? <;> rfl
    rw [hcalls] at hms ⊢
    have hmoment := h.moment hone (fun c hc => hms c (List.mem_append_left _ (by simp [hc]))) hfirst
    rw [← List.append_assoc]
    exact ih hmoment (fun c hc => hms c (List.mem_append_right _ hc)) hrest

/-- What a console shows of a run, and what it counts, is what the reports on the engines tell: for
each engine its name and a line for each testcase, and the sums of their counts. -/
structure Tells (s : Session) (forest : List SuiteNode) (reports : List EngineReport)
    (s' : Session) : Prop where
  screen_eq : s'.surroundings.screen = s.surroundings.screen ++ String.join
    ((List.zipWith (fun e r => r.lines e.label.givenName) forest reports).flatten.map
      (· ++ "\n"))
  totals_eq : s'.console.totals = ⟨(reports.map (·.successes)).sum, (reports.map (·.failures)).sum,
    (reports.map (·.errors)).sum, (reports.map (·.skipped)).sum⟩

theorem tells_of_attends {forest : List SuiteNode} {reports : List EngineReport}
    (hroots : p.roots = forest.map (identifier · none))
    (htested : forest.map (fun e => Console.tested p log (e.identifier none)) =
      reports.map EngineReport.outcomes)
    (h : s'.Attends p log
      ((p.roots.flatMap fun root => (Console.tested p log root).map (·.2)).foldl Totals.count .zero)
      (s.surroundings.screen ++ String.join ((p.roots.flatMap fun root =>
        Console.linesOn root.name (Console.tested p log root)).map (· ++ "\n"))) audience) :
    s.Tells forest reports s' := by
  have hlines : (p.roots.flatMap fun root => Console.linesOn root.name (Console.tested p log root)) =
      (List.zipWith (fun e r => r.lines e.label.givenName) forest reports).flatten := by
    let linesOf (e : SuiteNode) := Console.linesOn e.label.shownName
    calc (p.roots.flatMap fun root => Console.linesOn root.name (Console.tested p log root))
      _ = (forest.map fun e => linesOf e (Console.tested p log (e.identifier none))).flatten := by
          rw [hroots, List.flatMap_map]
          rfl
      _ = (List.zipWith linesOf forest
            (forest.map fun e => Console.tested p log (e.identifier none))).flatten := by
          rw [List.zipWith_map_right, List.zipWith_self]
      _ = (List.zipWith linesOf forest (reports.map EngineReport.outcomes)).flatten := by
          rw [htested]
      _ = (List.zipWith (fun e r => r.lines e.label.givenName) forest reports).flatten := by
          rw [List.zipWith_map_right]
          simp only [linesOf, EngineReport.linesOn_outcomes, Label.shownName_eq]
  have houtcomes : (p.roots.flatMap fun root => (Console.tested p log root).map (·.2)) =
      reports.flatMap fun r => r.outcomes.map (·.2) := by
    calc (p.roots.flatMap fun root => (Console.tested p log root).map (·.2))
      _ = (forest.map fun e => Console.tested p log (e.identifier none)).flatMap fun tests =>
            tests.map (·.2) := by rw [hroots, List.flatMap_map, List.flatMap_map]
      _ = reports.flatMap fun r => r.outcomes.map (·.2) := by rw [htested, List.flatMap_map]
  rw [hlines, houtcomes] at h
  refine ⟨h.screen_eq, ?_⟩
  rw [h.totals_eq, Totals.foldl_count]
  simp only [EngineReport.sum_count, Totals.zero, Nat.zero_add]
  rfl

variable {forest : List SuiteNode} {aware : Bool}

theorem tells_along (hd : Discovery.ofForest forest = .ok d) (hs : s.Ready aware)
    (hone : s.audience.count .console = 1) (hms : RunsForest forest ms) :
    ∃ s', (runAlong d ms).perform s = (.ok (), s') ∧
      List.Forall₂ (fun e r => r.id = e.uniqueId none) forest (builtAlong d ms s) ∧
      s.Tells forest (builtAlong d ms s) s' := by
  obtain ⟨s', directory?, p, hact, hp, hreports, -, hplan⟩ := perform_runAlong hd hs hms
  have hboth := (List.forall₂_and_left forest _).2 ⟨fun e he => he, hreports⟩
  refine ⟨s', hact, hreports.imp fun e r hr => ?_, ?_⟩
  · obtain ⟨xs, log, -, htells, -⟩ := hr.exists_log
    exact htells.id_eq
  · have htested : forest.map (fun e => Console.tested p (callsOf ms) (e.identifier none)) =
        (builtAlong d ms s).map EngineReport.outcomes := by
      rw [← List.forall₂_eq_eq_eq, List.forall₂_map_left_iff, List.forall₂_map_right_iff]
      exact hboth.imp fun e r hr => hr.2.tested_eq hp hr.1 hms
    unfold runAlong at hact
    obtain ⟨_, s₁, hopen, hrest⟩ := Act.perform_bind_eq_ok hact
    obtain ⟨_, s₂, hplay, hclose⟩ := Act.perform_bind_eq_ok hrest
    rw [hopen] at hplan
    have hstart := attends_of_openPlan hone hopen
    rw [show s₁.plan = p from hplan] at hstart
    have hplayed := hstart.play hone (hms.id_mem_ids hp) hplay
    unfold closePlan at hclose
    rw [Act.perform_get_bind, hplayed.holds.plan_eq] at hclose
    exact tells_of_attends hp.roots_eq htested (hplayed.deliver_planFinished hone hclose)

theorem Tells.isClean_iff {reports : List EngineReport} (h : s.Tells forest reports s') :
    s'.console.totals.isClean = true ↔ ∀ r ∈ reports, r.failures = 0 ∧ r.errors = 0 := by
  unfold Totals.isClean
  rw [h.totals_eq, Bool.and_eq_true, beq_iff_eq, beq_iff_eq, List.sum_eq_zero_iff_forall_eq_nat,
    List.sum_eq_zero_iff_forall_eq_nat, List.forall_mem_map, List.forall_mem_map]
  exact ⟨fun h r hr => ⟨h.1 r hr, h.2 r hr⟩,
    fun h => ⟨fun r hr => (h r hr).1, fun r hr => (h r hr).2⟩⟩

theorem ending_of_command {l : Library} {suite : String} {settingsPath? directory? : Option String}
    {x : Surroundings} {settings : Settings} {threshold : Nat}
    (hload : Settings.load x.disk settingsPath? = .ok settings)
    (hthreshold : Log.threshold settings.logLevel = .ok threshold)
    (hsuite : l.findSuite suite = .ok forest)
    (hact : (run settings.runner forest).perform
      (.fresh x (Command.withDirectory settings directory?).reports [.writer, .console]) =
        (.ok (), s')) :
    ((Command.run suite settingsPath? directory? false).perform l x).1 =
      .exited (if s'.console.totals.isClean then 0 else 1) := by
  have hrunner : (Command.withDirectory settings directory?).runner = settings.runner := by
    unfold Command.withDirectory
    split <;> rfl
  rw [← hrunner] at hact
  unfold Command.perform
  simp only [hload, hthreshold, hsuite, Bool.false_eq_true, if_false]
  unfold Command.runForest
  dsimp only
  rw [hact]

/-- Console, reports and exit code agree: along every schedule that the workers may bring about the
console shows each engine with the testcases of its report and counts what the reports count,
whatever it did before, and a command ends with 0 just if no report has failures or errors. -/
theorem console_tells_reports (hd : Discovery.ofForest forest = .ok d)
    (hplain : PlainForest forest) (hs : s.Ready aware) (hone : s.audience.count .console = 1) :
    (∀ r : Runner, ∃ ms, RunsForest forest ms ∧
      (run r forest).perform s = (runAlong d ms).perform s) ∧
    (∀ ms, RunsForest forest ms → ∃ s', (runAlong d ms).perform s = (.ok (), s') ∧
      List.Forall₂ (fun e r => r.id = e.uniqueId none) forest (builtAlong d ms s) ∧
      s.Tells forest (builtAlong d ms s) s') ∧
    (∀ (l : Library) (suite : String) (settingsPath? directory? : Option String)
      (x : Surroundings) (settings : Settings) (threshold : Nat),
      Settings.load x.disk settingsPath? = .ok settings →
      Log.threshold settings.logLevel = .ok threshold → l.findSuite suite = .ok forest →
      s = .fresh x (Command.withDirectory settings directory?).reports [.writer, .console] →
      ∃ ms, RunsForest forest ms ∧
        (run settings.runner forest).perform s = (runAlong d ms).perform s ∧
        ((Command.run suite settingsPath? directory? false).perform l x).1 =
          .exited (if ∀ r ∈ builtAlong d ms s, r.failures = 0 ∧ r.errors = 0 then 0 else 1)) := by
  refine ⟨perform_run hd hs hplain, fun ms hms => tells_along hd hs hone hms, ?_⟩
  intro l suite settingsPath? directory? x settings threshold hload hthreshold hsuite hfresh
  obtain ⟨ms, hms, hrun⟩ := perform_run hd hs hplain settings.runner
  obtain ⟨s', hact, -, htells⟩ := tells_along hd hs hone hms
  refine ⟨ms, hms, hrun, ?_⟩
  rw [← hrun, hfresh] at hact
  rw [ending_of_command hload hthreshold hsuite hact]
  simp only [htells.isClean_iff]

/-- One test of two fails, so that the command ends with 1. -/
theorem console_tells_reports_failing :
    let boom := Thrown.make .assertionError [.text "boom"] true
    let failing := SuiteNode.test ⟨"u", none, none⟩ (some [.raise boom])
    let passing := SuiteNode.test ⟨"t", none, none⟩ none
    let engine := SuiteNode.group true ⟨"e", some "First", none⟩ .none [passing, failing]
    let l : Library := ⟨[⟨"a.b", false, [], none, .forest [engine]⟩, ⟨"a", true, [], none, .none⟩]⟩
    let x := Surroundings.bare (.fixed .epoch)
    let s := Session.fresh x Settings.standard.reports [.writer, .console]
    ∃ d, Discovery.ofForest [engine] = .ok d ∧ PlainForest [engine] ∧ s.Ready true ∧
      s.audience.count .console = 1 ∧ l.findSuite "a.b" = .ok [engine] ∧
      ∃ ms s' r, RunsForest [engine] ms ∧
        (run ⟨1, by decide⟩ [engine]).perform s = (.ok (), s') ∧ builtAlong d ms s = [r] ∧
        s.Tells [engine] [r] s' ∧
        s'.surroundings.screen = "Engine: First\n - e:t: PASS\n - e:u: FAIL\n" ∧ r.failures = 1 ∧
        ((Command.run "a.b" none none false).perform l x).1 = .exited 1 := by
  intro boom failing passing engine l x s
  have hplain : PlainForest [engine] := by decide
  have hready : s.Ready true :=
    ⟨Time.Clock.fixed_reliable .epoch, ⟨⟨_, rfl⟩, ⟨_, rfl⟩, by decide⟩, by decide⟩
  have hone : s.audience.count .console = 1 := by decide
  obtain ⟨d, hd⟩ : ∃ d, Discovery.ofForest [engine] = .ok d := ⟨_, rfl⟩
  have hthreshold : Log.threshold Settings.standard.logLevel = .ok 20 := by cbv
  have hsuite : l.findSuite "a.b" = .ok [engine] := by cbv
  obtain ⟨-, halong, hcommand⟩ := console_tells_reports hd hplain hready hone
  obtain ⟨ms, hms, hrun, hexit⟩ :=
    hcommand l "a.b" none none x .standard 20 rfl hthreshold hsuite rfl
  obtain ⟨s', hact, -, htells⟩ := halong ms hms
  have hopen : ∀ g ∈ [engine], g.isOpen = true := by decide
  have hpasses : Ruling [engine] passing .success := .returned hopen rfl rfl
  have hfails : Ruling [engine] failing (.failure (some (.ofThrown boom))) :=
    .failed hopen rfl (f := .thrown boom) rfl rfl rfl
  have hevery : s.EveryRun [engine] d (List.Forall₂ (fun _ r => ∃ c c', r.testcases = [c, c'] ∧
      c.id = "e:t" ∧ c.verdict = .success ∧ c'.id = "e:u" ∧
      c'.verdict = .failure (some (.ofThrown boom))) [engine]) := by
    apply everyRun hd hplain hready
    intro p e r hp he hr
    obtain rfl := List.mem_singleton.1 he
    obtain ⟨xs, log, -, htells, -⟩ := hr.exists_log
    have hids := congrArg (List.map (·.1)) htells.testcases_eq
    rw [List.map_map, List.map_map, testsUnder_eq hp he] at hids
    obtain ⟨c, rest, hcases, hid, hrest⟩ := List.map_eq_cons_iff.1 hids
    obtain ⟨c', rest', rfl, hid', hnil⟩ := List.map_eq_cons_iff.1 hrest
    obtain rfl := List.map_eq_nil_iff.1 hnil
    have hfirst := shows_by_path hp he hr (.down List.mem_cons_self .here) (List.cons_ne_nil _ _) rfl
      (hpasses.verdict_eq rfl)
    have hsecond := shows_by_path hp he hr (.down (List.mem_cons_of_mem _ List.mem_cons_self) .here)
      (List.cons_ne_nil _ _) rfl (hfails.verdict_eq rfl)
    refine ⟨c, c', hcases, hid, hfirst.verdict_eq c ?_ hid, hid', hsecond.verdict_eq c' ?_ hid'⟩
    · rw [hcases]
      exact List.mem_cons_self
    · rw [hcases]
      exact List.mem_cons_of_mem _ List.mem_cons_self
  obtain ⟨-, -, -, hreports, -⟩ := hevery.reports ms hms
  generalize hbuilt : builtAlong d ms s = reports at hreports htells hexit
  obtain _ | ⟨⟨c, c', hcases, hid, hverdict, hid', hverdict'⟩, hnil⟩ := hreports
  obtain _ | _ := hnil
  rename_i r
  have hfailures : r.failures = 1 := by
    unfold EngineReport.failures EngineReport.count
    rw [hcases, List.filter_cons, List.filter_cons, hverdict, hverdict']
    rfl
  have hlines : r.lines "First" = ["Engine: First", " - e:t: PASS", " - e:u: FAIL"] := by
    unfold EngineReport.lines
    rw [hcases, List.map_cons, List.map_cons, hid, hid', hverdict, hverdict']
    rfl
  have hscreen : s'.surroundings.screen =
      "" ++ String.join ([r.lines "First"].flatten.map (· ++ "\n")) := htells.screen_eq
  rw [hlines] at hscreen
  refine ⟨d, hd, hplain, hready, hone, hsuite, ms, s', r, hms, hrun.trans hact, hbuilt, htells,
    hscreen.trans rfl, hfailures, ?_⟩
  rw [hexit, if_neg]
  intro h
  have hclean := (h r List.mem_cons_self).1
  rw [hfailures] at hclean
  cases hclean

end Session

end TestRun
