import TestRun.Listener.Writer
import TestRun.Proofs.Tree.Calls
set_option autoImplicit false

namespace TestRun

def Tree.Call.event : Tree.Call → Event
  | register i => .registered i
  | started i => .started i
  | skipped i reason? => .skipped i reason?
  | finished i result => .finished i result

namespace Writer

open Time Files Surroundings
open TestRun.Tree (Call)

def Run.settle (run : Run) (id : String) : Run :=
  { run with pending := run.pending.filter (·.id != id) }

def Run.awaits (run : Run) (id : String) : Bool := run.pending.any (·.id == id)

def Run.completion (run : Run) (id : String) (finishedAt? : Option Instant) : List EngineReport :=
  if run.awaits id then (run.report id finishedAt?).toOption.toList else []

/-- The reports that completing engines one after the other builds. A report that cannot be built
ends the row. -/
def Run.completions (now : Instant) : List Identifier → Run → List EngineReport
  | [], _ => []
  | root :: rest, run =>
    if run.awaits root.id then
      match run.report root.id (some now) with
      | .ok report => report :: completions now rest (run.settle root.id)
      | .error _ => []
    else completions now rest run

def Run.builtAtEnd (run : Run) (i : Identifier) (e : Ending) (s : Surroundings) :
    List EngineReport :=
  match (Tree.hearEnded i e).perform (run.tree, s) with
  | (.ok node, (tree, _)) => { run with tree := tree }.completion i.id node.finish
  | (.error _, _) => []

def Run.builtAtClose (run : Run) (s : Surroundings) : List EngineReport :=
  match s.clock.read with
  | (.ok now, _) => Run.completions now run.pending run
  | (.error _, _) => []

def built (e : Event) (w : Writer) (s : Surroundings) : List EngineReport :=
  match w.run?, e with
  | some run, .skipped i reason? => run.builtAtEnd i (.skipped (reason?.getD "")) s
  | some run, .finished i result => run.builtAtEnd i (.finished result) s
  | some run, .planFinished _ => run.builtAtClose s
  | _, _ => []

theorem map_of_mapM_eq_ok {ε α β γ : Type} {f : α → Except ε β} {g : β → γ} {k : α → γ}
    (h : ∀ a b, f a = .ok b → g b = k a) {xs : List α} {ys : List β} (hxs : xs.mapM f = .ok ys) :
    ys.map g = xs.map k := by
  induction xs generalizing ys with
  | nil =>
    cases hxs
    rfl
  | cons a xs ih =>
    rw [List.mapM_cons] at hxs
    cases ha : f a with
    | error e =>
      rw [ha] at hxs
      cases hxs
    | ok b =>
      rw [ha] at hxs
      cases hrest : xs.mapM f with
      | error e =>
        change (xs.mapM f >>= fun bs => pure (b :: bs)) = _ at hxs
        rw [hrest] at hxs
        cases hxs
      | ok bs =>
        change (xs.mapM f >>= fun bs => pure (b :: bs)) = _ at hxs
        rw [hrest] at hxs
        cases hxs
        rw [List.map_cons, List.map_cons, h a b ha, ih hrest]

theorem Run.testcase_eq_ok {run : Run} {engine : String} {test : Identifier}
    {finishedAt? : Option Instant} {c : Testcase}
    (h : run.testcase engine test finishedAt? = .ok c) :
    run.tree.duration test.id finishedAt? = .ok c.time ∧
      c = ⟨test.id, test.name, engine, c.time, run.tree.classify test⟩ := by
  unfold Run.testcase at h
  cases hd : run.tree.duration test.id finishedAt? with
  | error e =>
    rw [hd] at h
    cases h
  | ok d =>
    rw [hd] at h
    cases h
    exact ⟨rfl, rfl⟩

theorem Run.parts_of_report {run : Run} {id : String} {finishedAt? : Option Instant}
    {r : EngineReport} (h : run.report id finishedAt? = .ok r) :
    ((run.tree.plan.testsUnder id).mapM fun test => run.testcase id test finishedAt?) =
        .ok r.testcases ∧
      elapsed? (some run.startedAt) finishedAt? = .ok r.time ∧
      r = ⟨id, id, run.hostName, run.startedAt, r.time, run.properties, r.testcases⟩ := by
  unfold Run.report at h
  cases htests : (run.tree.plan.testsUnder id).mapM fun test =>
      run.testcase id test finishedAt? with
  | error e =>
    rw [htests] at h
    cases h
  | ok testcases =>
    rw [htests] at h
    cases hspan : elapsed? (some run.startedAt) finishedAt? with
    | error e =>
      change (elapsed? (some run.startedAt) finishedAt? >>= _) = _ at h
      rw [hspan] at h
      cases h
    | ok span =>
      change (elapsed? (some run.startedAt) finishedAt? >>= _) = _ at h
      rw [hspan] at h
      cases h
      exact ⟨rfl, rfl, rfl⟩

/-- A report that could be built has a testcase for each test below the engine, and the instant at
which the run began. -/
theorem Run.report_eq_ok {run : Run} {id : String} {finishedAt? : Option Instant}
    {r : EngineReport} (h : run.report id finishedAt? = .ok r) :
    r.id = id ∧ r.testcases.map (fun c => (c.id, c.name, c.className, c.verdict)) =
      (run.tree.plan.testsUnder id).map (fun t => (t.id, t.name, id, run.tree.classify t)) ∧
      r.timestamp = run.startedAt := by
  obtain ⟨htests, -, hr⟩ := Run.parts_of_report h
  rw [hr]
  refine ⟨rfl, map_of_mapM_eq_ok (fun test c hc => ?_) htests, rfl⟩
  rw [(Run.testcase_eq_ok hc).2]

def store (indent : Option String) (directory? : Option Path) (localOffset : Int) (d : Disk)
    (r : EngineReport) : Disk :=
  match directory? with
  | some directory => (stored indent (directory.child (reportFileName r.id)) r localOffset d).2
  | none => d

def troubleText (indent : Option String) (directory? : Option Path) (localOffset : Int) (d : Disk)
    (r : EngineReport) : String :=
  match directory? with
  | none => ""
  | some directory =>
    match (stored indent (directory.child (reportFileName r.id)) r localOffset d).1 with
    | .ok _ => ""
    | .error f => diagnostic ("Could not write XML report for engine " ++ r.id ++ ": " ++
        (directory.child (reportFileName r.id)).text) f

def publish (indent : Option String) (directory? : Option Path) (s : Surroundings)
    (r : EngineReport) : Surroundings :=
  match directory? with
  | some directory => ((write indent directory r).perform s).2
  | none => s

theorem exists_perform_write (indent : Option String) (directory : Path) (r : EngineReport)
    (s : Surroundings) : ∃ log, (write indent directory r).perform s = (.ok (), { s with
      disk := store indent (some directory) s.host.localOffset s.disk r
      sink := s.sink ++ troubleText indent (some directory) s.host.localOffset s.disk r
      log := log }) := by
  unfold write store troubleText
  simp only [Act.perform_get_bind, Act.perform_set_bind]
  cases (stored indent (directory.child (reportFileName r.id)) r s.host.localOffset s.disk).1 with
  | ok _ =>
    dsimp only
    rw [String.append_empty]
    exact ⟨_, rfl⟩
  | error f => exact ⟨_, perform_complain _ f _⟩

theorem perform_write (indent : Option String) (directory : Path) (r : EngineReport)
    (s : Surroundings) :
    (write indent directory r).perform s = (.ok (), publish indent (some directory) s r) := by
  obtain ⟨log, hact⟩ := exists_perform_write indent directory r s
  change _ = (Except.ok (), ((write indent directory r).perform s).2)
  rw [hact]

theorem exists_publish (indent : Option String) (directory? : Option Path) (s : Surroundings)
    (r : EngineReport) : ∃ log, publish indent directory? s r = { s with
      disk := store indent directory? s.host.localOffset s.disk r
      sink := s.sink ++ troubleText indent directory? s.host.localOffset s.disk r
      log := log } := by
  cases directory? with
  | none => exact ⟨s.log, by rw [store, troubleText, String.append_empty, publish]⟩
  | some directory =>
    obtain ⟨log, hact⟩ := exists_perform_write indent directory r s
    exact ⟨log, congrArg Prod.snd hact⟩

@[simp] theorem clock_publish (indent : Option String) (directory? : Option Path)
    (s : Surroundings) (r : EngineReport) :
    (publish indent directory? s r).clock = s.clock := by
  obtain ⟨log, h⟩ := exists_publish indent directory? s r
  rw [h]

@[simp] theorem host_publish (indent : Option String) (directory? : Option Path)
    (s : Surroundings) (r : EngineReport) : (publish indent directory? s r).host = s.host := by
  obtain ⟨log, h⟩ := exists_publish indent directory? s r
  rw [h]

theorem disk_publish (indent : Option String) (directory? : Option Path) (s : Surroundings)
    (r : EngineReport) :
    (publish indent directory? s r).disk = store indent directory? s.host.localOffset s.disk r := by
  obtain ⟨log, h⟩ := exists_publish indent directory? s r
  rw [h]

theorem sink_publish (indent : Option String) (directory? : Option Path) (s : Surroundings)
    (r : EngineReport) : (publish indent directory? s r).sink =
      s.sink ++ troubleText indent directory? s.host.localOffset s.disk r := by
  obtain ⟨log, h⟩ := exists_publish indent directory? s r
  rw [h]

theorem clock_foldl_publish (indent : Option String) (directory? : Option Path)
    (reports : List EngineReport) (s : Surroundings) :
    (reports.foldl (publish indent directory?) s).clock = s.clock := by
  induction reports generalizing s with
  | nil => rfl
  | cons r reports ih => rw [List.foldl_cons, ih, clock_publish]

theorem host_foldl_publish (indent : Option String) (directory? : Option Path)
    (reports : List EngineReport) (s : Surroundings) :
    (reports.foldl (publish indent directory?) s).host = s.host := by
  induction reports generalizing s with
  | nil => rfl
  | cons r reports ih => rw [List.foldl_cons, ih, host_publish]

theorem disk_foldl_publish (indent : Option String) (directory? : Option Path)
    (reports : List EngineReport) (s : Surroundings) :
    (reports.foldl (publish indent directory?) s).disk =
      reports.foldl (store indent directory? s.host.localOffset) s.disk := by
  induction reports generalizing s with
  | nil => rfl
  | cons r reports ih =>
    rw [List.foldl_cons, ih, host_publish, disk_publish]
    rfl

def troubles (indent : Option String) (directory? : Option Path) (localOffset : Int) :
    Disk → List EngineReport → String
  | _, [] => ""
  | d, r :: rest => troubleText indent directory? localOffset d r ++
      troubles indent directory? localOffset (store indent directory? localOffset d r) rest

theorem troubles_append (indent : Option String) (directory? : Option Path) (localOffset : Int)
    (d : Disk) (reports later : List EngineReport) :
    troubles indent directory? localOffset d (reports ++ later) =
      troubles indent directory? localOffset d reports ++
        troubles indent directory? localOffset
          (reports.foldl (store indent directory? localOffset) d) later := by
  induction reports generalizing d with
  | nil => exact String.empty_append.symm
  | cons r reports ih =>
    rw [List.cons_append, troubles, troubles, ih, String.append_assoc]
    rfl

theorem sink_foldl_publish (indent : Option String) (directory? : Option Path)
    (reports : List EngineReport) (s : Surroundings) :
    (reports.foldl (publish indent directory?) s).sink =
      s.sink ++ troubles indent directory? s.host.localOffset s.disk reports := by
  induction reports generalizing s with
  | nil => exact String.append_empty.symm
  | cons r reports ih =>
    let s₁ := publish indent directory? s r
    calc ((r :: reports).foldl (publish indent directory?) s).sink
      _ = s₁.sink ++ troubles indent directory? s₁.host.localOffset s₁.disk reports := ih s₁
      _ = s.sink ++ troubleText indent directory? s.host.localOffset s.disk r ++
            troubles indent directory? s.host.localOffset
              (store indent directory? s.host.localOffset s.disk r) reports := by
          rw [sink_publish, host_publish, disk_publish]
      _ = s.sink ++ troubles indent directory? s.host.localOffset s.disk (r :: reports) :=
          String.append_assoc

theorem perform_complete_other {run : Run} {id : String} (h : run.awaits id = false)
    (o : Settings) (finishedAt? : Option Instant) (s : Surroundings) :
    (complete o id finishedAt?).perform (run, s) = (.ok (), (run, s)) := by
  unfold complete
  unfold Run.awaits at h
  simp only [Hearing.perform_state_bind, h]
  rfl

theorem perform_complete_ok {run : Run} {id : String} (h : run.awaits id = true)
    {finishedAt? : Option Instant} {r : EngineReport} (hr : run.report id finishedAt? = .ok r)
    (o : Settings) (s : Surroundings) :
    (complete o id finishedAt?).perform (run, s) =
      (.ok (), (run.settle id, publish o.indent run.directory? s r)) := by
  unfold complete
  unfold Run.awaits at h
  have hr' : (run.settle id).report id finishedAt? = .ok r := hr
  unfold Run.settle at hr' ⊢
  simp only [Hearing.perform_state_bind, h, if_true, Hearing.perform_setState_bind, hr']
  cases hdir : run.directory? with
  | none => rfl
  | some directory => exact Hearing.perform_outside_eq (perform_write _ _ _ _)

theorem perform_complete_error {run : Run} {id : String} (h : run.awaits id = true)
    {finishedAt? : Option Instant} {e : TimeError} (he : run.report id finishedAt? = .error e)
    (o : Settings) (s : Surroundings) :
    (complete o id finishedAt?).perform (run, s) = (.error (.time e), (run.settle id, s)) := by
  unfold complete
  unfold Run.awaits at h
  have he' : (run.settle id).report id finishedAt? = .error e := he
  unfold Run.settle at he' ⊢
  simp only [Hearing.perform_state_bind, h, if_true, Hearing.perform_setState_bind, he']
  rfl

theorem settle_of_not_awaits {run : Run} {id : String} (h : run.awaits id = false) :
    run.settle id = run := by
  have hstays : run.pending.filter (·.id != id) = run.pending := by
    apply List.filter_eq_self.2
    intro root hroot
    have hother := List.any_eq_false.1 h root hroot
    simpa using hother
  unfold Run.settle
  rw [hstays]

theorem perform_complete (o : Settings) (run : Run) (id : String) (finishedAt? : Option Instant)
    (s : Surroundings) :
    ((complete o id finishedAt?).perform (run, s)).2 = (run.settle id,
      (run.completion id finishedAt?).foldl (publish o.indent run.directory?) s) := by
  unfold Run.completion
  cases h : run.awaits id with
  | false =>
    rw [perform_complete_other h, if_neg Bool.false_ne_true, settle_of_not_awaits h]
    rfl
  | true =>
    rw [if_pos rfl]
    cases hr : run.report id finishedAt? with
    | error e =>
      rw [perform_complete_error h hr]
      rfl
    | ok r =>
      rw [perform_complete_ok h hr]
      rfl

theorem perform_completeEach (o : Settings) (now : Instant) (roots : List Identifier) (run : Run)
    (s : Surroundings) :
    ∃ left, left ⊆ run.pending ∧
      ((roots.forM fun root => complete o root.id (some now)).perform (run, s)).2 =
        ({ run with pending := left },
          (Run.completions now roots run).foldl (publish o.indent run.directory?) s) := by
  induction roots generalizing run s with
  | nil => exact ⟨run.pending, List.Subset.refl _, rfl⟩
  | cons root rest ih =>
    rw [Act.perform_forM_cons]
    unfold Run.completions
    cases h : run.awaits root.id with
    | false =>
      rw [Act.perform_bind_ok (perform_complete_other h o _ s), if_neg Bool.false_ne_true]
      exact ih run s
    | true =>
      have hfewer : (run.settle root.id).pending ⊆ run.pending := List.filter_subset_self _
      rw [if_pos rfl]
      cases hr : run.report root.id (some now) with
      | error e =>
        rw [Act.perform_bind_error (perform_complete_error h hr o s)]
        exact ⟨_, hfewer, rfl⟩
      | ok r =>
        obtain ⟨left, hleft, hact⟩ := ih (run.settle root.id) (publish o.indent run.directory? s r)
        rw [Act.perform_bind_ok (perform_complete_ok h hr o s), hact]
        exact ⟨left, List.Subset.trans hleft hfewer, rfl⟩

theorem perform_completeRest (o : Settings) (run : Run) (s : Surroundings) :
    ∃ left s', left ⊆ run.pending ∧ s.Quiet s' ∧
      ((completeRest o).perform (run, s)).2 = ({ run with pending := left },
        (run.builtAtClose s).foldl (publish o.indent run.directory?) s') := by
  unfold completeRest Run.builtAtClose
  rw [Hearing.perform_state_bind]
  cases hp : run.pending with
  | nil =>
    refine ⟨[], s, List.Subset.refl _, .refl s, ?_⟩
    have hrun : run = { run with pending := [] } := by
      rw [← hp]
    rcases s.clock.read with ⟨_ | _, _⟩ <;> rw [← hrun] <;> rfl
  | cons root rest =>
    simp only [List.isEmpty_cons, Bool.not_false, if_true]
    rcases hread : s.clock.read with ⟨e | now, c⟩
    · have hfail : readClock.perform s = (.error (.time e), { s with clock := c }) := by
        unfold readClock
        simp only [Act.perform_get_bind, hread, Act.perform_set_bind, Act.perform_throw]
      have hout : (Hearing.outside readClock).perform (run, s) =
          (.error (.time e), (run, { s with clock := c })) := Hearing.perform_outside_eq hfail
      rw [Act.perform_bind_error hout]
      refine ⟨root :: rest, _, List.Subset.refl _, .withClock s c, ?_⟩
      rw [← hp]
      rfl
    · have hout : (Hearing.outside readClock).perform (run, s) =
          (.ok now, (run, { s with clock := c })) :=
        Hearing.perform_outside_eq (perform_readClock hread)
      obtain ⟨left, hleft, hact⟩ :=
        perform_completeEach o now (root :: rest) run { s with clock := c }
      rw [hp] at hleft
      rw [Act.perform_bind_ok hout, hact]
      exact ⟨left, _, hleft, .withClock s c, rfl⟩

theorem perform_withTree {α : Type} {act : Hearing Tree α} {run : Run} {s s' : Surroundings}
    {answer : Except Fault α} {t : Tree} (h : act.perform (run.tree, s) = (answer, (t, s'))) :
    (Run.withTree act).perform (run, s) = (answer, ({ run with tree := t }, s')) := by
  unfold Run.withTree Hearing.part
  rw [Act.perform_within, h]

theorem perform_whileRunning (event : String) (act : Hearing Run Unit) (o : Settings) (run : Run)
    (s : Surroundings) :
    (whileRunning event act).perform (⟨o, .running run⟩, s) =
      ((act.perform (run, s)).1,
        (⟨o, .running (act.perform (run, s)).2.1⟩, (act.perform (run, s)).2.2)) := rfl

def endAct (o : Settings) (i : Identifier) (e : Ending) : Hearing Run Unit := do
  let node ← Run.withTree (Tree.hearEnded i e)
  complete o i.id node.finish

def callAct (o : Settings) : Call → Hearing Run Unit
  | .register i => Run.withTree (Tree.hearRegistered i)
  | .started i => do let _ ← Run.withTree (Tree.hearStarted i)
  | .skipped i reason? => endAct o i (.skipped (reason?.getD ""))
  | .finished i result => endAct o i (.finished result)

theorem perform_callAct_started (o : Settings) {run : Run} {i : Identifier} {s s' : Surroundings}
    {answer : Except Fault Node} {t : Tree}
    (h : (Tree.hearStarted i).perform (run.tree, s) = (answer, (t, s'))) :
    (callAct o (.started i)).perform (run, s) =
      (answer.map fun _ => (), ({ run with tree := t }, s')) := by
  change (Run.withTree (Tree.hearStarted i) >>= fun _ => pure ()).perform (run, s) = _
  rw [Act.perform_bind, perform_withTree h]
  cases answer <;> rfl

theorem perform_hear_call (c : Call) (o : Settings) (run : Run) (s : Surroundings) :
    (hear c.event).perform (⟨o, .running run⟩, s) =
      (((callAct o c).perform (run, s)).1,
        (⟨o, .running ((callAct o c).perform (run, s)).2.1⟩,
          ((callAct o c).perform (run, s)).2.2)) := by
  cases c <;> rfl

theorem perform_hear_planFinished (plan? : Option Plan) (o : Settings) (run : Run)
    (s : Surroundings) :
    (hear (.planFinished plan?)).perform (⟨o, .running run⟩, s) =
      match (completeRest o).perform (run, s) with
      | (.ok _, (_, s')) => (.ok (), (⟨o, .finished⟩, s'))
      | (.error f, (run', s')) => (.error f, (⟨o, .running run'⟩, s')) := by
  have hact := perform_whileRunning "test_plan_execution_finished" (completeRest o) o run s
  unfold hear hearPlanFinished
  simp only [Hearing.perform_state_bind, run?, Option.isSome_some, if_true]
  rcases h : (completeRest o).perform (run, s) with ⟨_ | _, run', s'⟩ <;> rw [h] at hact
  · rw [Act.perform_bind_error hact]
  · rw [Act.perform_bind_ok hact]
    rfl

theorem perform_hear_idle {e : Event} (he : ∀ plan, e ≠ .planStarted plan) {w : Writer}
    (hw : w.run? = none) (s : Surroundings) :
    ∃ message, (hear e).perform (w, s) =
      (.ok (), (w, { s with log := s.log.push ⟨.warning, message⟩ })) := by
  obtain ⟨o, phase⟩ := w
  cases phase with
  | running run => cases hw
  | notStarted | finished =>
    cases e with
    | planStarted plan => exact absurd rfl (he plan)
    | planFinished plan? | registered i | started i | skipped i reason? | finished i result =>
      exact ⟨_, rfl⟩

theorem built_idle (e : Event) {w : Writer} (hw : w.run? = none) (s : Surroundings) :
    built e w s = [] := by
  unfold built
  rw [hw]

theorem built_planStarted (p : Plan) (w : Writer) (s : Surroundings) :
    built (.planStarted p) w s = [] := by
  unfold built
  cases w.run? <;> rfl

def Run.Gives (run : Run) (pending : List Identifier) (reports : List EngineReport) : Prop :=
  ∀ r ∈ reports, ∃ root ∈ pending, ∃ finishedAt?, run.report root.id finishedAt? = .ok r

theorem Run.gives_nil (run : Run) (pending : List Identifier) : run.Gives pending [] :=
  List.forall_mem_nil _

theorem Run.report_of_mem_completion {run : Run} {id : String} {finishedAt? : Option Instant}
    {r : EngineReport} (hr : r ∈ run.completion id finishedAt?) :
    (∃ root ∈ run.pending, root.id = id) ∧ run.report id finishedAt? = .ok r := by
  unfold Run.completion at hr
  split at hr
  · next hawaits =>
    obtain ⟨root, hroot, hid⟩ := List.any_eq_true.1 hawaits
    cases hreport : run.report id finishedAt? with
    | error e =>
      rw [hreport] at hr
      cases hr
    | ok report =>
      rw [hreport] at hr
      obtain rfl := List.mem_singleton.1 hr
      exact ⟨⟨root, hroot, beq_iff_eq.1 hid⟩, rfl⟩
  · cases hr

theorem Run.gives_completion (run : Run) (id : String) (finishedAt? : Option Instant) :
    run.Gives run.pending (run.completion id finishedAt?) := by
  intro r hr
  obtain ⟨⟨root, hroot, rfl⟩, hreport⟩ := Run.report_of_mem_completion hr
  exact ⟨root, hroot, finishedAt?, hreport⟩

theorem Run.report_of_mem_completions {now : Instant} {roots : List Identifier} {run : Run}
    {r : EngineReport} (hr : r ∈ Run.completions now roots run) :
    ∃ root ∈ roots, run.report root.id (some now) = .ok r := by
  induction roots generalizing run with
  | nil => cases hr
  | cons root rest ih =>
    unfold Run.completions at hr
    split at hr
    · cases hreport : run.report root.id (some now) with
      | error e =>
        rw [hreport] at hr
        cases hr
      | ok report =>
        rw [hreport] at hr
        rcases List.mem_cons.1 hr with rfl | hr
        · exact ⟨root, List.mem_cons_self, hreport⟩
        · obtain ⟨other, hother, hok⟩ := ih hr
          exact ⟨other, List.mem_cons_of_mem _ hother, hok⟩
    · obtain ⟨other, hother, hok⟩ := ih hr
      exact ⟨other, List.mem_cons_of_mem _ hother, hok⟩

theorem Run.gives_completions (now : Instant) (roots : List Identifier) (run : Run) :
    run.Gives roots (Run.completions now roots run) := by
  intro r hr
  obtain ⟨root, hroot, hreport⟩ := Run.report_of_mem_completions hr
  exact ⟨root, hroot, some now, hreport⟩

/-- What an event other than the start of a plan makes of a run: a tree that has grown, fewer
engines to be done, and in the surroundings just what the reports that were built leave there. -/
structure Run.Moves (o : Settings) (run : Run) (s : Surroundings) (reports : List EngineReport)
    (run' : Run) (s' : Surroundings) : Prop where
  exists_pending : ∃ tree left, run' = { run with tree := tree, pending := left } ∧
    left ⊆ run.pending
  exists_quiet : ∃ s₁, s.Quiet s₁ ∧
    s' = reports.foldl (publish o.indent run.directory?) s₁
  gives : run'.Gives run.pending reports

theorem Run.Moves.disk_eq {o : Settings} {run run' : Run} {s s' : Surroundings}
    {reports : List EngineReport} (h : run.Moves o s reports run' s') :
    s'.disk = reports.foldl (store o.indent run.directory? s.host.localOffset) s.disk := by
  obtain ⟨s₁, hquiet, rfl⟩ := h.exists_quiet
  rw [disk_foldl_publish, hquiet.disk_eq, hquiet.host_eq]

theorem Run.Moves.host_eq {o : Settings} {run run' : Run} {s s' : Surroundings}
    {reports : List EngineReport} (h : run.Moves o s reports run' s') : s'.host = s.host := by
  obtain ⟨s₁, hquiet, rfl⟩ := h.exists_quiet
  rw [host_foldl_publish, hquiet.host_eq]

theorem Run.Moves.sink_eq {o : Settings} {run run' : Run} {s s' : Surroundings}
    {reports : List EngineReport} (h : run.Moves o s reports run' s') :
    s'.sink = s.sink ++ troubles o.indent run.directory? s.host.localOffset s.disk reports := by
  obtain ⟨s₁, hquiet, rfl⟩ := h.exists_quiet
  rw [sink_foldl_publish, hquiet.sink_eq, hquiet.disk_eq, hquiet.host_eq]

theorem Run.Moves.directory?_eq {o : Settings} {run run' : Run} {s s' : Surroundings}
    {reports : List EngineReport} (h : run.Moves o s reports run' s') :
    run'.directory? = run.directory? := by
  obtain ⟨tree, left, rfl, -⟩ := h.exists_pending
  rfl

theorem Run.Moves.pending_subset {o : Settings} {run run' : Run} {s s' : Surroundings}
    {reports : List EngineReport} (h : run.Moves o s reports run' s') :
    run'.pending ⊆ run.pending := by
  obtain ⟨tree, left, rfl, hleft⟩ := h.exists_pending
  exact hleft

theorem perform_endAct_ok (o : Settings) {run : Run} {i : Identifier} {e : Ending}
    {s s' : Surroundings} {n : Node} {t : Tree}
    (h : (Tree.hearEnded i e).perform (run.tree, s) = (.ok n, (t, s'))) :
    let run' : Run := { run with tree := t }
    ((endAct o i e).perform (run, s)).2 = (run'.settle i.id,
        (run'.completion i.id n.finish).foldl (publish o.indent run.directory?) s') ∧
      run.builtAtEnd i e s = run'.completion i.id n.finish := by
  unfold endAct Run.builtAtEnd
  rw [Act.perform_bind_ok (perform_withTree h), perform_complete, h]
  exact ⟨rfl, rfl⟩

theorem perform_endAct_error (o : Settings) {run : Run} {i : Identifier} {e : Ending}
    {s s' : Surroundings} {f : Fault} {t : Tree}
    (h : (Tree.hearEnded i e).perform (run.tree, s) = (.error f, (t, s'))) :
    ((endAct o i e).perform (run, s)).2 = ({ run with tree := t }, s') ∧
      run.builtAtEnd i e s = [] := by
  unfold endAct Run.builtAtEnd
  rw [Act.perform_bind_error (perform_withTree h), h]
  exact ⟨rfl, rfl⟩

theorem moves_endAct (o : Settings) {run : Run} (h : run.tree.Coherent) (i : Identifier)
    (e : Ending) (s : Surroundings) :
    let after := ((endAct o i e).perform (run, s)).2
    run.Moves o s (run.builtAtEnd i e s) after.1 after.2 ∧ run.tree.Grows i after.1.tree := by
  obtain ⟨answer, t, s₁, hact, hgrows, hquiet⟩ := h.hearEnded_grows i e s
  cases answer with
  | error f =>
    obtain ⟨hafter, hbuilt⟩ := perform_endAct_error o hact
    rw [hafter, hbuilt]
    exact ⟨⟨⟨t, run.pending, rfl, List.Subset.refl _⟩, ⟨s₁, hquiet, rfl⟩, Run.gives_nil _ _⟩, hgrows⟩
  | ok node =>
    obtain ⟨hafter, hbuilt⟩ := perform_endAct_ok o hact
    rw [hafter, hbuilt]
    exact ⟨⟨⟨t, _, rfl, List.filter_subset_self _⟩, ⟨s₁, hquiet, rfl⟩,
      Run.gives_completion { run with tree := t } i.id node.finish⟩, hgrows⟩

theorem moves_callAct (o : Settings) {run : Run} (h : run.tree.Coherent) (c : Call)
    (s : Surroundings) :
    let after := ((callAct o c).perform (run, s)).2
    run.Moves o s (built c.event ⟨o, .running run⟩ s) after.1 after.2 ∧
      run.tree.Grows c.identifier after.1.tree := by
  cases c with
  | register i =>
    exact ⟨⟨⟨_, run.pending, rfl, List.Subset.refl _⟩, ⟨s, .refl s, rfl⟩, Run.gives_nil _ _⟩,
      rfl, h.register i⟩
  | started i =>
    obtain ⟨answer, t, s₁, hact, hgrows, hquiet⟩ := h.hearStarted_grows i s
    rw [perform_callAct_started o hact]
    exact ⟨⟨⟨t, run.pending, rfl, List.Subset.refl _⟩, ⟨s₁, hquiet, rfl⟩, Run.gives_nil _ _⟩, hgrows⟩
  | skipped i reason? => exact moves_endAct o h i _ s
  | finished i result => exact moves_endAct o h i _ s

theorem moves_completeRest (o : Settings) (run : Run) (s : Surroundings) :
    let after := ((completeRest o).perform (run, s)).2
    run.Moves o s (run.builtAtClose s) after.1 after.2 ∧ after.1.tree = run.tree := by
  obtain ⟨left, s', hleft, hquiet, hact⟩ := perform_completeRest o run s
  rw [hact]
  refine ⟨⟨⟨run.tree, left, rfl, hleft⟩, ⟨s', hquiet, rfl⟩, ?_⟩, rfl⟩
  unfold Run.builtAtClose
  rcases s.clock.read with ⟨_ | now, c⟩
  · exact Run.gives_nil _ _
  · exact Run.gives_completions now run.pending run

end Writer

end TestRun
