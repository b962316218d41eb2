import TestRun.Proofs.Listener.Holding
import TestRun.Proofs.Listener.Starting
import TestRun.Proofs.Suite.Running
set_option autoImplicit false

namespace TestRun

open TestRun.Tree (Call)
open Writer (Settings)
open Files (Path Disk)
open Time (Instant Clock)

namespace Writer

variable {run : Run} {r : EngineReport}

theorem timestamp_of_report (run : Run) {id : String} {finishedAt? : Option Instant}
    (h : run.report id finishedAt? = .ok r) : r.timestamp = run.startedAt :=
  (Run.report_eq_ok h).2.2

theorem timestamp_of_builtAtEnd {i : Identifier} {e : Ending} {s : Surroundings}
    (h : r ∈ run.builtAtEnd i e s) : r.timestamp = run.startedAt := by
  unfold Run.builtAtEnd at h
  rcases hact : (Tree.hearEnded i e).perform (run.tree, s) with ⟨f | node, t, s'⟩ <;>
    rw [hact] at h
  · cases h
  · exact timestamp_of_report { run with tree := t } (Run.report_of_mem_completion h).2

theorem timestamp_of_built {w : Writer} (hw : w.run? = some run) {e : Event} {s : Surroundings}
    (h : r ∈ built e w s) : r.timestamp = run.startedAt := by
  unfold built at h
  rw [hw] at h
  cases e with
  | skipped i reason? => exact timestamp_of_builtAtEnd h
  | finished i result => exact timestamp_of_builtAtEnd h
  | planFinished plan? =>
    change r ∈ run.builtAtClose s at h
    unfold Run.builtAtClose at h
    rcases hread : s.clock.read with ⟨e | now, c⟩ <;> rw [hread] at h
    · cases h
    · obtain ⟨root, -, hreport⟩ := Run.report_of_mem_completions h
      exact timestamp_of_report run hreport
  | planStarted p | registered i | started i => cases h

theorem dated_endAct (o : Settings) (run : Run) (i : Identifier) (e : Ending) (s : Surroundings) :
    let run' := ((endAct o i e).perform (run, s)).2.1
    run'.startedAt = run.startedAt ∧ run'.directory? = run.directory? := by
  rcases hact : (Tree.hearEnded i e).perform (run.tree, s) with ⟨f | node, t, s'⟩
  · rw [(perform_endAct_error o hact).1]
    exact ⟨rfl, rfl⟩
  · rw [(perform_endAct_ok o hact).1]
    exact ⟨rfl, rfl⟩

theorem dated_callAct (o : Settings) (run : Run) (c : Call) (s : Surroundings) :
    let run' := ((callAct o c).perform (run, s)).2.1
    run'.startedAt = run.startedAt ∧ run'.directory? = run.directory? := by
  cases c with
  | register i => exact ⟨rfl, rfl⟩
  | started i =>
    rcases hact : (Tree.hearStarted i).perform (run.tree, s) with ⟨answer, t, s'⟩
    rw [perform_callAct_started o hact]
    exact ⟨rfl, rfl⟩
  | skipped i reason? => exact dated_endAct o run i _ s
  | finished i result => exact dated_endAct o run i _ s

end Writer

namespace Session

open Act

variable {now : Instant} {directory? : Option Path} {s : Session} {seat : Seat} {P : Session → Prop}

/-- The writer is in a run that began at this instant, with this reports directory. -/
def Began (now : Instant) (directory? : Option Path) (s : Session) : Prop :=
  ∃ run, s.writer.run? = some run ∧ run.startedAt = now ∧ run.directory? = directory?

theorem Began.of_writer {s' : Session} (h : s.Began now directory?) (hw : s'.writer = s.writer) :
    s'.Began now directory? := by
  unfold Began at h ⊢
  rw [hw]
  exact h

theorem Began.share (h : s.Began now directory?) (p : Plan) : (s.share p).Began now directory? := by
  obtain ⟨run, hrun, hnow, hdirectory⟩ := h
  obtain ⟨surroundings, plan, made, ⟨o, phase⟩, console, heard, audience⟩ := s
  cases phase with
  | running other =>
    cases hrun
    exact ⟨_, rfl, hnow, hdirectory⟩
  | notStarted | finished => cases hrun

theorem perform_hearWriter_running {e : Event} {answer : Except Fault Unit} {o : Settings}
    {run : Writer.Run} {x : Surroundings} (h : (Writer.hear e).perform (s.writer, s.surroundings) =
      (answer, (⟨o, .running run⟩, x))) :
    ∃ s', (hearWriter e).perform s = (answer, s') ∧ s'.Began run.startedAt run.directory? ∧
      s'.surroundings = x := by
  have hbegan : { s with writer := ⟨o, .running run⟩, surroundings := x }.Began run.startedAt
      run.directory? := ⟨run, rfl, rfl, rfl⟩
  exact ⟨_, perform_hearWriter h, hbegan.share run.tree.plan, rfl⟩

theorem keeps_began (c : Call) (seat : Seat) :
    Keeps (Began now directory?) (hearAt c.event seat) := by
  intro s hs
  cases seat with
  | silent => exact hs
  | recorder =>
    cases c <;> exact hs.of_writer rfl
  | console =>
    rcases hact : (Console.hear c.event).perform (s.console, s.surroundings) with ⟨answer, con, x⟩
    rw [hearAt, perform_hearConsole hact]
    have hkept : { s with console := con, surroundings := x }.Began now directory? :=
      hs.of_writer rfl
    cases con.tree? with
    | none => exact hkept
    | some tree => exact hkept.share tree.plan
  | writer =>
    obtain ⟨run, hrun, hnow, hdirectory⟩ := hs
    obtain ⟨surroundings, plan, made, ⟨o, phase⟩, console, heard, audience⟩ := s
    cases phase with
    | notStarted | finished => cases hrun
    | running other =>
      cases hrun
      obtain ⟨hstarted, hplace⟩ := Writer.dated_callAct o run c surroundings
      obtain ⟨s', hact, hbegan, -⟩ := perform_hearWriter_running
        (s := ⟨surroundings, plan, made, ⟨o, .running run⟩, console, heard, audience⟩)
        (Writer.perform_hear_call c o run surroundings)
      rw [hstarted, hplace, hnow, hdirectory] at hbegan
      rw [hearAt, hact]
      exact hbegan

theorem timestamp_of_builtAmong {c : Call} {seats : List Seat} (hs : s.Began now directory?)
    {r : EngineReport} (hr : r ∈ builtAmong c.event seats s) : r.timestamp = now := by
  induction seats generalizing s with
  | nil => cases hr
  | cons seat seats ih =>
    rw [builtAmong, List.mem_append] at hr
    rcases hr with hr | hr
    · cases seat with
      | writer =>
        obtain ⟨run, hrun, hnow, -⟩ := hs
        exact (Writer.timestamp_of_built hrun hr).trans hnow
      | console | recorder | silent => cases hr
    · have hs' := keeps_began c seat s hs
      rcases hact : (hearAt c.event seat).perform s with ⟨f | u, s'⟩ <;> rw [hact] at hr hs'
      · cases hr
      · exact ih hs' hr

theorem timestamp_of_builtOver {ms : List Moment} (hs : s.Began now directory?) {r : EngineReport}
    (hr : r ∈ builtOver ms s) : r.timestamp = now := by
  induction ms generalizing s with
  | nil => cases hr
  | cons m ms ih =>
    rw [builtOver, List.mem_append] at hr
    rcases hr with hr | hr
    · cases m with
      | read times => cases hr
      | call c => exact timestamp_of_builtAmong hs hr
    · have hs' : (m.act.perform s).2.Began now directory? := by
        cases m with
        | read times => exact hs.of_writer rfl
        | call c =>
          have hkeeps : Keeps (Began now directory?) (deliver c.event) :=
            Keeps.of_get fun s hs => keeps_forM (fun seat _ => keeps_began c seat) s hs
          exact hkeeps s hs
      rcases hact : m.act.perform s with ⟨f | u, s'⟩ <;> rw [hact] at hr hs'
      · cases hr
      · exact ih hs' hr

def Awaiting (o : Settings) (x : Surroundings) (s : Session) : Prop :=
  s.writer.settings = o ∧ s.surroundings = x

def Opened (now : Instant) (opened : Option Path × Disk) (s : Session) : Prop :=
  s.Began now opened.1 ∧ s.surroundings.disk = opened.2

theorem keeps_planStarted (hshare : ∀ s q, P s → P (s.share q))
    (hconsole : ∀ s con, P s → P { s with console := con })
    (hheard : ∀ s heard, P s → P { s with heard := heard }) (p : Plan) (hne : seat ≠ .writer) :
    Keeps P (hearAt (.planStarted p) seat) := by
  intro s hs
  cases seat with
  | writer => exact absurd rfl hne
  | console =>
    rw [hearAt, perform_hearConsole (Console.hear_planStarted s.console p s.surroundings)]
    exact hshare _ _ (hconsole s _ hs)
  | recorder => exact hheard s _ hs
  | silent => exact hs

theorem keeps_awaiting (o : Settings) (x : Surroundings) (p : Plan) (hne : seat ≠ .writer) :
    Keeps (Awaiting o x) (hearAt (.planStarted p) seat) :=
  keeps_planStarted (fun s q hs => ⟨(settings_share s q).trans hs.1, hs.2⟩) (fun _ _ hs => hs)
    (fun _ _ hs => hs) p hne

theorem keeps_opened (opened : Option Path × Disk) (p : Plan) (hne : seat ≠ .writer) :
    Keeps (Opened now opened) (hearAt (.planStarted p) seat) :=
  keeps_planStarted (fun _ q hs => ⟨hs.1.share q, hs.2⟩) (fun _ _ hs => ⟨hs.1.of_writer rfl, hs.2⟩)
    (fun _ _ hs => ⟨hs.1.of_writer rfl, hs.2⟩) p hne

theorem carries_begin {o : Settings} {x : Surroundings} (ho : o.Fits x.host) {c : Clock}
    (hread : x.clock.read = (.ok now, c)) (p : Plan) :
    Carries (Awaiting o x) (hearAt (.planStarted p) .writer) (Opened now (o.opened x.disk))
      fun _ => True := by
  rintro s ⟨rfl, rfl⟩
  obtain ⟨rows, x, hact, -, -, hdisk⟩ :=
    Writer.hear_planStarted_of_read ho hread s.writer.phase p
  obtain ⟨s₁, hhear, hbegan, hafter⟩ := perform_hearWriter_running hact
  rw [hearAt, hhear]
  refine ⟨hbegan, ?_⟩
  rw [hafter]
  exact hdisk

/-- Whoever listens before and after it, the writer begins a run at the first reading of the clock,
and opens the reports directory on the disk that it finds. -/
theorem openPlan_opened {aware : Bool} (hs : s.Ready aware) {c : Clock}
    (hread : s.surroundings.clock.read = (.ok now, c)) {d : Discovery} {s' : Session}
    (hopen : (openPlan d).perform s = (.ok (), s')) :
    s'.Opened now (s.writer.settings.opened s.surroundings.disk) := by
  let p := Plan.ofList (s.plansMade + 1) d.identifiers
  let x := (s.planned d).surroundings
  obtain ⟨before, after, haudience, hbefore, hafter⟩ := split_audience hs.one_writer
  have hfirst : Carries (Awaiting s.writer.settings x) (before.forM (hearAt (.planStarted p)))
      (Awaiting s.writer.settings x) fun _ => True :=
    (keeps_forM fun seat hmem =>
      keeps_awaiting _ x p fun heq => hbefore (heq ▸ hmem)).carries.weaken fun _ _ => trivial
  have hlast : Carries (Opened now (s.writer.settings.opened x.disk))
      (after.forM (hearAt (.planStarted p))) (Opened now (s.writer.settings.opened x.disk))
      fun _ => True :=
    (keeps_forM fun seat hmem => keeps_opened _ p fun heq => hafter (heq ▸ hmem)).carries.weaken
      fun _ _ => trivial
  have hrest : Carries (Awaiting s.writer.settings x)
      ((Seat.writer :: after).forM (hearAt (.planStarted p)))
      (Opened now (s.writer.settings.opened x.disk)) fun _ => True :=
    (carries_begin (x := x) hs.fits hread p).bind fun _ => hlast
  have hall := carries_append hfirst hrest (s.planned d) ⟨rfl, rfl⟩
  have hdeliver : ((before ++ .writer :: after).forM (hearAt (.planStarted p))).perform
      (s.planned d) = (.ok (), s') := by
    rw [← haudience]
    exact (perform_openPlan_eq d s).symm.trans hopen
  rw [hdeliver] at hall
  exact hall

end Session

end TestRun
