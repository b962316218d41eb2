import TestRun.Listener.Event
import TestRun.Report.Document
import TestRun.Text.Percent
set_option autoImplicit false

/-!
# The writer of reports

The writer follows a run and writes the report of an engine as soon as the engine ends, or when
the run ends for an engine that did not. Trouble with one report is noted and stops nothing else.
-/

namespace TestRun

open Time Files Surroundings Text

def reportFileName (id : String) : String := "TEST-" ++ Text.percentEncode id ++ ".xml"

namespace Writer

structure Settings where
  directory : CodeText
  /-- Shown in place of the host's own name, unless empty. -/
  hostName? : Option CodeText
  extra : List (CodeText × CodeText)
  withEnvironment : Bool
  indent : Option String
  deriving DecidableEq

structure Run where
  tree : Tree
  /-- The engines whose reports are still to be built. -/
  pending : List Identifier
  startedAt : Instant
  hostName : String
  properties : List (String × String)
  /-- The reports directory, once it was created. -/
  directory? : Option Path

inductive Phase
  | notStarted
  | running (run : Run)
  | finished

def Phase.text : Phase → String
  | notStarted => "not_started"
  | running _ => "started"
  | finished => "finished"

end Writer

structure Writer where
  settings : Writer.Settings
  phase : Writer.Phase

namespace Writer

def fresh (settings : Settings) : Writer := ⟨settings, .notStarted⟩

def Settings.hostName (o : Settings) (h : Host) : String :=
  match o.hostName? with
  | some name => if name.isEmpty then h.name else name.referenced
  | none => h.name

def shownProperties (rows : List (CodeText × CodeText)) : List (String × String) :=
  rows.map fun r => (r.1.referenced, r.2.referenced)

def Run.testcase (run : Run) (engine : String) (test : Identifier) (finishedAt? : Option Instant) :
    Except TimeError Testcase := do
  let time ← run.tree.duration test.id finishedAt?
  pure ⟨test.id, test.name, engine, time, run.tree.classify test⟩

def Run.report (run : Run) (engine : String) (finishedAt? : Option Instant) :
    Except TimeError EngineReport := do
  let testcases ← (run.tree.plan.testsUnder engine).mapM fun test =>
    run.testcase engine test finishedAt?
  let time ← elapsed? (some run.startedAt) finishedAt?
  pure ⟨engine, engine, run.hostName, run.startedAt, time, run.properties, testcases⟩

def writtenText (path : Path) (r : EngineReport) : String :=
  "Wrote " ++ path.text ++ " (" ++ toString r.tests ++ " tests, " ++ toString r.failures ++
    " failures, " ++ toString r.errors ++ " errors, " ++ toString r.skipped ++ " skipped)"

def stored (indent : Option String) (path : Path) (r : EngineReport) (localOffset : Int) (d : Disk) :
    Except Fault Unit × Disk :=
  match r.render indent localOffset with
  | .error e => (.error (.time e), d)
  | .ok text =>
    let (answer, d) := d.write path text.toUTF8
    (answer.mapError .file, d)

def write (indent : Option String) (directory : Path) (r : EngineReport) :
    Act Surroundings Unit := do
  let path := directory.child (reportFileName r.id)
  let s ← get
  let (answer, d) := stored indent path r s.host.localOffset s.disk
  set { s with disk := d }
  match answer with
  | .ok _ => debug (writtenText path r)
  | .error f =>
    complain ("Could not write XML report for engine " ++ r.id ++ ": " ++ path.text) f

def openDirectory (directory : CodeText) : Act Surroundings (Option Path) := do
  match Path.ofCode directory with
  | .error e => throw (.unencodable e)
  | .ok path => do
    if directory.contains (.ofChar '\x00') then throw .zeroInPath
    let s ← get
    let (answer, d) := s.disk.makeDirectories path
    set { s with disk := d }
    match answer with
    | .ok _ => pure (some path)
    | .error e => do
      complain ("Could not create reports directory: " ++ path.text) (.file e)
      pure none

def complete (o : Settings) (id : String) (finishedAt? : Option Instant) : Hearing Run Unit := do
  let run ← Hearing.state
  if run.pending.any (·.id == id) then
    let run := { run with pending := run.pending.filter (·.id != id) }
    Hearing.setState run
    match run.report id finishedAt? with
    | .error e => throw (.time e)
    | .ok report =>
      match run.directory? with
      | some directory => Hearing.outside (write o.indent directory report)
      | none => pure ()

def completeRest (o : Settings) : Hearing Run Unit := do
  let rest := (← Hearing.state).pending
  if !rest.isEmpty then
    let finishedAt ← Hearing.outside readClock
    rest.forM fun root => complete o root.id (some finishedAt)

def Run.withTree {α : Type} (act : Hearing Tree α) : Hearing Run α :=
  act.part (fun run => run.tree) (fun tree run => { run with tree := tree })

/-- Gives an event to the run in progress; out of a run it is ignored with a warning. -/
def whileRunning (event : String) (act : Hearing Run Unit) : Hearing Writer Unit := do
  let w ← Hearing.state
  match w.phase with
  | .running run => act.within (fun p => (run, p.2)) (fun q p => (⟨p.1.settings, .running q.1⟩, q.2))
  | phase => Hearing.outside (warn ("Ignoring " ++ event ++ " while " ++ phase.text))

def run? (w : Writer) : Option Run :=
  match w.phase with
  | .running run => some run
  | _ => none

def setRun (run : Run) : Hearing Writer Unit := do
  Hearing.setState { (← Hearing.state) with phase := .running run }

/-- Begins a run. The record of an unfinished one is discarded, once the clock and the properties
could be read. -/
def hearPlanStarted (plan : Plan) : Hearing Writer Unit := do
  let w ← Hearing.state
  let o := w.settings
  if w.run?.isSome then
    Hearing.outside (warn "Test plan started twice; discarding previous run state")
  let now ← Hearing.outside readClock
  let host := (← get).2.host
  let hostName := o.hostName host
  match w.run? with
  | some run => setRun { run with startedAt := now, hostName := hostName }
  | none => pure ()
  match host.properties o.extra o.withEnvironment with
  | .error t => throw (.thrown t)
  | .ok properties => do
    let run : Run := ⟨.begin plan (some now), plan.roots, now, hostName, shownProperties properties, none⟩
    setRun run
    let directory? ← Hearing.outside (openDirectory o.directory)
    setRun { run with directory? := directory? }

def hearPlanFinished : Hearing Writer Unit := do
  let o := (← Hearing.state).settings
  let running := (← Hearing.state).run?.isSome
  whileRunning "test_plan_execution_finished" (completeRest o)
  if running then Hearing.setState ⟨o, .finished⟩

def hear (e : Event) : Hearing Writer Unit := do
  let o := (← Hearing.state).settings
  match e with
  | .planStarted plan => hearPlanStarted plan
  | .planFinished _ => hearPlanFinished
  | .registered i => whileRunning "dynamic_test_registered" (Run.withTree (Tree.hearRegistered i))
  | .started i =>
    whileRunning "execution_started" (do let _ ← Run.withTree (Tree.hearStarted i))
  | .skipped i reason? =>
    whileRunning "execution_skipped" (do
      let node ← Run.withTree (Tree.hearSkipped i reason?)
      complete o i.id node.finish)
  | .finished i result =>
    whileRunning "execution_finished" (do
      let node ← Run.withTree (Tree.hearFinished i result)
      complete o i.id node.finish)

end Writer

end TestRun
