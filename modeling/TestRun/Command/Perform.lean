import TestRun.Command.Basic
import TestRun.Settings.Load
import TestRun.Suite.Execution
import TestRun.Suite.Library
import TestRun.Text.Terminal
set_option autoImplicit false

namespace TestRun

/-- What keeps a command from its end. -/
inductive Crash
  | settings (path : String) (f : SettingsFault)
  | suite (f : SuiteFault)
  | fault (f : Fault)

namespace Crash

def typeName : Crash → String
  | settings _ f => f.typeName
  | suite f => f.typeName
  | fault f => f.typeName

def message? : Crash → Option Datum
  | settings _ f => f.message?.map .text
  | suite f => some f.message
  | fault f => some f.message

def isRefusal : Crash → Bool
  | settings _ f => f.isRefusal
  | suite f => f.isRefusal
  | fault _ => false

def thrown? : Crash → Option Thrown
  | suite (.raised t) | fault (.thrown t) => some t
  | _ => none

def settingsHead (path : String) : String := "Invalid configuration " ++ path ++ ": "

def text : Crash → String
  | settings path f => settingsHead path ++ f.text
  | suite f => f.text
  | fault f => f.text

end Crash

namespace Command

inductive Ending
  | exited (code : Int)
  | misused
  | refused (c : Crash)
  | crashed (c : Crash)

def Ending.exitCode : Ending → Int
  | exited code => code
  | misused | refused _ => 2
  | crashed _ => 1

def echo (s : Surroundings) (line : String) : Surroundings :=
  { s with screen := s.screen ++ Text.withoutSequences line ++ "\n" }

def tell (s : Surroundings) (line : String) : Surroundings :=
  { s with sink := s.sink ++ Text.withoutSequences line ++ "\n" }

/-- The code of an exit that suite code asks for, and what is left to print. -/
def exitRequest : List Datum → Int × Option String
  | [] | [.null] => (0, none)
  | [.number n] => (n, none)
  | [.flag b] => (if b then 1 else 0, none)
  | args => (1, some (Thrown.plainText args))

def stop (c : Crash) (s : Surroundings) : Ending × Surroundings :=
  match c.thrown? with
  | some t =>
    if t.kind.name = "SystemExit" then
      match exitRequest t.args with
      | (code, none) => (.exited code, s)
      | (code, some text) => (.exited code, { s with screen := s.screen ++ text ++ "\n" })
    else if t.isBrokenPipe then (.exited 1, s)
    else if c.isRefusal then (.refused c, tell s c.text)
    else (.crashed c, s)
  | none => if c.isRefusal then (.refused c, tell s c.text) else (.crashed c, s)

def listIds (forest : List SuiteNode) (s : Surroundings) : Ending × Surroundings :=
  match Discovery.ofForest forest with
  | .error f => stop (.fault f) s
  | .ok d => (.exited 0, (d.identifiers.map (·.id)).foldl echo s)

def summary (t : Totals) : String :=
  "Done. " ++ toString t.passed ++ " passed, " ++ toString t.failed ++ " failed, " ++
    toString t.errors ++ " errors, " ++ toString t.skipped ++ " skipped."

/-- Runs a forest before the writer and the console. Records below the threshold are not shown. -/
def runForest (settings : Settings) (threshold : Nat) (forest : List SuiteNode)
    (s : Surroundings) : Ending × Surroundings :=
  let session := Session.fresh s settings.reports [.writer, .console]
  let (answer, session) := (Session.run settings.runner forest).perform session
  let s := session.surroundings
  let s := { s with log := (Log.above threshold s.log.toList).toArray }
  match answer with
  | .error f => stop (.fault f) s
  | .ok _ =>
    let totals := session.console.totals
    (.exited (if totals.isClean then 0 else 1), echo s (summary totals))

/-- The settings with another directory for reports, unless it has no name. -/
def withDirectory (settings : Settings) (directory? : Option String) : Settings :=
  match directory? with
  | none | some "" => settings
  | some directory =>
    { settings with reports := { settings.reports with directory := .ofString directory } }

def perform (l : Library) (command : Command) (s : Surroundings) : Ending × Surroundings :=
  match command with
  | .list suite =>
    match l.findSuite suite with
    | .error f => stop (.suite f) s
    | .ok forest => listIds forest s
  | .run suite settingsPath? directory? listOnly =>
    match Settings.load s.disk settingsPath? with
    | .error f => stop (.settings (settingsPath?.getD "") f) s
    | .ok settings =>
      match Log.threshold settings.logLevel with
      | .error e => stop (.fault (.unknownLevel e)) s
      | .ok threshold =>
        match l.findSuite suite with
        | .error f => stop (.suite f) s
        | .ok forest =>
          if listOnly then listIds forest s
          else runForest (withDirectory settings directory?) threshold forest s

def performLine (l : Library) (line : List String) (s : Surroundings) : Ending × Surroundings :=
  match ofLine? line with
  | some command => command.perform l s
  | none => (.misused, s)

end Command

end TestRun
