import Std.Time.DateTime.Timestamp
import TestRun.Command.Perform
set_option autoImplicit false

namespace TestRun.Program

open Time Files

def firstLine (path default : String) : IO String := do
  try
    pure ((((← IO.FS.readFile path).splitOn "\n").head?).getD default)
  catch _ => pure default

def entry? (entry : String) : Option (String × String) :=
  match entry.splitOn "=" with
  | name :: value => if name.isEmpty then none else some (name, String.intercalate "=" value)
  | [] => none

def environment : IO (List (String × String)) := do
  try
    pure (((← IO.FS.readFile "/proc/self/environ").splitOn "\x00").filterMap entry?)
  catch _ => pure []

/-- The facts of this machine. Local time is universal time. -/
def host : IO Host := do
  let environment ← environment
  let user := match environment.lookup "USER" with
    | some name => Except.ok name
    | none => .error (.make .keyError [.text "USER"] true)
  pure {
    separator := "/", pathSeparator := ":", lineSeparator := "\n",
    system := ← firstLine "/proc/sys/kernel/ostype" "",
    release := ← firstLine "/proc/sys/kernel/osrelease" "",
    machine := ← firstLine "/proc/sys/kernel/arch" "",
    runtimeVersion := "4.33.0", runtimeName := "Lean",
    executable := (← IO.appPath).toString, directory := (← IO.currentDir).toString,
    user := user, name := ← firstLine "/proc/sys/kernel/hostname" "",
    environment := Host.coded environment, family := "posix", version := [4, 33, 0], localOffset := 0 }

def now : IO Instant := do
  let t ← Std.Time.Timestamp.now
  pure ((Instant.ofMicros? (t.toNanosecondsSinceUnixEpoch.val / 1000) (some 0)).getD .epoch)

/-- The files that a command reads: its settings, if it names any that can be read. -/
def diskFor (line : List String) : IO Disk := do
  match Command.ofLine? line with
  | some (.run _ (some path) _ _) =>
    try
      let content ← IO.FS.readBinFile path
      let p := Path.ofString path
      let (_, d) := Disk.empty.makeDirectories ⟨p.slashes, p.names.dropLast⟩
      pure (d.write p content).2
    catch _ => pure .empty
  | _ => pure .empty

def writeEntry : String × Entry → IO Unit
  | (label, .directory) => IO.FS.createDirAll label
  | (label, .file content) => IO.FS.writeBinFile label content

end TestRun.Program

open TestRun in
def main (line : List String) : IO UInt32 := do
  let host ← Program.host
  let disk ← Program.diskFor line
  let before : Surroundings := ⟨host, .fixed (← Program.now), none, disk, "", "", #[]⟩
  let (ending, after) := Command.performLine (.ofModules host []) line before
  (Files.Disk.changes disk after.disk).forM Program.writeEntry
  IO.print after.screen
  IO.eprint after.sink
  for r in after.log do
    IO.eprintln (r.level.text ++ " " ++ r.message)
  match ending with
  | .misused => IO.eprintln "usage: run SUITE [--config FILE] [--out DIRECTORY] [--list] | list SUITE"
  | .crashed c => IO.eprintln (c.typeName ++ ": " ++ c.text)
  | _ => pure ()
  pure (ending.exitCode.toNat % 256).toUInt32
