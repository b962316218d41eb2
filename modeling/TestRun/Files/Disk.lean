import TestRun.Files.Path
import TestRun.Thrown
set_option autoImplicit false

/-!
# Files and directories

The file system around a working directory: a table from locations to entries, in which every
entry lies in a directory. Of what lies outside the working directory nothing is known but that
the directories above it exist. A location is the place that a path leads to, so a link counts as
what it leads to. Each operation either does its work or fails with the error and the path that the
operating system names; what it refuses beside what the entries rule out is a parameter.
-/

namespace TestRun.Files

open Text (CodeText)

abbrev Name := List UInt8

instance : Coe String Name := ⟨fun s => (CodeText.ofString s).bytes⟩

/-- Names from the working directory down to an entry; the directory itself is the empty list.
Double dots in front lead up from it, and a slash in front leads down from the root. -/
abbrev Location := List Name

namespace Location

def root : Name := "/"

def up : Name := ".."

def above (l : Location) : Location :=
  match l.getLast? with
  | none => [up]
  | some name => if name = up then l ++ [up] else if name = root then l else l.dropLast

/-- Whether a location is the working directory, one above it, or the root. -/
def isGiven (l : Location) : Bool := l.all fun name => name == up || name == root

def isInside (l : Location) : Bool := l.head? != some up && l.head? != some root

def text (l : Location) : String := String.intercalate "/" (l.map Text.shownBytes)

end Location

inductive Entry
  | directory
  | file (content : ByteArray)

instance : DecidableEq Entry
  | .directory, .directory => isTrue rfl
  | .directory, .file _ => isFalse nofun
  | .file _, .directory => isFalse nofun
  | .file a, .file b =>
    if h : a.data = b.data then isTrue (congrArg Entry.file (ByteArray.ext h))
    else isFalse fun e => h (congrArg ByteArray.data (Entry.file.inj e))

structure FileError.Reason where
  number : Nat
  words : String
  deriving DecidableEq, Repr

structure FileError where
  reason : FileError.Reason
  /-- The path that was refused; what happens to an open file names none. -/
  path? : Option CodeText
  deriving DecidableEq, Repr

namespace FileError

namespace Reason

def missing : Reason := ⟨2, "No such file or directory"⟩

def alreadyThere : Reason := ⟨17, "File exists"⟩

def notDirectory : Reason := ⟨20, "Not a directory"⟩

def isDirectory : Reason := ⟨21, "Is a directory"⟩

def nameTooLong : Reason := ⟨36, "File name too long"⟩

def typeName (r : Reason) : String := (ThrownKind.systemNames.lookup (r.number : Int)).getD "OSError"

end Reason

def message (e : FileError) : String :=
  "[Errno " ++ toString e.reason.number ++ "] " ++ e.reason.words ++
    match e.path? with
    | some path => ": " ++ path.quoted
    | none => ""

end FileError

open FileError (Reason)

namespace Path

def origin (p : Path) : Location := if p.slashes = 0 then [] else [Location.root]

def steps (p : Path) : List Name := p.names.map CodeText.bytes

def refused (p : Path) (r : Reason) : FileError := ⟨r, some p.code⟩

end Path

abbrev Entries := List (Location × Entry)

/-- What the operating system refuses beside what the entries of a disk rule out: whether the names
in a directory may be looked up is a matter of its place, the rest may hang on all that stands on
the disk. -/
structure Policy where
  search? : Location → Option Reason
  make? : Entries → Location → Option Reason
  open? : Entries → Location → Option Reason
  /-- How many of some bytes get into a file before the writing breaks off, and why it does. -/
  breaks? : Entries → Location → ByteArray → Option (Nat × Reason)

def Policy.lax : Policy := ⟨fun _ => none, fun _ _ => none, fun _ _ => none, fun _ _ _ => none⟩

def nameLimit : Nat := 255

def pathLimit : Nat := 4095

structure Disk where
  entries : Entries
  policy : Policy

namespace Disk

def empty : Disk := ⟨[], .lax⟩

instance : Inhabited Disk := ⟨empty⟩

def get? (d : Disk) (l : Location) : Option Entry :=
  if l.isGiven then some .directory else d.entries.lookup l

def put (d : Disk) (l : Location) (e : Entry) : Disk :=
  { d with
    entries := if (d.entries.lookup l).isSome then
        d.entries.map fun x => if x.1 = l then (l, e) else x
      else d.entries ++ [(l, e)] }

def walk (d : Disk) : Location → List Name → Except Reason Location
  | l, [] => .ok l
  | l, name :: rest =>
    match d.get? l, d.policy.search? l with
    | none, _ => .error .missing
    | some (.file _), _ => .error .notDirectory
    | some .directory, some r => .error r
    | some .directory, none =>
      if name = Location.up then walk d l.above rest
      else if nameLimit < name.length then .error .nameTooLong
      else walk d (l ++ [name]) rest

/-- What stands against a path before its first name. The working directory is looked up in
itself. -/
def barred? (d : Disk) (p : Path) : Option Reason :=
  if pathLimit < p.code.bytes.length then some .nameTooLong
  else if p = .here then d.policy.search? []
  else none

def find (d : Disk) (p : Path) : Except Reason (Location × Option Entry) :=
  match d.barred? p with
  | some r => .error r
  | none => (d.walk p.origin p.steps).map fun l => (l, d.get? l)

def isDirectory (d : Disk) (p : Path) : Bool :=
  match d.find p with
  | .ok (_, some .directory) => true
  | _ => false

def makeDirectory (d : Disk) (p : Path) : Except Reason Disk :=
  match d.find p with
  | .error r => .error r
  | .ok (_, some _) => .error .alreadyThere
  | .ok (l, none) =>
    match d.policy.make? d.entries l with
    | some r => .error r
    | none => .ok (d.put l .directory)

/-- Creates a directory whose parents are there. An existing one is good, whatever the operating
system says of the attempt. -/
def settle (d : Disk) (p : Path) : Except FileError Unit × Disk :=
  match d.makeDirectory p with
  | .ok d => (.ok (), d)
  | .error r => if d.isDirectory p then (.ok (), d) else (.error (p.refused r), d)

/-- Creates a directory given by its reversed names, with its missing parents. The full path is
tried first, and its parent only where that was missing. -/
def makeReversed (d : Disk) (slashes : Nat) : List CodeText → Except FileError Unit × Disk
  | [] => d.settle ⟨slashes, []⟩
  | name :: parents =>
    let p : Path := ⟨slashes, (name :: parents).reverse⟩
    match d.makeDirectory p with
    | .error ⟨2, _⟩ =>
      match makeReversed d slashes parents with
      | (.ok _, d) => d.settle p
      | (.error e, d) => (.error e, d)
    | _ => d.settle p

def makeDirectories (d : Disk) (p : Path) : Except FileError Unit × Disk :=
  d.makeReversed p.slashes p.names.reverse

def fill (d : Disk) (l : Location) (content : ByteArray) : Except FileError Unit × Disk :=
  match d.policy.breaks? d.entries l content with
  | some (n, r) => (.error ⟨r, none⟩, d.put l (.file (content.extract 0 n)))
  | none => (.ok (), d.put l (.file content))

def write (d : Disk) (p : Path) (content : ByteArray) : Except FileError Unit × Disk :=
  match d.find p with
  | .error r => (.error (p.refused r), d)
  | .ok (l, held) =>
    if held = some .directory then (.error (p.refused .isDirectory), d)
    else match d.policy.open? d.entries l with
      | some r => (.error (p.refused r), d)
      | none => d.fill l content

def read (d : Disk) (p : Path) : Except FileError ByteArray :=
  match d.find p with
  | .error r => .error (p.refused r)
  | .ok (_, none) => .error (p.refused .missing)
  | .ok (_, some .directory) => .error (p.refused .isDirectory)
  | .ok (_, some (.file content)) => .ok content

def remove (d : Disk) (p : Path) : Except FileError Disk :=
  match d.find p with
  | .error r => .error (p.refused r)
  | .ok (_, none) => .error (p.refused .missing)
  | .ok (l, some _) => .ok { d with entries := d.entries.filter fun x => !l.isPrefixOf x.1 }

def label (l : Location) : Entry → String
  | .directory => l.text ++ "/"
  | .file _ => l.text

def listing (d : Disk) : List (String × Entry) :=
  ((d.entries.filter (·.1.isInside)).map fun x => (label x.1 x.2, x.2)).mergeSort fun x y =>
    x.1 ≤ y.1

def changes (old new : Disk) : List (String × Entry) :=
  new.listing.filter fun x => !(old.listing.contains x)

def gone (old new : Disk) : List String :=
  (old.listing.map (·.1)).filter fun l => !((new.listing.map (·.1)).contains l)

end Disk

end TestRun.Files
