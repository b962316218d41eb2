import TestRun.Settings.Basic
import TestRun.Settings.Issue
import TestRun.Yaml.Value
set_option autoImplicit false

/-!
# Settings in a document

Reads settings from the values of a document. A missing entry has its standard value, an unknown
one is ignored, and a value of a kindred type is taken for the one that is asked for where that
loses nothing.
-/

namespace TestRun.Settings

open Text Yaml

def fitsWord (n : Int) : Bool := -9223372036854775808 ≤ n && n ≤ 9223372036854775807

def fitsBothWays (n : Int) : Bool := fitsWord n && fitsWord (-n)

def checkText : Value → Check CodeText
  | .atom (.text t) => .ok t
  | .atom (.bytes b) =>
    match String.fromUTF8? b with
    | some s => .ok (.ofString s)
    | none => .refuse .brokenText
  | _ => .refuse .notText

/-- A text after a zero, from the next digit that is none on, over further zeros and underscores.
What stood in front of a point stays there, and of zeros alone the last. -/
def afterZeros (last : Char) : List Char → Option (List Char)
  | [] => some [last]
  | c :: rest =>
    if c = '0' ∨ c = '_' then afterZeros c rest
    else if isDigit c ∨ c = '-' then some (c :: rest)
    else if c = '.' then some (last :: c :: rest)
    else none

def withoutZeros : List Char → Option (List Char)
  | '0' :: rest => afterZeros '0' rest
  | c :: rest => if isDigit c ∨ c = '-' then some (c :: rest) else none
  | [] => none

/-- A number without a point that has only zeros behind it, and one at least. -/
def withoutFraction (cs : List Char) : List Char :=
  let whole := cs.takeWhile (· != '.')
  let zeros := cs.drop (whole.length + 1)
  if !zeros.isEmpty && zeros.all (· == '0') then whole else cs

def hasDouble : List Char → Bool
  | '_' :: '_' :: _ => true
  | _ :: rest => hasDouble rest
  | [] => false

def withoutUnderscores (cs : List Char) : List Char :=
  if cs.head? = some '_' ∨ cs.getLast? = some '_' ∨ hasDouble cs then cs
  else cs.filter (· != '_')

/-- A plain integer: digits without zeros in front, perhaps with a minus sign. The sign counts
towards the length. -/
def plainInteger (cs : List Char) : Check Int :=
  let (isNegative, body) := match cs with
    | '-' :: rest => (true, rest)
    | cs => (false, cs)
  let count := (body.takeWhile isDigit).length
  if body.head? = some '0' ∧ body ≠ ['0'] then .refuse .notIntegerText
  else if digitLimit < count + (if isNegative then 1 else 0) then .refuse .integerTooLong
  else match ofDigits? 10 body with
    | some n => .ok (if isNegative then -(n : Int) else n)
    | none => .refuse .notIntegerText

/-- The integer that a text writes: blanks around it, a sign, digits, and a point with nothing
but zeros behind it. -/
def integerOfText (s : String) : Check Int :=
  let unsigned := match trim isBlank s.toList with
    | '+' :: '-' :: _ => none
    | '+' :: rest => some rest
    | cs => some cs
  match unsigned.bind withoutZeros with
  | some cs => plainInteger (withoutUnderscores (withoutFraction cs))
  | none => .refuse .notIntegerText

def integerOfFloat (x : Float) : Check Int :=
  match Binary64.finite? x, Binary64.toInt? x with
  | none, _ => .refuse .notFinite
  | some _, none => .refuse .fractional
  | some _, some n => if fitsBothWays n then .ok n else .refuse .integerTooLong

def checkInteger : Value → Check Int
  | .atom (.bool b) => .ok (if b then 1 else 0)
  | .atom (.int n) => .ok n
  | .atom (.float x) => integerOfFloat x
  | .atom (.nan _) => .refuse .notFinite
  | .atom (.text t) =>
    match t.toString? with
    | some s => integerOfText s
    | none => .refuse .brokenText
  | .atom (.bytes b) =>
    match String.fromUTF8? b with
    | some s => integerOfText s
    | none => .refuse .notIntegerText
  | _ => .refuse .notInteger

def checkWorkers (v : Value) : Check Runner := do
  match Runner.ofWorkers (← checkInteger v) with
  | .ok r => pure r
  | .error _ => Check.refuse .belowOne

def truthWords : List (String × Bool) :=
  [("0", false), ("off", false), ("f", false), ("false", false), ("n", false), ("no", false),
    ("1", true), ("on", true), ("t", true), ("true", true), ("y", true), ("yes", true)]

def truthOfText (s : String) : Check Bool :=
  match truthWords.lookup (String.ofList (s.toList.map Char.toLower)) with
  | some b => .ok b
  | none => .refuse .noTruthWord

def truthOfInteger (n : Int) : Check Bool :=
  if n = 0 then .ok false else if n = 1 then .ok true else .refuse .noTruthWord

def checkTruth : Value → Check Bool
  | .atom (.bool b) => .ok b
  | .atom (.int n) => if fitsWord n then truthOfInteger n else .refuse .notTruthValue
  | .atom (.float x) =>
    match Binary64.toInt? x with
    | some n => if fitsBothWays n then truthOfInteger n else .refuse .notTruthValue
    | none => .refuse .notTruthValue
  | .atom (.text t) =>
    match t.toString? with
    | some s => truthOfText s
    | none => .refuse .brokenText
  | .atom (.bytes b) =>
    match String.fromUTF8? b with
    | some s => truthOfText s
    | none => .refuse .noTruthWord
  | _ => .refuse .notTruthValue

def checkText? : Value → Check (Option CodeText)
  | .atom .null => .ok none
  | v => some <$> checkText v

/-- The place of a key: its number where it equals one of 64 bits, or its text. -/
def keyPlace (key : Atom) : Place :=
  match key with
  | .bool _ | .int _ =>
    match key.toInt? with
    | some n => if fitsWord n then .number n else .name key.shown
    | none => .name key.shown
  | _ => .name key.shown

def checkProperties (d : Document) : Value → Check (List (CodeText × CodeText))
  | .mapping entries =>
    let rows := entries.foldl (fun acc e =>
      let place := keyPlace e.1
      let key := (checkText (.atom e.1)).within [place, .name "[key]"]
      let value := (checkText (d.get e.2)).within [place]
      Check.both (fun rows row => rows ++ [row]) acc (Check.both Prod.mk key value)) (.ok [])
    rows.map fun rows => (Table.ofList rows).rows
  | _ => .refuse .notMapping

variable {α : Type}

def field (d : Document) (entries : List (Atom × Nat)) (key : String) (standard : α)
    (check : Value → Check α) : Check α :=
  match Document.lookup? entries key with
  | none => .ok standard
  | some i => (check (d.get i)).within [.name key]

def checkReports (d : Document) : Value → Check Writer.Settings
  | .mapping entries =>
    let s := standard.reports
    let directory := field d entries "directory" s.directory checkText
    let hostName? := field d entries "hostname" s.hostName? checkText?
    let withEnvironment := field d entries "include_environment" s.withEnvironment checkTruth
    let extra := field d entries "properties" s.extra (checkProperties d)
    Check.both (fun s extra => { s with extra := extra })
      (Check.both (fun s b => { s with withEnvironment := b })
        (Check.both (fun dir h => { s with directory := dir, hostName? := h })
          directory hostName?) withEnvironment) extra
  | _ => .refuse (.notRecord "ReportsConfig")

def checkRunner (d : Document) : Value → Check Runner
  | .mapping entries => field d entries "parallelism" standard.runner checkWorkers
  | _ => .refuse (.notRecord "RunnerConfig")

def checkSettings (d : Document) : Value → Check Settings
  | .mapping entries =>
    let level := field d entries "log_level" standard.logLevel checkText
    let reports := field d entries "reports" standard.reports (checkReports d)
    let runner := field d entries "runner" standard.runner (checkRunner d)
    Check.both (fun p r => ⟨p.1, p.2, r⟩) (Check.both Prod.mk level reports) runner
  | _ => .refuse (.notRecord "AppConfig")

def ofDocument? : Option Document → Check Settings
  | none => .ok standard
  | some d =>
    if (d.get d.root).isEmpty then .ok standard else checkSettings d (d.get d.root)

end TestRun.Settings
