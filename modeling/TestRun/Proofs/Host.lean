import Mathlib.Data.List.Nodup
import Mathlib.Data.List.Perm.Basic
import TestRun.Proofs.Act
import TestRun.Proofs.Files.Names
set_option autoImplicit false

namespace TestRun

open Text

namespace Table

section Keys

variable {κ α : Type} [DecidableEq κ]

def lastValue? (rows : List (κ × α)) (key : κ) : Option α := rows.reverse.lookup key

/-- Two lists of rows that hold the same under each key, in whatever order. -/
def SameContents (rows rows' : List (κ × α)) : Prop :=
  ∀ key, lastValue? rows key = lastValue? rows' key

theorem lastValue?_cons (rows : List (κ × α)) (key other : κ) (value : α) :
    lastValue? ((key, value) :: rows) other =
      (lastValue? rows other).or (if other = key then some value else none) := by
  rw [lastValue?, List.reverse_cons, lookup_concat]
  rfl

theorem get?_setAll (t : Table κ α) (rows : List (κ × α)) (key : κ) :
    (t.setAll rows).get? key = (lastValue? rows key).or (t.get? key) := by
  induction rows generalizing t with
  | nil => rfl
  | cons r rest ih =>
    change ((t.set r.1 r.2).setAll rest).get? key = _
    rw [ih, get?_set, lastValue?_cons, Option.or_assoc]
    split <;> rfl

theorem get?_ofList (rows : List (κ × α)) (key : κ) :
    (ofList rows).get? key = lastValue? rows key := by
  rw [ofList, get?_setAll, get?_empty, Option.or_none]

end Keys

section Renamed

variable {κ κ' α α' : Type} [DecidableEq κ] [DecidableEq κ']

variable {name : κ → κ'} (hname : Function.Injective name) (text : α → α')

include hname in
theorem lastValue?_map (rows : List (κ × α)) (key : κ) :
    lastValue? (rows.map fun r => (name r.1, text r.2)) (name key) =
      (lastValue? rows key).map text := by
  induction rows with
  | nil => rfl
  | cons r rest ih =>
    obtain ⟨k, v⟩ := r
    rw [List.map_cons, lastValue?_cons, lastValue?_cons, ih, Option.map_or]
    simp only [hname.eq_iff]
    split <;> rfl

include hname in
theorem lastValue?_map_eq_some_iff (rows : List (κ × α)) (key' : κ') (value' : α') :
    lastValue? (rows.map fun r => (name r.1, text r.2)) key' = some value' ↔
      ∃ key value, key' = name key ∧ lastValue? rows key = some value ∧ value' = text value := by
  constructor
  · intro h
    obtain ⟨r', hr', hkey⟩ := List.lookup_isSome_iff.1 (Option.isSome_of_mem h)
    obtain ⟨r, -, rfl⟩ := List.mem_map.1 (List.mem_reverse.1 hr')
    obtain rfl := beq_iff_eq.1 hkey
    rw [lastValue?_map hname, Option.map_eq_some_iff] at h
    obtain ⟨value, hvalue, rfl⟩ := h
    exact ⟨r.1, value, rfl, hvalue, rfl⟩
  · rintro ⟨key, value, rfl, hvalue, rfl⟩
    rw [lastValue?_map hname, hvalue]
    rfl

include hname in
theorem SameContents.map {rows rows' : List (κ × α)} (h : SameContents rows rows') :
    SameContents (rows.map fun r => (name r.1, text r.2))
      (rows'.map fun r => (name r.1, text r.2)) := by
  intro key'
  refine Option.ext fun value' => ?_
  rw [lastValue?_map_eq_some_iff hname, lastValue?_map_eq_some_iff hname]
  simp only [h _]

end Renamed

end Table

namespace Text.CodeText

end Text.CodeText

namespace Table

variable {α : Type}

def sorted (t : Table CodeText α) : List (CodeText × α) :=
  t.rows.mergeSort fun a b => a.1.isAtMost b.1

end Table

namespace Host

open Table

/-- Whether the user can be looked up. A user without a name is good enough. -/
def isReadable (h : Host) : Bool := h.userName.toOption.isSome

theorem properties_of_isReadable {h : Host} (hh : h.isReadable = true)
    (extra : List (CodeText × CodeText)) (withEnvironment : Bool) :
    ∃ rows, h.properties extra withEnvironment = .ok rows := by
  unfold isReadable at hh
  unfold properties
  cases huser : h.userName with
  | error t =>
    rw [huser] at hh
    cases hh
  | ok user => exact ⟨_, rfl⟩

theorem properties_of_not_isReadable {h : Host} (hh : h.isReadable = false)
    (extra : List (CodeText × CodeText)) (withEnvironment : Bool) :
    ∃ t, h.user = .error t ∧ h.properties extra withEnvironment = .error t := by
  unfold isReadable userName at hh
  unfold properties userName
  cases huser : h.user with
  | ok name =>
    rw [huser] at hh
    cases hh
  | error t =>
    rw [huser] at hh
    refine ⟨t, rfl, ?_⟩
    dsimp only at hh ⊢
    split at hh
    · cases hh
    · rw [if_neg ‹_›]
      rfl

theorem isReadable_iff {h : Host} :
    h.isReadable = true ↔
      ∀ t, h.user = .error t → t.kind = .keyError ∨ t.kind.wording = .system := by
  unfold isReadable userName
  cases huser : h.user with
  | ok name => exact iff_of_true rfl fun t ht => nomatch ht
  | error t =>
    by_cases hnameless : t.kind = .keyError ∨ t.kind.wording = .system
    · simp [hnameless, Except.toOption]
    · simp [hnameless, Except.toOption]

def shownUser (h : Host) : String :=
  match h.user with
  | .ok name => name
  | .error _ => ""

def variableName (name : CodeText) : CodeText := .ofString "env." ++ name

section Gives

variable {α : Type} (h : Host) (withEnvironment : Bool) (text : α → CodeText)
  (extra : List (CodeText × α))

/-- The value of a property: that of the extra property, or that of the variable where the
environment is included, or that of the platform. -/
inductive Gives : CodeText → CodeText → Prop
  | extra {key : CodeText} {value : α} (hextra : lastValue? extra key = some value) :
    Gives key (text value)
  | environment {name value : CodeText} (hextra : lastValue? extra (variableName name) = none)
    (hincluded : withEnvironment = true) (hvalue : lastValue? h.environment name = some value) :
    Gives (variableName name) value
  | platform {name value : String} (hextra : lastValue? extra (.ofString name) = none)
    (habsent : withEnvironment = true → ∀ other, CodeText.ofString name = variableName other →
      lastValue? h.environment other = none)
    (hvalue : lastValue? (h.platform h.shownUser) name = some value) :
    Gives (.ofString name) (.ofString value)

variable {h withEnvironment text extra}

end Gives

end Host

end TestRun
