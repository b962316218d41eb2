import TestRun.Time.Clock
set_option autoImplicit false

namespace TestRun.Time

namespace Clock

/-- As many readings as the number says succeed. -/
def CanRead (c : Clock) (n : Nat) : Prop := ∀ k < n, ∃ now, (c.after k).read.1 = .ok now

def NeverFails (c : Clock) : Prop := ∀ n, ∃ now, (c.after n).read.1 = .ok now

def OneKind (c : Clock) (aware : Bool) : Prop :=
  ∀ n now, (c.after n).read.1 = .ok now → now.offset.isSome = aware

/-- Every reading succeeds, and all are of one kind. -/
structure Reliable (c : Clock) (aware : Bool) : Prop where
  neverFails : c.NeverFails
  oneKind : c.OneKind aware

/-- As many readings as the number says succeed, and all that succeed are of one kind. -/
structure Lasts (c : Clock) (aware : Bool) (n : Nat) : Prop where
  canRead : c.CanRead n
  oneKind : c.OneKind aware

/-- A clock that was read once, or not at all. -/
def Later (c later : Clock) : Prop := later = c ∨ later = c.read.2

theorem after_add (c : Clock) (m n : Nat) : c.after (m + n) = (c.after m).after n := by
  induction m generalizing c with
  | zero => rw [Nat.zero_add]; rfl
  | succ m ih => rw [Nat.succ_add]; exact ih c.read.2

theorem canRead_add {c : Clock} {m n : Nat} :
    c.CanRead (m + n) ↔ c.CanRead m ∧ (c.after m).CanRead n := by
  constructor
  · intro h
    refine ⟨fun k hk => h k (by omega), fun k hk => ?_⟩
    rw [← after_add]
    exact h (m + k) (by omega)
  · intro h k hk
    by_cases hm : k < m
    · exact h.1 k hm
    · obtain ⟨j, rfl⟩ := Nat.exists_eq_add_of_le (Nat.le_of_not_lt hm)
      rw [after_add]
      exact h.2 j (by omega)

theorem NeverFails.canRead {c : Clock} (h : c.NeverFails) (n : Nat) : c.CanRead n := fun k _ => h k

theorem NeverFails.read {c : Clock} (h : c.NeverFails) :
    ∃ now, c.read = (.ok now, c.read.2) ∧ c.read.2.NeverFails := by
  obtain ⟨now, hnow⟩ := h 0
  exact ⟨now, Prod.ext hnow rfl, fun n => h (n + 1)⟩

theorem Reliable.read {c : Clock} {aware : Bool} (h : c.Reliable aware) :
    ∃ now, c.read = (.ok now, c.read.2) ∧ now.offset.isSome = aware ∧
      c.read.2.Reliable aware := by
  obtain ⟨now, hnow, hrest⟩ := h.neverFails.read
  exact ⟨now, hnow, h.oneKind 0 now (congrArg Prod.fst hnow), hrest, fun n => h.oneKind (n + 1)⟩

theorem Reliable.lasts {c : Clock} {aware : Bool} (h : c.Reliable aware) (n : Nat) :
    c.Lasts aware n := ⟨h.neverFails.canRead n, h.oneKind⟩

theorem Lasts.read {c : Clock} {aware : Bool} {n : Nat} (h : c.Lasts aware (n + 1)) :
    ∃ now, c.read = (.ok now, c.read.2) ∧ now.offset.isSome = aware ∧ c.read.2.Lasts aware n := by
  obtain ⟨now, hnow⟩ := h.canRead 0 (Nat.succ_pos n)
  exact ⟨now, Prod.ext hnow rfl, h.oneKind 0 now hnow,
    fun k hk => h.canRead (k + 1) (Nat.succ_lt_succ hk), fun k => h.oneKind (k + 1)⟩

theorem Lasts.of_le {c : Clock} {aware : Bool} {m n : Nat} (h : c.Lasts aware n) (hle : m ≤ n) :
    c.Lasts aware m :=
  ⟨fun k hk => h.canRead k (Nat.lt_of_lt_of_le hk hle), h.oneKind⟩

theorem Later.canRead {c later : Clock} {n : Nat} (h : c.Later later) (hc : c.CanRead (n + 1)) :
    later.CanRead n := by
  rcases h with rfl | rfl
  · exact fun k hk => hc k (Nat.lt_succ_of_lt hk)
  · exact fun k hk => hc (k + 1) (Nat.succ_lt_succ hk)

theorem Later.lasts {c later : Clock} {aware : Bool} {n : Nat} (h : c.Later later)
    (hc : c.Lasts aware (n + 1)) : later.Lasts aware n := by
  refine ⟨h.canRead hc.canRead, ?_⟩
  rcases h with rfl | rfl
  · exact hc.oneKind
  · exact fun k => hc.oneKind (k + 1)

theorem Later.reliable {c later : Clock} {aware : Bool} (h : c.Later later)
    (hc : c.Reliable aware) : later.Reliable aware := by
  rcases h with rfl | rfl
  · exact hc
  · exact ⟨fun k => hc.neverFails (k + 1), fun k => hc.oneKind (k + 1)⟩

theorem after_fixed (i : Instant) (n : Nat) : (Clock.fixed i).after n = .fixed i := by
  induction n with
  | zero => rfl
  | succ n ih => exact ih

theorem fixed_reliable (i : Instant) : (Clock.fixed i).Reliable i.offset.isSome := by
  constructor
  · intro n
    exact ⟨i, by rw [after_fixed]; rfl⟩
  · intro n now hnow
    rw [after_fixed] at hnow
    cases hnow
    rfl

theorem listed_neverFails (current : Instant) (later : List Instant) :
    (Clock.listed current later).NeverFails := by
  intro n
  induction n generalizing current later with
  | zero => cases later <;> exact ⟨current, rfl⟩
  | succ n ih => cases later <;> exact ih _ _

/-- The clock fails at each reading and stays where it is. -/
def Stuck (c : Clock) : Prop := ∃ e, c.read = (.error e, c)

def Shows (c : Clock) (i : Instant) : Prop := ∃ n, (c.after n).read.1 = .ok i

theorem stuck_of_read {c later : Clock} {e : TimeError} (h : c.read = (.error e, later)) :
    later = c ∧ c.Stuck := by
  cases c with
  | fixed i => cases h
  | listed current rest => cases rest <;> cases h
  | stepping next step =>
    have hread := h
    simp only [read] at hread
    cases hshift : next.shift step with
    | ok i =>
      rw [hshift] at hread
      cases hread
    | error f =>
      rw [hshift] at hread
      cases hread
      exact ⟨rfl, e, h⟩

theorem Stuck.not_read {c later : Clock} {now : Instant} (h : c.Stuck) :
    c.read ≠ (.ok now, later) := by
  obtain ⟨e, he⟩ := h
  rw [he]
  exact nofun

theorem shows_of_read {c later : Clock} {now : Instant} (h : c.read = (.ok now, later)) :
    c.Shows now := ⟨0, congrArg Prod.fst h⟩

theorem eq_of_fixed_shows {i j : Instant} (h : (Clock.fixed i).Shows j) : j = i := by
  obtain ⟨n, hn⟩ := h
  rw [after_fixed] at hn
  exact (Except.ok.inj hn).symm

theorem Shows.of_later {c later : Clock} {now i : Instant} (h : c.read = (.ok now, later))
    (hi : later.Shows i) : c.Shows i := by
  obtain ⟨n, hn⟩ := hi
  refine ⟨n + 1, ?_⟩
  rw [after, h]
  exact hn

end Clock

theorem elapsed_self (i : Instant) : elapsed i i = .ok 0 := by
  unfold elapsed Instant.since
  cases i.universal? with
  | none =>
    change Except.ok (max (i.micros - i.micros) 0) = _
    rw [Int.sub_self]
    rfl
  | some u =>
    change Except.ok (max (u - u) 0) = _
    rw [Int.sub_self]
    rfl

theorem elapsed_isOk {start finish : Instant}
    (h : start.offset.isSome = finish.offset.isSome) : ∃ d, elapsed start finish = .ok d := by
  unfold elapsed Instant.since Instant.universal?
  cases hs : start.offset <;> cases hf : finish.offset <;> simp [hs, hf] at h <;>
    exact ⟨_, rfl⟩

end TestRun.Time
