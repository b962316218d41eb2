import TestRun.Proofs.Time.Reliable
set_option autoImplicit false

namespace TestRun.Time

def InRange (micros : Int) : Prop := lowest ≤ micros ∧ micros ≤ highest

instance (micros : Int) : Decidable (InRange micros) := inferInstanceAs (Decidable (_ ∧ _))

namespace Instant

theorem ofMicros?_of_inRange {micros : Int} (h : InRange micros) (offset : Option Int) :
    ofMicros? micros offset = some ⟨micros, offset, h.1, h.2⟩ := dif_pos h

theorem ofMicros?_of_outside {micros : Int} (h : ¬ InRange micros) (offset : Option Int) :
    ofMicros? micros offset = none := dif_neg h

theorem shift_of_inRange {i : Instant} {d : Duration} (h : InRange (i.micros + d)) :
    i.shift d = .ok ⟨i.micros + d, i.offset, h.1, h.2⟩ := by
  unfold shift
  rw [ofMicros?_of_inRange h]

theorem shift_of_outside {i : Instant} {d : Duration} (h : ¬ InRange (i.micros + d)) :
    i.shift d = .error .outOfRange := by
  unfold shift
  rw [ofMicros?_of_outside h]

/-- The place of an instant among those of its kind. -/
def moment (i : Instant) : Int := i.universal?.getD i.micros

theorem moment_eq_add {i j : Instant} {d : Duration} (hmicros : j.micros = i.micros + d)
    (hoffset : j.offset = i.offset) : j.moment = i.moment + d := by
  unfold moment universal?
  rw [hoffset]
  cases i.offset with
  | none => exact hmicros
  | some m =>
    simp only [Option.map_some, Option.getD_some]
    omega

theorem since_eq_sub {start finish : Instant} (h : finish.offset = start.offset) :
    finish.since start = .ok (finish.micros - start.micros) := by
  unfold since universal?
  rw [h]
  cases start.offset with
  | none => rfl
  | some m =>
    have hspan : finish.micros - m - (start.micros - m) = finish.micros - start.micros := by omega
    exact congrArg Except.ok hspan

end Instant

theorem elapsed_eq {start finish : Instant} (h : start.offset.isSome = finish.offset.isSome) :
    elapsed start finish = .ok (max (finish.moment - start.moment) 0) := by
  simp only [elapsed, Instant.since, Instant.moment, Instant.universal?]
  cases hs : start.offset <;> cases hf : finish.offset <;> simp [hs, hf] at h <;> rfl

namespace Clock

def NeverGoesBack (c : Clock) : Prop :=
  ∀ n i j, (c.after n).read.1 = .ok i → (c.after (n + 1)).read.1 = .ok j → i.moment ≤ j.moment

def NotBefore (c : Clock) (m : Int) : Prop := ∀ i, c.Shows i → m ≤ i.moment

theorem Stuck.after {c : Clock} (h : c.Stuck) (n : Nat) : c.after n = c := by
  obtain ⟨e, he⟩ := h
  induction n with
  | zero => rfl
  | succ n ih => rw [Clock.after, he, ih]

theorem Stuck.not_shows {c : Clock} (h : c.Stuck) (i : Instant) : ¬ c.Shows i := by
  rintro ⟨n, hn⟩
  rw [h.after] at hn
  obtain ⟨e, he⟩ := h
  rw [he] at hn
  cases hn

/-- The readings of the clock are of one kind and never go back. -/
structure Orderly (c : Clock) (aware : Bool) : Prop where
  oneKind : c.OneKind aware
  neverGoesBack : c.NeverGoesBack

section Read

variable {c later : Clock} {now : Instant} {m : Int}

theorem NotBefore.read (h : c.NotBefore m) (hread : c.read = (.ok now, later)) :
    m ≤ now.moment ∧ later.NotBefore m :=
  ⟨h now (shows_of_read hread), fun i hi => h i (hi.of_later hread)⟩

theorem OneKind.shows {aware : Bool} (h : c.OneKind aware) (hnow : c.Shows now) :
    now.offset.isSome = aware := by
  obtain ⟨n, hn⟩ := hnow
  exact h n now hn

theorem OneKind.read {aware : Bool} (h : c.OneKind aware) (hread : c.read = (.ok now, later)) :
    now.offset.isSome = aware ∧ later.OneKind aware := by
  refine ⟨h.shows (shows_of_read hread), fun n i hi => h (n + 1) i ?_⟩
  rw [after, hread]
  exact hi

/-- Each reading is a bound for all that follow, not only for the next one. -/
theorem NeverGoesBack.read (h : c.NeverGoesBack) (hread : c.read = (.ok now, later)) :
    later.NeverGoesBack ∧ later.NotBefore now.moment := by
  have hafter (n : Nat) : c.after (n + 1) = later.after n := by rw [after, hread]
  refine ⟨fun n i j hi hj => h (n + 1) i j (hafter n ▸ hi) (hafter (n + 1) ▸ hj), ?_⟩
  rintro i ⟨n, hn⟩
  -- along the readings up to the one in question: a clock that got stuck on the way shows no more
  induction n generalizing i with
  | zero => exact h 0 now i (congrArg Prod.fst hread) (hafter 0 ▸ hn)
  | succ n ih =>
    rcases hmid : (later.after n).read with ⟨e | j, rest⟩
    · obtain ⟨rfl, hstuck⟩ := stuck_of_read hmid
      refine absurd ⟨1, ?_⟩ (hstuck.not_shows i)
      rw [← after_add]
      exact hn
    · have hj := congrArg Prod.fst hmid
      exact Int.le_trans (ih j hj) (h (n + 1) j i (hafter n ▸ hj) (hafter (n + 1) ▸ hn))

theorem Orderly.read {aware : Bool} (h : c.Orderly aware) (hread : c.read = (.ok now, later)) :
    later.Orderly aware ∧ later.NotBefore now.moment :=
  ⟨⟨(h.oneKind.read hread).2, (h.neverGoesBack.read hread).1⟩, (h.neverGoesBack.read hread).2⟩

end Read

theorem neverGoesBack_of {P : Clock → Prop} (hstep : ∀ c, P c → P c.read.2)
    (hle : ∀ c i j, P c → c.read.1 = .ok i → c.read.2.read.1 = .ok j → i.moment ≤ j.moment)
    {c : Clock} (h : P c) : c.NeverGoesBack := by
  have hafter (n : Nat) : P (c.after n) := by
    induction n with
    | zero => exact h
    | succ n ih => rw [after_add]; exact hstep _ ih
  intro n i j hi hj
  rw [after_add] at hj
  exact hle _ i j (hafter n) hi hj

theorem listed_neverGoesBack {current : Instant} {later : List Instant}
    (h : (current :: later).Pairwise (·.moment ≤ ·.moment)) :
    (Clock.listed current later).NeverGoesBack := by
  refine neverGoesBack_of (P := fun c => ∃ i is, c = .listed i is ∧
    (i :: is).Pairwise (·.moment ≤ ·.moment)) ?_ ?_ ⟨current, later, rfl, h⟩
  · rintro _ ⟨i, _ | ⟨k, is⟩, rfl, his⟩
    · exact ⟨i, [], rfl, his⟩
    · exact ⟨k, is, rfl, his.tail⟩
  · rintro _ i j ⟨at', _ | ⟨k, is⟩, rfl, his⟩ hi hj
    · cases hi
      cases hj
      exact Int.le_refl _
    · cases hi
      have hk : j = k := by
        cases is <;> cases hj <;> rfl
      rw [hk]
      exact List.rel_of_pairwise_cons his List.mem_cons_self

theorem listed_oneKind {aware : Bool} {current : Instant} {later : List Instant}
    (h : ∀ i ∈ current :: later, i.offset.isSome = aware) :
    (Clock.listed current later).OneKind aware := by
  intro n
  induction n generalizing current later with
  | zero =>
    intro now hnow
    cases later <;> cases hnow <;> exact h _ List.mem_cons_self
  | succ n ih =>
    cases later with
    | nil => exact ih h
    | cons next later => exact ih fun i hi => h i (List.mem_cons_of_mem _ hi)

end Clock

end TestRun.Time
