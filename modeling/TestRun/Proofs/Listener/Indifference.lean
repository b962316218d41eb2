import TestRun.Proofs.Listener.Watching
set_option autoImplicit false

namespace TestRun

open Time Files

structure Surroundings.Alike (s s' : Surroundings) : Prop where
  clock_eq : s'.clock = s.clock
  host_eq : s'.host = s.host

theorem Surroundings.Alike.refl (s : Surroundings) : s.Alike s := ⟨rfl, rfl⟩

theorem Surroundings.Alike.withClock {s s' : Surroundings} (h : s.Alike s') (c : Clock) :
    Surroundings.Alike { s with clock := c } { s' with clock := c } := ⟨rfl, h.host_eq⟩

namespace Hearing

variable {σ τ α β : Type}

/-- The answer of an act, the state that it leaves and the clock come out the same where the clock
and the host are. -/
def Indifferent (act : Hearing σ α) : Prop :=
  ∀ (x : σ) (s s' : Surroundings), s.Alike s' → ∃ answer x' t t',
    act.perform (x, s) = (answer, (x', t)) ∧ act.perform (x, s') = (answer, (x', t')) ∧ t.Alike t'

variable {act : Hearing σ α}

theorem indifferent_pure (a : α) : Indifferent (pure a : Hearing σ α) :=
  fun x s s' h => ⟨.ok a, x, s, s', rfl, rfl, h⟩

theorem indifferent_state : Indifferent (state : Hearing σ σ) :=
  fun x s s' h => ⟨.ok x, x, s, s', rfl, rfl, h⟩

theorem Indifferent.bind (h : Indifferent act) {next : α → Hearing σ β}
    (hnext : ∀ a, Indifferent (next a)) : Indifferent (act >>= next) := by
  intro x s s' hs
  obtain ⟨answer, x₁, t, t', hact, hact', ht⟩ := h x s s' hs
  cases answer with
  | error f =>
    exact ⟨.error f, x₁, t, t', Act.perform_bind_error hact _, Act.perform_bind_error hact' _, ht⟩
  | ok a =>
    obtain ⟨answer, x₂, u, u', hrest, hrest', hu⟩ := hnext a x₁ t t' ht
    refine ⟨answer, x₂, u, u', ?_, ?_, hu⟩
    · rw [Act.perform_bind_ok hact, hrest]
    · rw [Act.perform_bind_ok hact', hrest']

theorem indifferent_forM {act : α → Hearing σ PUnit} (h : ∀ a, Indifferent (act a))
    (xs : List α) : Indifferent (xs.forM act) := by
  induction xs with
  | nil => exact indifferent_pure PUnit.unit
  | cons a xs ih => exact (h a).bind fun _ => ih

theorem Indifferent.part {act : Hearing τ α} (h : Indifferent act) (get : σ → τ)
    (set : τ → σ → σ) : Indifferent (act.part get set) := by
  intro x s s' hs
  obtain ⟨answer, y, t, t', hact, hact', ht⟩ := h (get x) s s' hs
  refine ⟨answer, set y x, t, t', ?_, ?_, ht⟩
  · unfold Hearing.part
    rw [Act.perform_within, hact]
  · unfold Hearing.part
    rw [Act.perform_within, hact']

theorem indifferent_note (level : Log.Level) (message : String) :
    Indifferent (outside (Surroundings.note level message) : Hearing σ Unit) :=
  fun x _ _ h => ⟨.ok (), x, _, _, rfl, rfl, h.clock_eq, h.host_eq⟩

theorem indifferent_readClock :
    Indifferent (outside Surroundings.readClock : Hearing σ Instant) := by
  intro x s s' h
  have hread : ∀ s₀ : Surroundings, s₀.clock = s.clock → Surroundings.readClock.perform s₀ =
      (s.clock.read.1.mapError .time, { s₀ with clock := s.clock.read.2 }) := by
    intro s₀ hs₀
    unfold Surroundings.readClock
    rw [Act.perform_get_bind, hs₀, Act.perform_set_bind]
    cases s.clock.read.1 <;> rfl
  exact ⟨_, x, _, _, perform_outside_eq (hread s rfl), perform_outside_eq (hread s' h.clock_eq),
    h.withClock _⟩

end Hearing

open Hearing

namespace Tree

theorem indifferent_hear (op : Tree → Clock → Reply) : Indifferent (hear op) := by
  intro t s s' h
  refine ⟨_, _, _, _, perform_hear op t s, ?_, h.withClock _⟩
  rw [perform_hear, h.clock_eq]

theorem indifferent_hearEnded (i : Identifier) (e : Ending) : Indifferent (hearEnded i e) := by
  refine indifferent_state.bind fun t => ?_
  dsimp only
  split
  · exact (indifferent_note _ _).bind fun _ => indifferent_hear _
  · exact indifferent_hear _

theorem indifferent_hearRegistered (i : Identifier) : Indifferent (hearRegistered i) :=
  fun t s s' h => ⟨.ok (), t.register i, s, s', rfl, rfl, h⟩

end Tree

namespace Writer

theorem indifferent_complete (o : Settings) (id : String) (finishedAt? : Option Instant) :
    Indifferent (complete o id finishedAt?) := by
  intro run s s' h
  cases hawaits : run.awaits id with
  | false =>
    exact ⟨_, _, _, _, perform_complete_other hawaits o _ s,
      perform_complete_other hawaits o _ s', h⟩
  | true =>
    cases hr : run.report id finishedAt? with
    | error e =>
      exact ⟨_, _, _, _, perform_complete_error hawaits hr o s,
        perform_complete_error hawaits hr o s', h⟩
    | ok r =>
      refine ⟨_, _, _, _, perform_complete_ok hawaits hr o s,
        perform_complete_ok hawaits hr o s', ?_⟩
      constructor
      · rw [clock_publish, clock_publish, h.clock_eq]
      · rw [host_publish, host_publish, h.host_eq]

theorem indifferent_withTree {α : Type} {act : Hearing Tree α} (h : Indifferent act) :
    Indifferent (Run.withTree act) := h.part _ _

theorem indifferent_endAct (o : Settings) (i : Identifier) (e : Ending) :
    Indifferent (endAct o i e) :=
  (indifferent_withTree (Tree.indifferent_hearEnded i e)).bind fun _ =>
    indifferent_complete o i.id _

theorem indifferent_callAct (o : Settings) (c : Tree.Call) : Indifferent (callAct o c) := by
  cases c with
  | register i => exact indifferent_withTree (Tree.indifferent_hearRegistered i)
  | started i =>
    exact (indifferent_withTree (Tree.indifferent_hear _)).bind fun _ => indifferent_pure ()
  | skipped i reason? => exact indifferent_endAct o i _
  | finished i result => exact indifferent_endAct o i _

theorem indifferent_completeRest (o : Settings) : Indifferent (completeRest o) := by
  refine indifferent_state.bind fun run => ?_
  dsimp only
  split
  · exact indifferent_readClock.bind fun now => indifferent_forM
      (fun root => indifferent_complete o root.id (some now)) run.pending
  · exact indifferent_pure ()

/-- At all but the start of a plan the writer takes nothing from the files. -/
theorem indifferent_hear {e : Event} (he : ∀ p, e ≠ .planStarted p) : Indifferent (hear e) := by
  intro w s s' h
  cases hrun : w.run? with
  | none =>
    obtain ⟨message, hact⟩ := perform_hear_idle he hrun s
    obtain ⟨message', hact'⟩ := perform_hear_idle he hrun s'
    exact ⟨_, _, _, _, hact, hact', h.clock_eq, h.host_eq⟩
  | some run =>
    obtain ⟨o, phase⟩ := w
    cases phase with
    | notStarted | finished => cases hrun
    | running run =>
      rcases e.shape with ⟨p, rfl⟩ | ⟨p?, rfl⟩ | ⟨c, rfl⟩
      · exact absurd rfl (he p)
      · obtain ⟨answer, run', t, t', hact, hact', ht⟩ := indifferent_completeRest o run s s' h
        rw [perform_hear_planFinished, perform_hear_planFinished, hact, hact']
        cases answer with
        | error f => exact ⟨_, _, _, _, rfl, rfl, ht⟩
        | ok _ => exact ⟨_, _, _, _, rfl, rfl, ht⟩
      · obtain ⟨answer, run', t, t', hact, hact', ht⟩ := indifferent_callAct o c run s s' h
        rw [perform_hear_call, perform_hear_call, hact, hact']
        exact ⟨_, _, _, _, rfl, rfl, ht⟩

theorem built_alike {s s' : Surroundings} (h : s.Alike s') (e : Event) (w : Writer) :
    built e w s' = built e w s := by
  have hended : ∀ (run : Run) (i : Identifier) (ending : Ending),
      run.builtAtEnd i ending s' = run.builtAtEnd i ending s := by
    intro run i ending
    obtain ⟨answer, tree, t, t', hact, hact', -⟩ :=
      Tree.indifferent_hearEnded i ending run.tree s s' h
    unfold Run.builtAtEnd
    rw [hact, hact']
    cases answer <;> rfl
  have hclosed : ∀ run : Run, run.builtAtClose s' = run.builtAtClose s := by
    intro run
    unfold Run.builtAtClose
    rw [h.clock_eq]
  unfold built
  cases w.run? with
  | none => rfl
  | some run =>
    cases e with
    | planStarted p | registered i | started i => rfl
    | planFinished p? => exact hclosed run
    | skipped i reason? => exact hended run i _
    | finished i result => exact hended run i _

end Writer

end TestRun
