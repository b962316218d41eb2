import TestRun.Proofs.Listener.Glimpses
set_option autoImplicit false

namespace TestRun

open Time Act Surroundings

namespace Surroundings

def unlogged (s : Surroundings) : Surroundings := { s with log := #[] }

theorem Quiet.eq_since {s s' : Surroundings} (h : s.Quiet s') :
    s' = view.since s'.log s'.clock s.unlogged := by
  obtain ⟨clock, log, rfl⟩ := h
  simp [view, since, unlogged]

end Surroundings

open Hearing

namespace Hearing

variable {σ α : Type}

def Twins (p q : σ × Surroundings) : Prop := ∃ log, q = (p.1, { p.2 with log := log })

theorem twins_since (p : σ × Surroundings) (past past' : Array Log.Record) (c : Clock) :
    Twins ((view σ).since past c p) ((view σ).since past' c p) := ⟨past' ++ p.2.log, rfl⟩

theorem Twins.perform {p q : σ × Surroundings} (h : Twins p q) {act : Hearing σ α}
    (hact : Glimpses (view σ) act) :
    (act.perform q).1 = (act.perform p).1 ∧ Twins (act.perform p).2 (act.perform q).2 := by
  obtain ⟨x, s⟩ := p
  obtain ⟨log, rfl⟩ := h
  have hs : (x, s) = (view σ).since s.log s.clock (x, s.unlogged) := by
    simp [view, Surroundings.since, unlogged]
  have hlog : (x, { s with log := log }) = (view σ).since log s.clock (x, s.unlogged) := by
    simp [view, Surroundings.since, unlogged]
  obtain ⟨n, -, hperform⟩ := hact (x, s.unlogged)
  dsimp only
  rw [hs, hlog, hperform s.log s.clock (.refl _ n), hperform log s.clock (.refl _ n)]
  exact ⟨rfl, twins_since _ _ _ _⟩

/-- Gives events to a listener one after the other, also after it has failed at some, and keeps its
answers. -/
def hearEach (hear : Event → Hearing σ Unit) : List Event → Hearing σ (List (Except Fault Unit))
  | [] => pure []
  | e :: events => do
    let answer ← (hear e).attempt
    let answers ← hearEach hear events
    pure (answer :: answers)

theorem glimpses_hearEach {hear : Event → Hearing σ Unit}
    (h : ∀ e, Glimpses (view σ) (hear e)) (events : List Event) :
    Glimpses (view σ) (hearEach hear events) := by
  induction events with
  | nil => exact glimpses_pure _
  | cons e events ih => exact (h e).attempt.bind fun _ => ih.bind fun _ => glimpses_pure _

/-- To a listener a clock that can still be read after the events is as good as a reliable one. -/
theorem hearEach_as_reliable {hear : Event → Hearing σ Unit}
    (h : ∀ e, Glimpses (view σ) (hear e)) (events : List Event) {x : σ} {s : Surroundings}
    {aware : Bool} (hkind : s.clock.OneKind aware) {now : Instant}
    (hread : ((hearEach hear events).perform (x, s)).2.2.clock.read.1 = .ok now) :
    let q := (hearEach hear events).perform (x, s)
    ∃ c n, c.Reliable aware ∧ (hearEach hear events).perform (x, { s with clock := c }) =
      (q.1, (q.2.1, { q.2.2 with clock := c.after n })) := by
  obtain ⟨c, n, hreliable, hact⟩ :=
    (glimpses_hearEach h events).as_reliable (s := (x, s)) hkind hread
  refine ⟨c, n, hreliable, ?_⟩
  simpa [view, Surroundings.since] using hact

theorem perform_hearEach_cons (hear : Event → Hearing σ Unit) (e : Event) (events : List Event)
    (p : σ × Surroundings) :
    (hearEach hear (e :: events)).perform p =
      (((hearEach hear events).perform ((hear e).perform p).2).1.map (((hear e).perform p).1 :: ·),
        ((hearEach hear events).perform ((hear e).perform p).2).2) := by
  rw [hearEach, perform_bind_ok (perform_attempt _ _), perform_bind]
  rcases (hearEach hear events).perform ((hear e).perform p).2 with ⟨_ | _, _⟩ <;> rfl

theorem Twins.hearEach_cons {hear : Event → Hearing σ Unit}
    (hhear : ∀ e, Glimpses (view σ) (hear e)) {p q : σ × Surroundings} {e : Event}
    (hfirst : ((hear e).perform q).1 = ((hear e).perform p).1 ∧
      Twins ((hear e).perform p).2 ((hear e).perform q).2) (later : List Event) :
    ((hearEach hear (e :: later)).perform q).1 = ((hearEach hear (e :: later)).perform p).1 ∧
      Twins ((hearEach hear (e :: later)).perform p).2
        ((hearEach hear (e :: later)).perform q).2 := by
  obtain ⟨hanswers, hrest⟩ :=
    hfirst.2.perform (glimpses_hearEach hhear later)
  rw [perform_hearEach_cons, perform_hearEach_cons, hfirst.1, hanswers]
  exact ⟨rfl, hrest⟩

end Hearing

namespace Writer

theorem settings_hear (e : Event) (w : Writer) (s : Surroundings) :
    ((hear e).perform (w, s)).2.1.settings = w.settings := by
  rcases e.shape with ⟨p, rfl⟩ | he
  · cases hopens : opens w s with
    | true =>
      obtain ⟨now, c, rows, hread, hrows⟩ := Watch.opens_eq_true hopens
      obtain ⟨answer, s₁, s', -, -, -, hact⟩ := hear_planStarted_begun hread hrows p
      rw [hact]
    | false =>
      obtain ⟨f, w', s', hact, -, -, hsettings, -⟩ := hear_planStarted_refused hopens p
      rw [hact]
      exact hsettings
  · have hstart : ∀ plan, e ≠ .planStarted plan := by
      rintro plan rfl
      rcases he with ⟨_, h⟩ | ⟨c, h⟩
      · cases h
      · cases c <;> cases h
    obtain ⟨o, phase⟩ := w
    cases hrun : (⟨o, phase⟩ : Writer).run? with
    | none =>
      obtain ⟨message, hact⟩ := perform_hear_idle hstart hrun s
      rw [hact]
    | some run =>
      cases phase <;> cases hrun
      rcases he with ⟨p?, rfl⟩ | ⟨c, rfl⟩
      · rw [perform_hear_planFinished]
        rcases (completeRest o).perform (run, s) with ⟨_ | _, _⟩ <;> rfl
      · rw [perform_hear_call]

theorem settings_hearEach (events : List Event) (w : Writer) (s : Surroundings) :
    ((hearEach hear events).perform (w, s)).2.1.settings = w.settings := by
  induction events generalizing w s with
  | nil => rfl
  | cons e events ih =>
    rw [perform_hearEach_cons]
    exact (ih _ _).trans (settings_hear e w s)

theorem twins_planStarted {w : Writer} {s : Surroundings} {p : Plan}
    (h : ((hear (.planStarted p)).perform (w, s)).1 = .ok ()) :
    ((hear (.planStarted p)).perform (fresh w.settings, s)).1 =
        ((hear (.planStarted p)).perform (w, s)).1 ∧
      Twins ((hear (.planStarted p)).perform (w, s)).2
        ((hear (.planStarted p)).perform (fresh w.settings, s)).2 := by
  cases hopens : opens w s with
  | false =>
    obtain ⟨f, w', s', hact, -⟩ := hear_planStarted_refused hopens p
    rw [hact] at h
    cases h
  | true =>
    obtain ⟨now, c, rows, hread, hrows⟩ := Watch.opens_eq_true hopens
    obtain ⟨answer, s₁, s', hquiet, rfl, hopen, hact⟩ :=
      hear_planStarted_begun (w := w) hread hrows p
    obtain ⟨answer', s₂, s'', hquiet', hclock, hopen', hact'⟩ :=
      hear_planStarted_begun (w := fresh w.settings) hread hrows p
    -- the directory is opened from the same surroundings, but for what was logged before
    rw [hquiet.eq_since, blind_openDirectory] at hopen
    rw [hquiet'.eq_since, hclock, blind_openDirectory] at hopen'
    cases hopen
    cases hopen'
    rw [hact, hact']
    exact ⟨rfl, twins_since (_, _) _ _ _⟩

end Writer

/-- No state leaks from one run to the next. Whatever a writer or a console has heard before, and in
whatever surroundings: from a start of a plan on that it accepts, it answers all events as a fresh
one does, and leaves the same files and texts behind and the same state, totals included. -/
theorem planStarted_renews (o : Writer.Settings) (history : List Event) (s₀ s : Surroundings)
    (p : Plan) :
    (let w := ((hearEach Writer.hear history).perform (.fresh o, s₀)).2.1;
      ((Writer.hear (.planStarted p)).perform (w, s)).1 = .ok () →
      ∀ later, let used := (hearEach Writer.hear (.planStarted p :: later)).perform (w, s)
        let new := (hearEach Writer.hear (.planStarted p :: later)).perform (.fresh o, s)
        new.1 = used.1 ∧ Twins used.2 new.2) ∧
    (let c := ((hearEach Console.hear history).perform (.fresh, s₀)).2.1;
      ((Console.hear (.planStarted p)).perform (c, s)).1 = .ok () ∧
      ∀ later, let used := (hearEach Console.hear (.planStarted p :: later)).perform (c, s)
        let new := (hearEach Console.hear (.planStarted p :: later)).perform (.fresh, s)
        new.1 = used.1 ∧ Twins used.2 new.2) := by
  constructor
  · intro w hok later
    have hsettings : w.settings = o := Writer.settings_hearEach history (.fresh o) s₀
    have hfirst := Writer.twins_planStarted hok
    rw [hsettings] at hfirst
    exact Twins.hearEach_cons Writer.glimpses_hear hfirst later
  · intro c
    exact ⟨rfl, Twins.hearEach_cons Console.glimpses_hear ⟨rfl, s.log, rfl⟩⟩

theorem planStarted_renews_abandoned :
    let o : Writer.Settings := ⟨.ofString "out", none, [], false, none⟩
    let e : Identifier := ⟨"e", "e", none, .engine⟩
    let p := Plan.ofList 1 [e]
    let later : List Event := [.started e, .finished e .successful, .planFinished (some p)]
    let after := ((hearEach Writer.hear [.planStarted p]).perform
      (.fresh o, .bare (.fixed .epoch))).2
    let used := (hearEach Writer.hear (.planStarted p :: later)).perform after
    let new := (hearEach Writer.hear (.planStarted p :: later)).perform (.fresh o, after.2)
    after.1.run?.isSome = true ∧ ((Writer.hear (.planStarted p)).perform after).1 = .ok () ∧
      new.1 = used.1 ∧ Twins used.2 new.2 := by
  intro o e p later after used new
  have ho : o.Fits .bare := ⟨⟨_, rfl⟩, ⟨_, rfl⟩, by decide⟩
  obtain ⟨w, s, hact, ⟨directory?, hw⟩, hclock, hhost⟩ :=
    Writer.hear_planStarted (s := .bare (.fixed .epoch)) ho (Clock.fixed_reliable .epoch)
      .notStarted p
  obtain ⟨run, rfl, -⟩ := hw.exists_run
  have hafter : after = (⟨o, .running run⟩, s) := by
    unfold after
    rw [perform_hearEach_cons, Writer.fresh, hact]
    rfl
  have hok : ((Writer.hear (.planStarted p)).perform after).1 = .ok () := by
    have ho' : o.Fits s.host := by rwa [hhost]
    obtain ⟨w', s', hact', -⟩ := Writer.hear_planStarted ho' hclock (.running run) p
    rw [hafter, hact']
  refine ⟨?_, hok, (planStarted_renews o [.planStarted p] (.bare (.fixed .epoch)) after.2 p).1 hok
    later⟩
  rw [hafter]
  rfl

end TestRun
