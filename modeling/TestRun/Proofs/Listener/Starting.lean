import TestRun.Proofs.Listener.Reports
set_option autoImplicit false

namespace TestRun.Writer

open Time Files Surroundings

def Settings.path? (o : Settings) : Option Path :=
  match Path.ofCode o.directory with
  | .ok path => if o.directory.contains (.ofChar '\x00') then none else some path
  | .error _ => none

/-- The reports directory if it can be created on a disk, and the disk after that. -/
def Settings.opened (o : Settings) (d : Disk) : Option Path × Disk :=
  match o.path? with
  | none => (none, d)
  | some path =>
    match d.makeDirectories path with
    | (.ok _, d) => (some path, d)
    | (.error _, d) => (none, d)

def Settings.openingText (o : Settings) (d : Disk) : String :=
  match o.path? with
  | none => ""
  | some path =>
    match (d.makeDirectories path).1 with
    | .ok _ => ""
    | .error e => diagnostic ("Could not create reports directory: " ++ path.text) (.file e)

def begun (plan : Plan) (now : Instant) (hostName : String) (properties : List (String × String))
    (directory? : Option Path) : Run :=
  ⟨.begin plan (some now), plan.roots, now, hostName, properties, directory?⟩

def opens (w : Writer) (s : Surroundings) : Bool :=
  s.clock.read.1.toOption.isSome &&
    (s.host.properties w.settings.extra w.settings.withEnvironment).toOption.isSome

variable {o : Settings} {w : Writer} {s : Surroundings} {p : Plan}

theorem perform_openDirectory (o : Settings) (s : Surroundings) :
    ∃ answer s', (openDirectory o.directory).perform s = (answer, s') ∧
      answer.toOption.join = (o.opened s.disk).1 ∧ s'.disk = (o.opened s.disk).2 ∧
      s'.clock = s.clock ∧ s'.host = s.host ∧ s'.sink = s.sink ++ o.openingText s.disk ∧
      (o.path? ≠ none → answer.isOk = true) := by
  unfold openDirectory Settings.opened Settings.openingText Settings.path?
  cases Path.ofCode o.directory with
  | error e => exact ⟨_, s, rfl, rfl, rfl, rfl, rfl, (String.append_empty).symm, absurd rfl⟩
  | ok path =>
    dsimp only
    cases o.directory.contains (.ofChar '\x00') with
    | true => exact ⟨_, s, rfl, rfl, rfl, rfl, rfl, (String.append_empty).symm, absurd rfl⟩
    | false =>
      simp only [Bool.false_eq_true, if_false, Act.perform_get_bind, Act.perform_set_bind]
      rcases s.disk.makeDirectories path with ⟨e | _, d⟩
      · refine ⟨_, _, Act.perform_bind_ok (perform_complain _ _ _) _, rfl, rfl, rfl, rfl, rfl, ?_⟩
        exact fun _ => rfl
      · exact ⟨_, _, rfl, rfl, rfl, rfl, rfl, (String.append_empty).symm, fun _ => rfl⟩

theorem hear_planStarted_begun {now : Instant} {c : Clock}
    {rows : List (Text.CodeText × Text.CodeText)} (hread : s.clock.read = (.ok now, c))
    (hrows : s.host.properties w.settings.extra w.settings.withEnvironment = .ok rows) (p : Plan) :
    ∃ answer s₁ s', s.Quiet s₁ ∧ s₁.clock = c ∧
      (openDirectory w.settings.directory).perform s₁ = (answer, s') ∧
      (hear (.planStarted p)).perform (w, s) = (answer.map fun _ => (),
        (⟨w.settings, .running (begun p now (w.settings.hostName s.host) (shownProperties rows)
          answer.toOption.join)⟩, s')) := by
  obtain ⟨o, phase⟩ := w
  have hclock : ∀ s₀ : Surroundings, s₀.clock = s.clock →
      (Hearing.outside readClock : Hearing Writer Instant).perform (⟨o, phase⟩, s₀) =
        (.ok now, (⟨o, phase⟩, { s₀ with clock := c })) := fun s₀ hs₀ =>
    Hearing.perform_outside_eq (perform_readClock (hs₀ ▸ hread))
  -- what happens once the clock and the properties are read, whatever run was there before
  have hopen : ∀ (phase : Phase) (s₁ : Surroundings), ∃ answer s',
      (openDirectory o.directory).perform s₁ = (answer, s') ∧
      (do
        let run := begun p now (o.hostName s.host) (shownProperties rows) none
        setRun run
        let directory? ← Hearing.outside (openDirectory o.directory)
        setRun { run with directory? := directory? } : Hearing Writer Unit).perform
          (⟨o, phase⟩, s₁) = (answer.map fun _ => (), (⟨o, .running (begun p now
            (o.hostName s.host) (shownProperties rows) answer.toOption.join)⟩, s')) := by
    intro phase s₁
    rcases h : (openDirectory o.directory).perform s₁ with ⟨f | directory?, s'⟩
    · exact ⟨_, _, rfl, Act.perform_bind_error (Hearing.perform_outside_eq h) _⟩
    · exact ⟨_, _, rfl, Act.perform_bind_ok (Hearing.perform_outside_eq h) _⟩
  unfold hear hearPlanStarted
  simp only [Hearing.perform_state_bind]
  cases phase with
  | notStarted | finished =>
    obtain ⟨answer, s', hact, hrun⟩ := hopen _ { s with clock := c }
    refine ⟨answer, _, s', .withClock s c, rfl, hact, ?_⟩
    simp only [run?, Option.isSome_none, Bool.false_eq_true, if_false]
    rw [Act.perform_bind_ok (hclock s rfl), Act.perform_get_bind]
    simp only [hrows]
    exact hrun
  | running run =>
    let log := s.log.push ⟨.warning, "Test plan started twice; discarding previous run state"⟩
    have hwarn : (Hearing.outside (warn "Test plan started twice; discarding previous run state") :
        Hearing Writer Unit).perform (⟨o, .running run⟩, s) =
          (.ok (), (⟨o, .running run⟩, { s with log := log })) := rfl
    obtain ⟨answer, s', hact, hrun⟩ :=
      hopen (.running { run with startedAt := now, hostName := o.hostName s.host })
        { s with log := log, clock := c }
    refine ⟨answer, _, s', ⟨c, log, rfl⟩, rfl, hact, ?_⟩
    simp only [run?, Option.isSome_some, if_true]
    rw [Act.perform_bind_ok hwarn, Act.perform_bind_ok (hclock { s with log := log } rfl),
      Act.perform_get_bind]
    have hset : (setRun { run with startedAt := now, hostName := o.hostName s.host }).perform
        (⟨o, .running run⟩, { s with log := log, clock := c }) = (.ok (),
          (⟨o, .running { run with startedAt := now, hostName := o.hostName s.host }⟩,
            { s with log := log, clock := c })) := rfl
    rw [Act.perform_bind_ok hset]
    simp only [hrows]
    exact hrun

/-- Where the clock or the properties cannot be read, the start of a plan fails, and a run that was
in progress goes on; no more than the instant and the host that it shows may have changed. -/
theorem hear_planStarted_refused (h : opens w s = false) (p : Plan) :
    ∃ f w' s', (hear (.planStarted p)).perform (w, s) = (.error f, (w', s')) ∧ s.Quiet s' ∧
      s'.clock = s.clock.read.2 ∧ w'.settings = w.settings ∧
      (w' = w ∨ ∃ run startedAt hostName, w.run? = some run ∧
        w'.run? = some { run with startedAt := startedAt, hostName := hostName }) ∧
      ∀ now c t, s.clock.read = (.ok now, c) →
        s.host.properties w.settings.extra w.settings.withEnvironment = .error t → f = .thrown t := by
  obtain ⟨o, phase⟩ := w
  have hclock : ∀ s₀ : Surroundings, s₀.clock = s.clock →
      (Hearing.outside readClock : Hearing Writer Instant).perform (⟨o, phase⟩, s₀) =
        (s.clock.read.1.mapError .time, (⟨o, phase⟩, { s₀ with clock := s.clock.read.2 })) := by
    intro s₀ hs₀
    refine Hearing.perform_outside_eq ?_
    unfold readClock
    rw [Act.perform_get_bind, hs₀, Act.perform_set_bind]
    cases s.clock.read.1 <;> rfl
  let log := s.log.push ⟨.warning, "Test plan started twice; discarding previous run state"⟩
  let silent : Surroundings := { s with clock := s.clock.read.2 }
  let warned : Surroundings := { s with log := log, clock := s.clock.read.2 }
  unfold opens at h
  unfold hear hearPlanStarted
  simp only [Hearing.perform_state_bind]
  cases hread : s.clock.read.1 with
  | error e =>
    rw [hread] at hclock
    have hunread : ∀ now c t, s.clock.read = (.ok now, c) →
        s.host.properties o.extra o.withEnvironment = .error t → Fault.time e = .thrown t :=
      fun now c t h _ => nomatch hread.symm.trans (congrArg Prod.fst h)
    cases phase with
    | notStarted | finished =>
      refine ⟨.time e, _, silent, ?_, .withClock s _, rfl, rfl, .inl rfl, hunread⟩
      simp only [run?, Option.isSome_none, Bool.false_eq_true, if_false]
      exact Act.perform_bind_error (hclock s rfl) _
    | running run =>
      refine ⟨.time e, _, warned, ?_, ⟨_, _, rfl⟩, rfl, rfl, .inl rfl, hunread⟩
      simp only [run?, Option.isSome_some, if_true]
      exact Act.perform_bind_error (hclock { s with log := log } rfl) _
  | ok now =>
    rw [hread] at hclock h
    cases hrows : s.host.properties o.extra o.withEnvironment with
    | ok rows =>
      rw [hrows] at h
      cases h
    | error t =>
      have hthrown : ∀ (now : Instant) (c : Clock) (t' : Thrown), s.clock.read = (.ok now, c) →
          (.error t : Except Thrown (List (Text.CodeText × Text.CodeText))) = .error t' →
          Fault.thrown t = .thrown t' :=
        fun _ _ _ _ h => congrArg Fault.thrown (Except.error.inj h)
      cases phase with
      | notStarted | finished =>
        refine ⟨.thrown t, _, silent, ?_, .withClock s _, rfl, rfl, .inl rfl, hthrown⟩
        simp only [run?, Option.isSome_none, Bool.false_eq_true, if_false]
        refine (Act.perform_bind_ok (hclock s rfl) _).trans ?_
        rw [Act.perform_get_bind]
        simp only [hrows]
        rfl
      | running run =>
        refine ⟨.thrown t,
          ⟨o, .running { run with startedAt := now, hostName := o.hostName s.host }⟩,
          warned, ?_, ⟨_, _, rfl⟩, rfl, rfl, .inr ⟨run, now, o.hostName s.host, rfl, rfl⟩, hthrown⟩
        simp only [run?, Option.isSome_some, if_true]
        refine (Act.perform_bind_ok (hclock { s with log := log } rfl) _).trans ?_
        rw [Act.perform_get_bind]
        simp only [hrows]
        rfl

end TestRun.Writer
