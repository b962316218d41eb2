import TestRun.Listener.Event
set_option autoImplicit false

namespace TestRun

namespace Act

variable {σ τ α β : Type}

@[simp] theorem perform_pure (a : α) (s : σ) : (pure a : Act σ α).perform s = (.ok a, s) := rfl

@[simp] theorem perform_throw (f : Fault) (s : σ) :
    (throw f : Act σ α).perform s = (.error f, s) := rfl

theorem perform_bind (act : Act σ α) (next : α → Act σ β) (s : σ) :
    (act >>= next).perform s =
      match act.perform s with
      | (.ok a, s) => (next a).perform s
      | (.error f, s) => (.error f, s) := by
  change (ExceptT.bindCont next (act.perform s).1) (act.perform s).2 = _
  rcases act.perform s with ⟨_ | _, _⟩ <;> rfl

theorem perform_bind_ok {act : Act σ α} {s s' : σ} {a : α} (h : act.perform s = (.ok a, s'))
    (next : α → Act σ β) : (act >>= next).perform s = (next a).perform s' := by
  rw [perform_bind, h]

theorem perform_bind_error {act : Act σ α} {s s' : σ} {f : Fault}
    (h : act.perform s = (.error f, s')) (next : α → Act σ β) :
    (act >>= next).perform s = (.error f, s') := by
  rw [perform_bind, h]

theorem perform_bind_eq_ok {act : Act σ α} {next : α → Act σ β} {s s' : σ} {b : β}
    (h : (act >>= next).perform s = (.ok b, s')) :
    ∃ a s₁, act.perform s = (.ok a, s₁) ∧ (next a).perform s₁ = (.ok b, s') := by
  rw [perform_bind] at h
  rcases hact : act.perform s with ⟨f | a, s₁⟩ <;> rw [hact] at h
  · cases h
  · exact ⟨a, s₁, rfl, h⟩

@[simp] theorem perform_pure_bind (a : α) (next : α → Act σ β) (s : σ) :
    ((pure a : Act σ α) >>= next).perform s = (next a).perform s := rfl

@[simp] theorem perform_get (s : σ) : (get : Act σ σ).perform s = (.ok s, s) := rfl

@[simp] theorem perform_get_bind (next : σ → Act σ β) (s : σ) :
    ((get : Act σ σ) >>= next).perform s = (next s).perform s := rfl

@[simp] theorem perform_set (x s : σ) : (set x : Act σ PUnit).perform s = (.ok ⟨⟩, x) := rfl

@[simp] theorem perform_set_bind (x s : σ) (next : PUnit → Act σ β) :
    ((set x : Act σ PUnit) >>= next).perform s = (next ⟨⟩).perform x := rfl

@[simp] theorem perform_modify (f : σ → σ) (s : σ) :
    (modify f : Act σ PUnit).perform s = (.ok ⟨⟩, f s) := rfl

@[simp] theorem perform_modify_bind (f : σ → σ) (s : σ) (next : PUnit → Act σ β) :
    ((modify f : Act σ PUnit) >>= next).perform s = (next ⟨⟩).perform (f s) := rfl

@[simp] theorem perform_attempt (act : Act σ α) (s : σ) :
    act.attempt.perform s = (.ok (act.perform s).1, (act.perform s).2) := rfl

theorem perform_within (get : σ → τ) (set : τ → σ → σ) (act : Act τ α) (s : σ) :
    (act.within get set).perform s =
      ((act.perform (get s)).1, set (act.perform (get s)).2 s) := rfl

theorem perform_forM_cons (act : α → Act σ PUnit) (a : α) (rest : List α) (s : σ) :
    ((a :: rest).forM act).perform s = (act a >>= fun _ => rest.forM act).perform s := rfl

theorem perform_forM_append (act : α → Act σ PUnit) (first rest : List α) (s : σ) :
    ((first ++ rest).forM act).perform s =
      (first.forM act >>= fun _ => rest.forM act).perform s := by
  induction first generalizing s with
  | nil => rfl
  | cons a first ih =>
    rw [List.cons_append, perform_forM_cons, perform_bind, perform_bind, perform_forM_cons,
      perform_bind]
    rcases act a |>.perform s with ⟨_ | _, s'⟩
    · rfl
    · simp only [ih, perform_bind]

theorem perform_forM_of_forall {P : σ → Prop} {act : α → Act σ PUnit} {xs : List α}
    (h : ∀ a ∈ xs, ∀ s, P s → ∃ s', (act a).perform s = (.ok ⟨⟩, s') ∧ P s') {s : σ} (hs : P s) :
    ∃ s', (xs.forM act).perform s = (.ok ⟨⟩, s') ∧ P s' := by
  induction xs generalizing s with
  | nil => exact ⟨s, rfl, hs⟩
  | cons a xs ih =>
    obtain ⟨s₁, h₁, hs₁⟩ := h a List.mem_cons_self s hs
    obtain ⟨s₂, h₂, hs₂⟩ := ih (fun b hb => h b (List.mem_cons_of_mem a hb)) hs₁
    refine ⟨s₂, ?_, hs₂⟩
    rw [perform_forM_cons, perform_bind_ok h₁]
    exact h₂

end Act

namespace Hearing

open Act

variable {σ τ α β : Type}

@[simp] theorem perform_state (p : σ × Surroundings) :
    (state : Hearing σ σ).perform p = (.ok p.1, p) := rfl

@[simp] theorem perform_state_bind (next : σ → Hearing σ β) (p : σ × Surroundings) :
    ((state : Hearing σ σ) >>= next).perform p = (next p.1).perform p := rfl

@[simp] theorem perform_setState (x : σ) (p : σ × Surroundings) :
    (setState x).perform p = (.ok (), (x, p.2)) := rfl

@[simp] theorem perform_setState_bind (x : σ) (p : σ × Surroundings) (next : Unit → Hearing σ β) :
    (setState x >>= next).perform p = (next ()).perform (x, p.2) := rfl

theorem perform_outside (act : Act Surroundings α) (p : σ × Surroundings) :
    (outside act : Hearing σ α).perform p = ((act.perform p.2).1, (p.1, (act.perform p.2).2)) := rfl

theorem perform_outside_eq {act : Act Surroundings α} {p : σ × Surroundings}
    {answer : Except Fault α} {s : Surroundings} (h : act.perform p.2 = (answer, s)) :
    (outside act : Hearing σ α).perform p = (answer, (p.1, s)) := by
  rw [perform_outside, h]

end Hearing

def Host.bare : Host :=
  ⟨"/", ":", "\n", "", "", "", "", "", "", "", .ok "", "", [], "posix", [], 0⟩

namespace Surroundings

def bare (c : Time.Clock) : Surroundings := ⟨.bare, c, none, .empty, "", "", #[]⟩

/-- Nothing but the clock and the log changed. -/
def Quiet (s s' : Surroundings) : Prop := ∃ clock log, s' = { s with clock := clock, log := log }

theorem Quiet.refl (s : Surroundings) : s.Quiet s := ⟨s.clock, s.log, rfl⟩

theorem Quiet.withClock (s : Surroundings) (c : Time.Clock) : s.Quiet { s with clock := c } :=
  ⟨c, s.log, rfl⟩

theorem Quiet.disk_eq {s s' : Surroundings} (h : s.Quiet s') : s'.disk = s.disk := by
  obtain ⟨clock, log, rfl⟩ := h
  rfl

theorem Quiet.host_eq {s s' : Surroundings} (h : s.Quiet s') : s'.host = s.host := by
  obtain ⟨clock, log, rfl⟩ := h
  rfl

theorem Quiet.sink_eq {s s' : Surroundings} (h : s.Quiet s') : s'.sink = s.sink := by
  obtain ⟨clock, log, rfl⟩ := h
  rfl

theorem perform_debug (message : String) (s : Surroundings) :
    (debug message).perform s = (.ok (), { s with log := s.log.push ⟨.debug, message⟩ }) := rfl

def diagnostic (message : String) (f : Fault) : String := message ++ "\n" ++ traceText f

theorem perform_complain (message : String) (f : Fault) (s : Surroundings) :
    (complain message f).perform s = (.ok (), { s with
      log := s.log.push ⟨.warning, message ++ " (" ++ f.typeName ++ ": " ++ f.text ++ ")"⟩
      sink := s.sink ++ diagnostic message f }) := by
  have hsink : s.sink ++ message ++ "\n" ++ traceText f = s.sink ++ diagnostic message f := by
    unfold diagnostic
    simp only [String.append_assoc]
  rw [← hsink]
  rfl

theorem perform_readClock {s : Surroundings} {now : Time.Instant} {c : Time.Clock}
    (hread : s.clock.read = (.ok now, c)) : readClock.perform s = (.ok now, { s with clock := c }) := by
  unfold readClock
  simp only [Act.perform_get_bind, hread, Act.perform_set_bind, Act.perform_pure]

end Surroundings

end TestRun
