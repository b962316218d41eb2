import TestRun.Proofs.Listener.Glimpses
import TestRun.Proofs.Suite.Running
set_option autoImplicit false

/-!
# What a run sees of its clock

A run sees of its clock the readings that it takes. So what holds of runs whose clock can always be
read holds wherever the clock can be read as often as the run reads it.
-/

namespace TestRun

open Time Act

namespace Session

def view : View Session where
  clock s := s.surroundings.clock
  since past c s := { s with surroundings := s.surroundings.since past c }
  clock_since _ _ _ := rfl
  since_self s := by
    rw [show s.surroundings.since #[] s.surroundings.clock = s.surroundings from
      Surroundings.view.since_self s.surroundings]

theorem glimpses_around {α : Type} {act : Act Surroundings α}
    (h : Glimpses Surroundings.view act) : Glimpses view (around act) :=
  h.within (fun _ => rfl) (fun _ _ _ => rfl) (fun _ _ => rfl) (fun _ _ _ _ _ => rfl)

theorem glimpses_hearWriter (e : Event) : Glimpses view (hearWriter e) := by
  refine (Writer.glimpses_hear e).within (fun _ => rfl) (fun _ _ _ => rfl) ?_ ?_
  · rintro ⟨w, x⟩ s
    dsimp only
    cases w.run? <;> rfl
  · rintro past c c' ⟨w, x⟩ s
    dsimp only [Hearing.view]
    cases w.run? <;> rfl

theorem glimpses_hearConsole (e : Event) : Glimpses view (hearConsole e) := by
  refine (Console.glimpses_hear e).within (fun _ => rfl) (fun _ _ _ => rfl) ?_ ?_
  · rintro ⟨con, x⟩ s
    dsimp only
    cases con.tree? <;> rfl
  · rintro past c c' ⟨con, x⟩ s
    dsimp only [Hearing.view]
    cases con.tree? <;> rfl

theorem glimpses_hearAt (e : Event) (seat : Seat) : Glimpses view (hearAt e seat) := by
  cases seat with
  | writer => exact glimpses_hearWriter e
  | console => exact glimpses_hearConsole e
  | silent => exact glimpses_pure ()
  | recorder =>
    rcases e with p | (_ | p) | i | i | ⟨i, reason?⟩ | ⟨i, result⟩ <;>
      exact Blind.glimpses fun _ _ _ => rfl

theorem glimpses_deliver (e : Event) : Glimpses view (deliver e) :=
  glimpses_get_bind (fun _ _ _ => rfl) fun s => glimpses_forM (glimpses_hearAt e) s.audience

end Session

theorem Action.glimpses_run (action : Action) : Glimpses Session.view action.run := by
  cases action with
  | tick times =>
    exact (Session.glimpses_around (Surroundings.glimpses_tick times)).bind fun _ => glimpses_pure _
  | raise t => exact glimpses_throw _
  | abort reason? => exact glimpses_throw _
  | assume condition message? =>
    unfold Action.run
    dsimp only
    split
    · exact glimpses_pure _
    · exact glimpses_throw _
  | giveBack value => exact glimpses_pure _
  | fire e => exact (Session.glimpses_deliver e).bind fun _ => glimpses_pure _

theorem Body.glimpses_run (body : Body) : Glimpses Session.view body.run := by
  induction body with
  | nil => exact glimpses_pure _
  | cons action rest ih =>
    refine action.glimpses_run.bind fun value? => ?_
    cases value? with
    | none => exact ih
    | some value => exact glimpses_pure value

namespace Session

theorem glimpses_invoke (body? : Option Body) : Glimpses view (invoke body?) := by
  cases body? with
  | none => exact glimpses_pure _
  | some body =>
    refine body.glimpses_run.attempt.bind fun answer => ?_
    cases answer with
    | ok value => exact glimpses_pure _
    | error f =>
      dsimp only
      split
      · exact glimpses_throw f
      · split <;> exact glimpses_pure _

theorem glimpses_eachChild (workers : Bool) {execute : Identifier → Act Session Unit}
    (h : ∀ i, Glimpses view (execute i)) (children : List Identifier) (kept? : Option Fault) :
    Glimpses view (eachChild workers execute children kept?) := by
  induction children generalizing kept? with
  | nil =>
    cases kept? with
    | none => exact glimpses_pure ()
    | some f => exact glimpses_throw f
  | cons child rest ih =>
    unfold eachChild
    split
    · refine (h child).attempt.bind fun answer => ?_
      cases answer with
      | ok _ => exact ih kept?
      | error f => exact ih _
    · exact (h child).bind fun _ => ih kept?

theorem glimpses_execute (nodes : Table String SuiteNode) (workers : Bool) (depth : Nat)
    (i : Identifier) : Glimpses view (execute nodes workers depth i) := by
  induction depth generalizing i with
  | zero => exact glimpses_throw _
  | succ depth ih =>
    unfold execute
    cases nodes.get? i.id with
    | none => exact glimpses_throw _
    | some node =>
      dsimp only
      cases node.label.skip? with
      | some reason => exact glimpses_deliver _
      | none =>
        refine (glimpses_deliver _).bind fun _ => ?_
        cases node with
        | test label body? =>
          exact (glimpses_invoke body?).bind fun _ => glimpses_deliver _
        | group isEngine label hooks children =>
          refine (glimpses_invoke hooks.before?).bind fun before => ?_
          have hend (answer : ExecutionResult → ExecutionResult) : Glimpses view (do
              let after ← invoke hooks.after?
              let result ← pure (answer after)
              deliver (.finished i result)) :=
            (glimpses_invoke hooks.after?).bind fun _ => glimpses_deliver _
          split
          · refine glimpses_get_bind (fun _ _ _ => rfl) fun s => ?_
            refine (glimpses_eachChild workers ih (s.plan.children i.id) none).bind fun _ => ?_
            exact hend fun after => after
          · exact hend fun _ => before

theorem glimpses_runDiscovered (d : Discovery) (workers : Bool) :
    Glimpses view (runDiscovered d workers) := by
  refine Glimpses.bind (Blind.glimpses fun _ _ _ => rfl) fun _ => ?_
  refine glimpses_get_bind (fun _ _ _ => rfl) fun s => ?_
  refine (glimpses_around (Surroundings.blind_note _ _).glimpses).bind fun _ => ?_
  refine (glimpses_deliver _).bind fun _ => glimpses_get_bind (fun _ _ _ => rfl) fun s => ?_
  refine (glimpses_forM (glimpses_execute d.nodes workers _) s.plan.roots).bind fun _ => ?_
  exact glimpses_get_bind (fun _ _ _ => rfl) fun s => glimpses_deliver _

theorem glimpses_run (r : Runner) (forest : List SuiteNode) : Glimpses view (run r forest) := by
  unfold run
  cases Discovery.ofForest forest with
  | error f => exact glimpses_throw f
  | ok d => exact glimpses_runDiscovered d r.isParallel

theorem since_eq_withClock (c : Clock) (s : Session) : view.since #[] c s = s.withClock c := by
  simp [view, Surroundings.since, withClock]

/-- A run does the same with each clock that gives the readings which the run takes. -/
theorem run_sees_readings (r : Runner) (forest : List SuiteNode) (s : Session) :
    ∃ n, ((run r forest).perform s).2.surroundings.clock = s.surroundings.clock.after n ∧
      ∀ c, s.surroundings.clock.Agrees c n →
        (run r forest).perform (s.withClock c) = (((run r forest).perform s).1,
          ((run r forest).perform s).2.withClock (c.after n)) := by
  obtain ⟨n, hclock, hact⟩ := glimpses_run r forest s
  refine ⟨n, hclock, fun c hc => ?_⟩
  rw [← since_eq_withClock, ← since_eq_withClock]
  exact hact #[] c hc

/-- So a clock need not go on for ever: a run at whose end it can still be read is, but for the
clock, a run with a reliable one. -/
theorem run_as_reliable (r : Runner) (forest : List SuiteNode) {s : Session} {aware : Bool}
    (hkind : s.surroundings.clock.OneKind aware) {now : Instant}
    (hread : ((run r forest).perform s).2.surroundings.clock.read.1 = .ok now) :
    ∃ c n, c.Reliable aware ∧ (run r forest).perform (s.withClock c) =
      (((run r forest).perform s).1, ((run r forest).perform s).2.withClock (c.after n)) := by
  obtain ⟨c, n, hreliable, hact⟩ := (glimpses_run r forest).as_reliable hkind hread
  refine ⟨c, n, hreliable, ?_⟩
  rw [← since_eq_withClock, ← since_eq_withClock]
  exact hact

end Session

end TestRun
