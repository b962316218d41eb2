import TestRun.Proofs.Listener.Delivery
import TestRun.Suite.Execution
set_option autoImplicit false

namespace TestRun

def Action.IsPlain : Action → Prop
  | .fire _ => False
  | .raise t => t.kind.interrupt = false
  | _ => True

instance : DecidablePred Action.IsPlain
  | .fire _ => isFalse id
  | .raise t => inferInstanceAs (Decidable (t.kind.interrupt = false))
  | .tick _ | .abort _ | .assume _ _ | .giveBack _ => isTrue trivial

namespace Body

def IsPlain (body : Body) : Prop := ∀ action ∈ body, action.IsPlain

instance : DecidablePred IsPlain :=
  fun body => inferInstanceAs (Decidable (∀ action ∈ body, action.IsPlain))

def fault? : Body → Option Fault
  | [] => none
  | .tick _ :: rest | .fire _ :: rest => fault? rest
  | .raise t :: _ => some (.thrown t)
  | .abort reason? :: _ => some (Action.aborted (reason?.getD (.text "")))
  | .assume condition message? :: rest =>
    if condition.isTruthy then fault? rest
    else some (Action.aborted (message?.getD (.text "assumption failed")))
  | .giveBack _ :: _ => none

/-- How often each action reads the clock, up to the one that ends the body. -/
def readings : Body → List Nat
  | .tick times :: rest => times :: readings rest
  | .fire _ :: rest => readings rest
  | .assume condition _ :: rest => if condition.isTruthy then readings rest else []
  | [] | .raise _ :: _ | .abort _ :: _ | .giveBack _ :: _ => []

def raised? (body? : Option Body) : Option Fault := body?.bind fault?

def readingsOf (body? : Option Body) : List Nat := (body?.map readings).getD []

theorem aborted_interrupt (reason : Datum) : (Action.aborted reason).isInterrupt = false := rfl

theorem not_interrupt {body : Body} (h : ∀ t, .raise t ∈ body → t.kind.interrupt = false)
    {f : Fault} (hf : body.fault? = some f) : f.isInterrupt = false := by
  induction body with
  | nil => cases hf
  | cons action rest ih =>
    have hrest : ∀ t, .raise t ∈ rest → t.kind.interrupt = false :=
      fun t ht => h t (List.mem_cons_of_mem _ ht)
    cases action with
    | tick times => exact ih hrest hf
    | fire e => exact ih hrest hf
    | raise t =>
      cases hf
      exact h t List.mem_cons_self
    | abort reason? =>
      cases hf
      exact aborted_interrupt _
    | assume condition message? =>
      unfold fault? at hf
      split at hf
      · exact ih hrest hf
      · cases hf
        exact aborted_interrupt _
    | giveBack value => cases hf

theorem IsPlain.not_interrupt {body : Body} (h : body.IsPlain) {f : Fault}
    (hf : body.fault? = some f) : f.isInterrupt = false :=
  Body.not_interrupt (fun t ht => h (.raise t) ht) hf

theorem IsPlain.mute {body : Body} (h : body.IsPlain) (e : Event) : .fire e ∉ body :=
  fun he => h (.fire e) he

theorem raised_not_interrupt {body? : Option Body}
    (hbody : ∀ body, body? = some body → body.IsPlain) {f : Fault} (hf : raised? body? = some f) :
    f.isInterrupt = false := by
  obtain ⟨body, rfl, hfault⟩ := Option.bind_eq_some_iff.1 hf
  exact (hbody body rfl).not_interrupt hfault

end Body

def ExecutionResult.after : Option Fault → ExecutionResult
  | none => .successful
  | some f => if f.isAbort then .aborted f.cause else .failed f.cause

/-- What running a hook or a body comes to: an interrupt, or how the node takes what it raised. -/
def Body.outcome (body? : Option Body) : Except Fault ExecutionResult :=
  match raised? body? with
  | some f => if f.isInterrupt then .error f else .ok (.after (some f))
  | none => .ok (.after none)

theorem Body.outcome_eq_ok {body? : Option Body}
    (h : ∀ {f}, raised? body? = some f → f.isInterrupt = false) :
    outcome body? = .ok (.after (raised? body?)) := by
  unfold outcome
  cases hf : raised? body? with
  | none => rfl
  | some f =>
    dsimp only
    rw [h hf, if_neg Bool.false_ne_true]

namespace Session

def readAll (times : List Nat) : Act Session Unit := times.forM fun n => around (Surroundings.tick n)

variable {aware : Bool}

theorem perform_tick (n : Nat) {s : Surroundings} (hs : s.clock.Reliable aware) :
    ∃ c, (Surroundings.tick n).perform s = (.ok (), { s with clock := c }) ∧ c.Reliable aware := by
  induction n generalizing s with
  | zero => exact ⟨s.clock, rfl, hs⟩
  | succ n ih =>
    obtain ⟨now, hread, -, hrest⟩ := hs.read
    obtain ⟨c, hact, hc⟩ := ih (s := { s with clock := s.clock.read.2 }) hrest
    refine ⟨c, ?_, hc⟩
    unfold Surroundings.tick
    rw [Act.perform_bind_ok (Surroundings.perform_readClock hread)]
    exact hact

def withClock (s : Session) (c : Time.Clock) : Session :=
  { s with surroundings := { s.surroundings with clock := c } }

theorem perform_around_tick (n : Nat) {s : Session} (hs : s.surroundings.clock.Reliable aware) :
    ∃ c, (around (Surroundings.tick n)).perform s = (.ok (), s.withClock c) ∧
      c.Reliable aware := by
  obtain ⟨c, hact, hc⟩ := perform_tick n hs
  refine ⟨c, ?_, hc⟩
  unfold around
  rw [Act.perform_within, hact]
  rfl

theorem perform_assume_pass {condition : Datum} (h : condition.isTruthy = true)
    (message? : Option Datum) (s : Session) :
    (Action.run (.assume condition message?)).perform s = (.ok none, s) := by
  rw [Action.run, if_pos h]
  rfl

theorem perform_assume_fail {condition : Datum} (h : ¬ condition.isTruthy = true)
    (message? : Option Datum) (s : Session) :
    (Action.run (.assume condition message?)).perform s =
      (.error (Action.aborted (message?.getD (.text "assumption failed"))), s) := by
  rw [Action.run, if_neg h]
  rfl

theorem perform_body {body : Body} (hmute : ∀ e, .fire e ∉ body) {s : Session}
    (hs : s.surroundings.clock.Reliable aware) :
    ∃ answer s', (Body.run body).perform s = (answer, s') ∧
      (readAll body.readings).perform s = (.ok (), s') ∧
      (∀ f, body.fault? = some f → answer = .error f) ∧
      (body.fault? = none → ∃ value, answer = .ok value) := by
  induction body generalizing s with
  | nil => exact ⟨.ok .null, s, rfl, rfl, nofun, fun _ => ⟨.null, rfl⟩⟩
  | cons action rest ih =>
    have hrest : ∀ e, .fire e ∉ rest := fun e he => hmute e (List.mem_cons_of_mem _ he)
    cases action with
    | fire e => exact absurd List.mem_cons_self (hmute e)
    | giveBack value => exact ⟨.ok value, s, rfl, rfl, nofun, fun _ => ⟨value, rfl⟩⟩
    | raise t =>
      refine ⟨.error (.thrown t), s, rfl, rfl, fun f hf => ?_, nofun⟩
      cases hf
      rfl
    | abort reason? =>
      refine ⟨.error (Action.aborted (reason?.getD (.text ""))), s, rfl, rfl, fun f hf => ?_, nofun⟩
      cases hf
      rfl
    | tick times =>
      obtain ⟨c, htick, hc⟩ := perform_around_tick times hs
      obtain ⟨answer, s', hrun, hread, hfault, hvalue⟩ := ih hrest (s := s.withClock c) hc
      refine ⟨answer, s', ?_, ?_, hfault, hvalue⟩
      · have haction : (Action.run (.tick times)).perform s = (.ok none, s.withClock c) := by
          unfold Action.run
          rw [Act.perform_bind_ok htick]
          rfl
        unfold Body.run
        rw [Act.perform_bind_ok haction]
        exact hrun
      · unfold readAll Body.readings
        rw [Act.perform_forM_cons, Act.perform_bind_ok htick]
        exact hread
    | assume condition message? =>
      cases hcond : condition.isTruthy with
      | true =>
        obtain ⟨answer, s', hrun, hread, hfault, hvalue⟩ := ih hrest hs
        refine ⟨answer, s', ?_, ?_, ?_, ?_⟩
        · unfold Body.run
          rw [Act.perform_bind_ok (perform_assume_pass hcond message? s)]
          exact hrun
        · rw [Body.readings, if_pos hcond]
          exact hread
        · rw [Body.fault?, if_pos hcond]
          exact hfault
        · rw [Body.fault?, if_pos hcond]
          exact hvalue
      | false =>
        have hne : ¬ condition.isTruthy = true := by rw [hcond]; exact Bool.false_ne_true
        refine ⟨.error (Action.aborted (message?.getD (.text "assumption failed"))), s,
          ?_, ?_, ?_, ?_⟩
        · unfold Body.run
          exact Act.perform_bind_error (perform_assume_fail hne message? s) _
        · rw [Body.readings, if_neg hne]
          rfl
        · rw [Body.fault?, if_neg hne]
          intro f hf
          cases hf
          rfl
        · rw [Body.fault?, if_neg hne]
          exact nofun

theorem perform_invoke_of_run {body : Body} {s s' : Session} {answer : Except Fault Datum}
    (hrun : (Body.run body).perform s = (answer, s'))
    (hfault : ∀ f, body.fault? = some f → answer = .error f)
    (hvalue : body.fault? = none → ∃ value, answer = .ok value) :
    (invoke (some body)).perform s = (Body.outcome (some body), s') := by
  have hattempt : (Body.run body).attempt.perform s = (.ok answer, s') := by
    rw [Act.perform_attempt, hrun]
  unfold invoke Body.outcome
  rw [Act.perform_bind_ok hattempt, show Body.raised? (some body) = body.fault? from rfl]
  cases hf : body.fault? with
  | none =>
    obtain ⟨value, rfl⟩ := hvalue hf
    rfl
  | some f =>
    obtain rfl := hfault f hf
    dsimp only
    cases f.isInterrupt with
    | true => rfl
    | false =>
      simp only [Bool.false_eq_true, if_false]
      change _ = (Except.ok (if f.isAbort then ExecutionResult.aborted f.cause
        else ExecutionResult.failed f.cause), s')
      cases f.isAbort <;> rfl

theorem perform_invoke_mute {body? : Option Body}
    (hmute : ∀ body, body? = some body → ∀ e, .fire e ∉ body) {s : Session}
    (hs : s.surroundings.clock.Reliable aware) :
    ∃ s', (invoke body?).perform s = (Body.outcome body?, s') ∧
      (readAll (Body.readingsOf body?)).perform s = (.ok (), s') := by
  cases body? with
  | none => exact ⟨s, rfl, rfl⟩
  | some body =>
    obtain ⟨answer, s', hrun, hread, hfault, hvalue⟩ := perform_body (hmute body rfl) hs
    exact ⟨s', perform_invoke_of_run hrun hfault hvalue, hread⟩

end Session

end TestRun
