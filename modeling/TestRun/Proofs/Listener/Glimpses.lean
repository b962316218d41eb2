import TestRun.Listener.Console
import TestRun.Proofs.Listener.Following
import TestRun.Proofs.Listener.Watching
import TestRun.Proofs.Time.Order
set_option autoImplicit false

/-!
# What listeners see of the clock and the log

A listener sees of its clock the readings that it takes, and of the log nothing. So with a clock
that gives the same readings for as long as it is read, and after any past, it does the same.
-/

namespace TestRun

open Time Files

namespace Time.Clock

/-- The first readings of the clocks are the same, failures included. -/
def Agrees (c c' : Clock) (n : Nat) : Prop := ∀ k < n, (c'.after k).read.1 = (c.after k).read.1

theorem Agrees.refl (c : Clock) (n : Nat) : c.Agrees c n := fun _ _ => rfl

theorem agrees_add {c c' : Clock} {m n : Nat} :
    c.Agrees c' (m + n) ↔ c.Agrees c' m ∧ (c.after m).Agrees (c'.after m) n := by
  constructor
  · intro h
    refine ⟨fun k hk => h k (by omega), fun k hk => ?_⟩
    rw [← after_add, ← after_add]
    exact h (m + k) (by omega)
  · intro h k hk
    by_cases hm : k < m
    · exact h.1 k hm
    · obtain ⟨j, rfl⟩ := Nat.exists_eq_add_of_le (Nat.le_of_not_lt hm)
      rw [after_add, after_add]
      exact h.2 j (by omega)

/-- A clock that failed once fails ever after. -/
theorem canRead_of_read {c : Clock} {n : Nat} {now : Instant} (h : (c.after n).read.1 = .ok now) :
    c.CanRead (n + 1) := by
  intro k hk
  rcases hread : (c.after k).read with ⟨e | i, later⟩
  · obtain ⟨-, hstuck⟩ := stuck_of_read hread
    obtain ⟨j, rfl⟩ := Nat.exists_eq_add_of_le (Nat.le_of_lt_succ hk)
    rw [after_add, hstuck.after, hread] at h
    cases h
  · exact ⟨i, rfl⟩

theorem exists_reliable {c : Clock} {aware : Bool} (hkind : c.OneKind aware) {n : Nat}
    (h : c.CanRead (n + 1)) :
    ∃ current later, (Clock.listed current later).Reliable aware ∧
      c.Agrees (.listed current later) (n + 1) := by
  induction n generalizing c with
  | zero =>
    obtain ⟨now, hnow⟩ := h 0 Nat.one_pos
    refine ⟨now, [], ⟨listed_neverFails now [], listed_oneKind ?_⟩, fun k hk => ?_⟩
    · intro i hi
      rw [List.mem_singleton.1 hi]
      exact hkind 0 now hnow
    · obtain rfl : k = 0 := by omega
      exact hnow.symm
  | succ n ih =>
    obtain ⟨now, hnow⟩ := h 0 (Nat.succ_pos _)
    have hread : c.read = (.ok now, c.read.2) := Prod.ext hnow rfl
    have hlater : c.read.2.CanRead (n + 1) := fun k hk => h (k + 1) (Nat.succ_lt_succ hk)
    obtain ⟨hnowKind, hlaterKind⟩ := hkind.read hread
    obtain ⟨current, later, hreliable, hagrees⟩ := ih hlaterKind hlater
    refine ⟨now, current :: later, ⟨listed_neverFails now _, ?_⟩, fun k hk => ?_⟩
    · rintro (_ | k) i hi
      · cases hi
        exact hnowKind
      · exact hreliable.oneKind k i hi
    · cases k with
      | zero => exact hnow.symm
      | succ k => exact hagrees k (Nat.lt_of_succ_lt_succ hk)

end Time.Clock

namespace Act

variable {σ τ α β : Type}

/-- Where a state has its clock and its log. -/
structure View (σ : Type) where
  clock : σ → Clock
  /-- The state with another clock, and with what was logged before it. -/
  since : Array Log.Record → Clock → σ → σ
  clock_since : ∀ past c s, clock (since past c s) = c
  since_self : ∀ s, since #[] (clock s) s = s

/-- The act has nothing to do with the clock and takes the log as it comes. -/
def Blind (V : View σ) (act : Act σ α) : Prop :=
  ∀ past c s, act.perform (V.since past c s) =
    ((act.perform s).1, V.since past c (act.perform s).2)

/-- The act does the same with each clock that agrees on the readings it takes. -/
def Glimpses (V : View σ) (act : Act σ α) : Prop :=
  ∀ s, ∃ n, V.clock (act.perform s).2 = (V.clock s).after n ∧
    ∀ past c, (V.clock s).Agrees c n → act.perform (V.since past c s) =
      ((act.perform s).1, V.since past (c.after n) (act.perform s).2)

variable {V : View σ} {W : View τ} {act : Act σ α}

theorem Blind.bind (h : Blind V act) {next : α → Act σ β} (hnext : ∀ a, Blind V (next a)) :
    Blind V (act >>= next) := by
  intro past c s
  rw [perform_bind, perform_bind, h past c s]
  rcases act.perform s with ⟨e | a, s'⟩
  · rfl
  · exact hnext a past c s'

theorem Blind.glimpses (h : Blind V act) : Glimpses V act := by
  intro s
  have hself := h #[] (V.clock s) s
  rw [V.since_self] at hself
  refine ⟨0, ?_, fun past c _ => h past c s⟩
  rw [congrArg Prod.snd hself, V.clock_since]
  rfl

theorem blind_pure (a : α) : Blind V (pure a : Act σ α) := fun _ _ _ => rfl

theorem glimpses_pure (a : α) : Glimpses V (pure a : Act σ α) := (blind_pure a).glimpses

theorem glimpses_throw (e : Fault) : Glimpses V (throw e : Act σ α) :=
  Blind.glimpses fun _ _ _ => rfl

theorem Glimpses.bind (h : Glimpses V act) {next : α → Act σ β}
    (hnext : ∀ a, Glimpses V (next a)) : Glimpses V (act >>= next) := by
  intro s
  obtain ⟨m, hclock, hact⟩ := h s
  rw [perform_bind]
  rcases hperform : act.perform s with ⟨e | a, s₁⟩ <;> rw [hperform] at hclock hact
  · refine ⟨m, hclock, fun past c hc => ?_⟩
    rw [perform_bind, hact past c hc]
  · obtain ⟨n, hclock', hrest⟩ := hnext a s₁
    rw [hclock] at hclock' hrest
    refine ⟨m + n, hclock'.trans (Clock.after_add _ m n).symm, fun past c hc => ?_⟩
    obtain ⟨hfirst, hlater⟩ := Clock.agrees_add.1 hc
    rw [perform_bind, hact past c hfirst, Clock.after_add]
    exact hrest past (c.after m) hlater

/-- Where the clock can still be read at the end, the act is one with a reliable clock. -/
theorem Glimpses.as_reliable (h : Glimpses V act) {s : σ} {aware : Bool}
    (hkind : (V.clock s).OneKind aware) {now : Instant}
    (hread : (V.clock (act.perform s).2).read.1 = .ok now) :
    ∃ c n, c.Reliable aware ∧ act.perform (V.since #[] c s) =
      ((act.perform s).1, V.since #[] (c.after n) (act.perform s).2) := by
  obtain ⟨n, hclock, hact⟩ := h s
  rw [hclock] at hread
  obtain ⟨current, later, hreliable, hagrees⟩ :=
    Clock.exists_reliable hkind (Clock.canRead_of_read hread)
  exact ⟨_, n, hreliable, hact #[] _ fun k hk => hagrees k (Nat.lt_succ_of_lt hk)⟩

theorem glimpses_get_bind {next : σ → Act σ β}
    (hread : ∀ past c s, next (V.since past c s) = next s) (hnext : ∀ s, Glimpses V (next s)) :
    Glimpses V ((get : Act σ σ) >>= next) := by
  intro s
  obtain ⟨n, hclock, hact⟩ := hnext s s
  refine ⟨n, hclock, fun past c hc => ?_⟩
  rw [perform_get_bind, perform_get_bind, hread]
  exact hact past c hc

theorem glimpses_forM {act : α → Act σ PUnit} (h : ∀ a, Glimpses V (act a)) (xs : List α) :
    Glimpses V (xs.forM act) := by
  induction xs with
  | nil => exact glimpses_pure _
  | cons a xs ih => exact (h a).bind fun _ => ih

theorem Glimpses.attempt (h : Glimpses V act) : Glimpses V act.attempt := by
  intro s
  obtain ⟨n, hclock, hact⟩ := h s
  refine ⟨n, hclock, fun past c hc => ?_⟩
  rw [perform_attempt, perform_attempt, hact past c hc]

theorem Glimpses.within {act : Act τ α} (h : Glimpses W act) {get : σ → τ} {set : τ → σ → σ}
    (hclock : ∀ s, W.clock (get s) = V.clock s)
    (hget : ∀ past c s, get (V.since past c s) = W.since past c (get s))
    (hclock' : ∀ t s, V.clock (set t s) = W.clock t)
    (hset : ∀ past c c' t s, set (W.since past c' t) (V.since past c s) =
      V.since past c' (set t s)) : Glimpses V (act.within get set) := by
  intro s
  obtain ⟨n, hlater, hact⟩ := h (get s)
  rw [hclock] at hlater hact
  refine ⟨n, (hclock' _ s).trans hlater, fun past c hc => ?_⟩
  rw [perform_within, perform_within, hget, hact past c hc, hset]

end Act

open Act

namespace Surroundings

def since (past : Array Log.Record) (c : Clock) (s : Surroundings) : Surroundings :=
  { s with clock := c, log := past ++ s.log }

def view : View Surroundings where
  clock s := s.clock
  since := since
  clock_since _ _ _ := rfl
  since_self s := by simp [since]

theorem blind_note (level : Log.Level) (message : String) : Blind view (note level message) := by
  intro past c s
  simp [note, view, since]

theorem blind_print (line : String) : Blind view (print line) := fun _ _ _ => rfl

theorem blind_complain (message : String) (f : Fault) : Blind view (complain message f) :=
  (blind_note _ _).bind fun _ _ _ _ => rfl

theorem glimpses_readClock : Glimpses view readClock := by
  intro s
  have hperform (s : Surroundings) :
      readClock.perform s = (s.clock.read.1.mapError .time, { s with clock := s.clock.read.2 }) := by
    unfold readClock
    simp only [perform_get_bind, perform_set_bind]
    cases s.clock.read.1 <;> rfl
  rw [hperform]
  refine ⟨1, rfl, fun past c hc => ?_⟩
  rw [hperform, show (view.since past c s).clock.read.1 = s.clock.read.1 from hc 0 Nat.one_pos]
  rfl

theorem glimpses_tick (n : Nat) : Glimpses view (tick n) := by
  induction n with
  | zero => exact glimpses_pure _
  | succ n ih => exact glimpses_readClock.bind fun _ => ih

theorem blind_set_disk {α : Type} {d : Disk} {act : Act Surroundings α} (h : Blind view act)
    (past : Array Log.Record) (c : Clock) (s : Surroundings) :
    (do set { s.since past c with disk := d }; act : Act Surroundings α).perform (s.since past c) =
      (((do set { s with disk := d }; act : Act Surroundings α).perform s).1,
        ((do set { s with disk := d }; act : Act Surroundings α).perform s).2.since past c) :=
  h past c { s with disk := d }

end Surroundings

open Surroundings

namespace Writer

theorem blind_write (indent : Option String) (directory : Path) (r : EngineReport) :
    Blind view (write indent directory r) := by
  intro past c s
  unfold write
  simp only [perform_get_bind]
  rw [show (view.since past c s).host = s.host from rfl,
    show (view.since past c s).disk = s.disk from rfl]
  cases (stored indent (directory.child (reportFileName r.id)) r s.host.localOffset s.disk).1 with
  | ok _ => exact blind_set_disk (blind_note _ _) past c s
  | error f => exact blind_set_disk (blind_complain _ f) past c s

theorem blind_openDirectory (directory : Text.CodeText) :
    Blind view (openDirectory directory) := by
  intro past c s
  unfold openDirectory
  cases Path.ofCode directory with
  | error e => rfl
  | ok path =>
    dsimp only
    cases directory.contains (.ofChar '\x00') with
    | true => rfl
    | false =>
      simp only [Bool.false_eq_true, if_false, perform_get_bind]
      rw [show (view.since past c s).disk = s.disk from rfl]
      rcases s.disk.makeDirectories path with ⟨e | _, d⟩
      · exact blind_set_disk ((blind_complain _ _).bind fun _ => blind_pure _) past c s
      · exact blind_set_disk (blind_pure _) past c s

end Writer

namespace Hearing

variable {σ α β : Type}

def view (σ : Type) : View (σ × Surroundings) where
  clock p := p.2.clock
  since past c p := (p.1, p.2.since past c)
  clock_since _ _ _ := rfl
  since_self p := congrArg (Prod.mk p.1) (Surroundings.view.since_self p.2)

theorem glimpses_outside {act : Act Surroundings α} (h : Glimpses Surroundings.view act) :
    Glimpses (view σ) (outside act) :=
  h.within (fun _ => rfl) (fun _ _ _ => rfl) (fun _ _ => rfl) (fun _ _ _ _ _ => rfl)

theorem perform_onWall_none {s : Surroundings} (h : s.wall? = none) (act : Hearing σ α) (x : σ) :
    act.onWall.perform (x, s) = act.perform (x, s) := by
  unfold onWall
  rw [perform_within]
  simp only [Surroundings.onWall, Surroundings.offWall, h]

theorem perform_onWall_some {s : Surroundings} {w : WallClock} (h : s.wall? = some w)
    (act : Hearing σ α) (x : σ) :
    let q := act.perform (x, { s with clock := w.toClock })
    act.onWall.perform (x, s) =
      (q.1, (q.2.1, { q.2.2 with clock := s.clock, wall? := some (w.moved q.2.2.clock) })) := by
  unfold onWall
  rw [perform_within]
  simp only [Surroundings.onWall, Surroundings.offWall, h]

/-- What is read on the clock of the machine is not read on the clock at hand, if there are two. -/
theorem glimpses_onWall {act : Hearing σ α} (h : Glimpses (view σ) act) :
    Glimpses (view σ) act.onWall := by
  rintro ⟨x, s⟩
  cases hwall : s.wall? with
  | none =>
    obtain ⟨n, hclock, hact⟩ := h (x, s)
    rw [perform_onWall_none hwall]
    refine ⟨n, hclock, fun past c hc => ?_⟩
    have hsince : (s.since past c).wall? = none := hwall
    exact (perform_onWall_none hsince act x).trans (hact past c hc)
  | some w =>
    obtain ⟨n, hclock, hact⟩ := h (x, { s with clock := w.toClock })
    rw [perform_onWall_some hwall]
    refine ⟨0, rfl, fun past c _ => ?_⟩
    have hsince : (s.since past c).wall? = some w := hwall
    have hact := hact past w.toClock (.refl _ n)
    rw [← show _ = w.toClock.after n from hclock] at hact
    refine (perform_onWall_some hsince act x).trans ?_
    dsimp only
    rw [show act.perform (x, { s.since past c with clock := w.toClock }) = _ from hact]
    rfl

theorem glimpses_state_bind {next : σ → Hearing σ β} (h : ∀ x, Glimpses (view σ) (next x)) :
    Glimpses (view σ) (state >>= next) := fun p => h p.1 p

theorem glimpses_setState (x : σ) : Glimpses (view σ) (setState x) :=
  Blind.glimpses fun _ _ _ => rfl

end Hearing

open Hearing

namespace Tree

/-- A reply depends on the readings that are taken for it. -/
def Glances (op : Tree → Clock → Reply) : Prop :=
  ∀ t c, ∃ n, (op t c).clock = c.after n ∧
    ∀ c', c.Agrees c' n → op t c' = { op t c with clock := c'.after n }

theorem glances_started (i : Identifier) : Glances fun t c => t.started i c := by
  intro t c
  cases hstart : (t.nodeOf i).start with
  | some now => refine ⟨0, ?_, fun c' _ => ?_⟩ <;> simp only [started, hstart] <;> rfl
  | none =>
    refine ⟨1, ?_, fun c' hc => ?_⟩
    · rw [show c.after 1 = c.read.2 from rfl]
      simp only [started, hstart]
      rcases c.read with ⟨_ | _, _⟩ <;> rfl
    · have hread : c'.read.1 = c.read.1 := hc 0 Nat.one_pos
      rw [show c'.after 1 = c'.read.2 from rfl]
      simp only [started, hstart]
      revert hread
      rcases c'.read with ⟨_, _⟩
      rcases c.read with ⟨_ | _, _⟩ <;> rintro ⟨⟩ <;> rfl

theorem glances_ended (i : Identifier) (e : Ending) : Glances fun t c => t.ended i e c := by
  intro t c
  cases hending : (t.nodeOf i).ending with
  | some ending => refine ⟨0, ?_, fun c' _ => ?_⟩ <;> simp only [ended, hending] <;> rfl
  | none =>
    refine ⟨1, ?_, fun c' hc => ?_⟩
    · rw [show c.after 1 = c.read.2 from rfl]
      simp only [ended, hending]
      rcases c.read with ⟨_ | _, _⟩ <;> rfl
    · have hread : c'.read.1 = c.read.1 := hc 0 Nat.one_pos
      rw [show c'.after 1 = c'.read.2 from rfl]
      simp only [ended, hending]
      revert hread
      rcases c'.read with ⟨_, _⟩
      rcases c.read with ⟨_ | _, _⟩ <;> rintro ⟨⟩ <;> rfl

theorem Glances.hear {op : Tree → Clock → Reply} (h : Glances op) :
    Glimpses (view Tree) (hear op) := by
  rintro ⟨t, s⟩
  obtain ⟨n, hclock, hop⟩ := h t s.clock
  rw [perform_hear]
  refine ⟨n, hclock, fun past c hc => ?_⟩
  refine (perform_hear op t (s.since past c)).trans ?_
  rw [show op t (s.since past c).clock = _ from hop c hc]
  rfl

theorem glimpses_hearStarted (i : Identifier) : Glimpses (view Tree) (hearStarted i) :=
  (glances_started i).hear

theorem glimpses_hearEnded (i : Identifier) (e : Ending) :
    Glimpses (view Tree) (hearEnded i e) := by
  refine glimpses_state_bind fun t => ?_
  dsimp only
  split
  · exact (glimpses_outside (blind_note _ _).glimpses).bind fun _ => (glances_ended i e).hear
  · exact (glances_ended i e).hear

theorem glimpses_act (c : Call) : Glimpses (view Tree) c.act := by
  cases c with
  | register i => exact Blind.glimpses fun _ _ _ => rfl
  | started i => exact (glimpses_hearStarted i).bind fun _ => glimpses_pure _
  | skipped i reason? => exact (glimpses_hearEnded i _).bind fun _ => glimpses_pure _
  | finished i result => exact (glimpses_hearEnded i _).bind fun _ => glimpses_pure _

end Tree

namespace Writer

theorem glimpses_complete (o : Settings) (id : String) (finishedAt? : Option Instant) :
    Glimpses (view Run) (complete o id finishedAt?) := by
  refine glimpses_state_bind fun run => ?_
  split
  · refine (glimpses_setState _).bind fun _ => ?_
    split
    · exact glimpses_throw _
    · split
      · exact glimpses_outside (blind_write _ _ _).glimpses
      · exact glimpses_pure _
  · exact glimpses_pure _

theorem glimpses_withTree {α : Type} {act : Hearing Tree α} (h : Glimpses (view Tree) act) :
    Glimpses (view Run) (Run.withTree act) :=
  h.within (fun _ => rfl) (fun _ _ _ => rfl) (fun _ _ => rfl) (fun _ _ _ _ _ => rfl)

theorem glimpses_completeRest (o : Settings) : Glimpses (view Run) (completeRest o) := by
  have hclock : Glimpses (view Run) (outside readClock) := glimpses_outside glimpses_readClock
  refine glimpses_state_bind fun run => ?_
  dsimp only
  split
  · refine hclock.bind fun now => ?_
    exact glimpses_forM (fun root => glimpses_complete o root.id (some now)) run.pending
  · exact glimpses_pure ()

theorem glimpses_whileRunning (event : String) {act : Hearing Run Unit}
    (h : Glimpses (view Run) act) : Glimpses (view Writer) (whileRunning event act) := by
  refine glimpses_state_bind fun w => ?_
  split
  · exact h.within (fun _ => rfl) (fun _ _ _ => rfl) (fun _ _ => rfl) (fun _ _ _ _ _ => rfl)
  · exact glimpses_outside (blind_note _ _).glimpses

theorem glimpses_setRun (run : Run) : Glimpses (view Writer) (setRun run) :=
  Blind.glimpses fun _ _ _ => rfl

theorem glimpses_hearPlanStarted (plan : Plan) :
    Glimpses (view Writer) (hearPlanStarted plan) := by
  refine glimpses_state_bind fun w => ?_
  have hopen (run : Run) : Glimpses (view Writer) (do
      setRun run
      let directory? ← outside (openDirectory w.settings.directory)
      setRun { run with directory? := directory? } : Hearing Writer Unit) :=
    (glimpses_setRun _).bind fun _ =>
      (glimpses_outside (blind_openDirectory _).glimpses).bind fun _ => glimpses_setRun _
  have hclock := glimpses_outside (σ := Writer) glimpses_readClock
  cases w.run? with
  | none =>
    simp only [Option.isSome_none, Bool.false_eq_true, if_false]
    refine hclock.bind fun now => glimpses_get_bind (fun _ _ _ => rfl) fun p => ?_
    split
    · exact glimpses_throw _
    · exact hopen _
  | some run =>
    simp only [Option.isSome_some, if_true]
    refine (glimpses_outside (blind_note _ _).glimpses).bind fun _ => hclock.bind fun now =>
      glimpses_get_bind (fun _ _ _ => rfl) fun p => (glimpses_setRun _).bind fun _ => ?_
    split
    · exact glimpses_throw _
    · exact hopen _

theorem glimpses_hear (e : Event) : Glimpses (view Writer) (hear e) := by
  refine glimpses_state_bind fun w => ?_
  have hended (i : Identifier) (ending : Ending) : Glimpses (view Run) (do
      let node ← Run.withTree (Tree.hearEnded i ending)
      complete w.settings i.id node.finish) :=
    (glimpses_withTree (Tree.glimpses_hearEnded i ending)).bind fun _ => glimpses_complete _ _ _
  cases e with
  | planStarted plan => exact glimpses_hearPlanStarted plan
  | planFinished plan? =>
    refine glimpses_state_bind fun w => glimpses_state_bind fun _ => ?_
    refine (glimpses_whileRunning _ (glimpses_completeRest _)).bind fun _ => ?_
    split
    · exact glimpses_setState _
    · exact glimpses_pure _
  | registered i =>
    exact glimpses_whileRunning _ (glimpses_withTree (Tree.glimpses_act (.register i)))
  | started i =>
    exact glimpses_whileRunning _ ((glimpses_withTree (Tree.glimpses_hearStarted i)).bind
      fun _ => glimpses_pure _)
  | skipped i reason? => exact glimpses_whileRunning _ (hended i _)
  | finished i result => exact glimpses_whileRunning _ (hended i _)

end Writer

namespace Console

theorem glimpses_withTree (part : String) {act : Hearing Tree Unit}
    (h : Glimpses (view Tree) act) : Glimpses (view Console) (withTree part act) := by
  refine glimpses_state_bind fun c => ?_
  split
  · exact glimpses_throw _
  · exact (glimpses_onWall h).within (fun _ => rfl) (fun _ _ _ => rfl) (fun _ _ => rfl)
      (fun _ _ _ _ _ => rfl)

theorem glimpses_printEngine (root : Identifier) :
    Glimpses (view Console) (printEngine root) := by
  have hprint (line : String) : Glimpses (view Console) (outside (print line)) :=
    glimpses_outside (blind_print line).glimpses
  refine (hprint _).bind fun _ => glimpses_state_bind fun c => ?_
  split
  · exact glimpses_throw _
  · refine glimpses_forM (fun test => ?_) _
    exact glimpses_state_bind fun c => (glimpses_setState _).bind fun _ => hprint _

theorem glimpses_hear (e : Event) : Glimpses (view Console) (hear e) := by
  rcases e with p | (_ | p) | i | i | ⟨i, reason?⟩ | ⟨i, result⟩
  · exact glimpses_setState _
  · exact glimpses_throw _
  · exact glimpses_forM glimpses_printEngine p.roots
  · exact glimpses_withTree _ (Tree.glimpses_act (.register i))
  · exact glimpses_withTree _ (Tree.glimpses_act (.started i))
  · exact glimpses_withTree _ (Tree.glimpses_act (.skipped i reason?))
  · exact glimpses_withTree _ (Tree.glimpses_act (.finished i result))

end Console

end TestRun
