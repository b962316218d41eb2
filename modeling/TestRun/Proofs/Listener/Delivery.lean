import TestRun.Listener.Session
import TestRun.Proofs.Listener.Following
set_option autoImplicit false

/-!
# Delivering events

A session delivers each event of a run to its listeners in turn. The writer is one of them; the
others may stand before or after it, and do nothing to it. So the writer follows the calls that
the session delivers, and the files change by the reports that it builds.
-/

namespace TestRun

open TestRun.Tree (Call endIn)
open Writer (Settings Builds)
open Files (Path)

namespace Console

def Keeps (c : Console) (p : Plan) : Prop :=
  ∃ tree, c.tree? = some tree ∧ tree.Coherent ∧ tree.plan = p

def part : Call → String
  | .register _ => "register"
  | .started _ => "started"
  | .skipped _ _ => "skipped"
  | .finished _ _ => "finished"

theorem hear_event (c : Call) : hear c.event = withTree (part c) c.act := by
  cases c <;> rfl

theorem perform_withTree {con : Console} {tree : Tree} (h : con.tree? = some tree) (part : String)
    (act : Hearing Tree Unit) (s : Surroundings) :
    (withTree part act).perform (con, s) =
      ((act.perform (tree, s.onWall)).1,
        ({ con with tree? := some (act.perform (tree, s.onWall)).2.1 },
          s.offWall (act.perform (tree, s.onWall)).2.2)) := by
  unfold withTree
  rw [Hearing.perform_state_bind]
  simp only [h]
  rfl

theorem plan_of_moves {c : Call} {now : Time.Instant} {t t' : Tree} (h : c.Moves now t t') :
    t'.plan = t.plan.add c.identifier := by
  cases c with
  | register i =>
    cases h
    rfl
  | started i => exact h.plan_eq
  | skipped i reason? => exact h.plan_eq
  | finished i result => exact h.plan_eq

theorem coherent_of_moves {c : Call} {now : Time.Instant} {t t' : Tree} (ht : t.Coherent)
    (h : c.Moves now t t') : t'.Coherent := by
  cases c with
  | register i =>
    cases h
    exact ht.register i
  | started i => exact h.coherent
  | skipped i reason? => exact h.coherent
  | finished i result => exact h.coherent

theorem Keeps.hear_call {con : Console} {p : Plan} (h : con.Keeps p) {c : Call}
    (hc : c.identifier.id ∈ p.ids) {s : Surroundings} (hs : s.onWall.clock.NeverFails) :
    ∃ con' s', (hear c.event).perform (con, s) = (.ok (), (con', s')) ∧ con'.Keeps p ∧
      s.Beside s' := by
  obtain ⟨tree, htree, hcoherent, hplan⟩ := h
  obtain ⟨now, t', left, hact, hmoves, hpassed⟩ := Tree.perform_act hcoherent (hs.canRead 1) c
  refine ⟨{ con with tree? := some t' }, s.offWall left, ?_,
    ⟨t', rfl, coherent_of_moves hcoherent hmoves, ?_⟩, hpassed.beside⟩
  · rw [hear_event, perform_withTree htree, hact]
  · rw [plan_of_moves hmoves, hplan, Plan.add_of_mem hc]

theorem hear_planStarted (con : Console) (p : Plan) (s : Surroundings) :
    (hear (.planStarted p)).perform (con, s) = (.ok (), (⟨.zero, some (.begin p none)⟩, s)) := rfl

theorem begin_keeps (totals : Totals) (p : Plan) :
    (Console.mk totals (some (.begin p none))).Keeps p :=
  ⟨_, rfl, Tree.begin_coherent p none, rfl⟩

def Printing (tree : Tree) (s₀ : Surroundings) (q : Console × Surroundings) : Prop :=
  q.1.tree? = some tree ∧ s₀.Beside q.2

theorem perform_printTest {tree t : Tree} {s₀ : Surroundings} (test : Identifier)
    (q : Console × Surroundings) (hq : Printing tree s₀ q) :
    ∃ q', (printTest t test).perform q = (.ok (), q') ∧ Printing tree s₀ q' :=
  ⟨_, rfl, hq.1, ⟨hq.2.clock, hq.2.disk_eq, hq.2.host_eq⟩, hq.2.wall⟩

theorem perform_printEngine {tree : Tree} {s₀ : Surroundings} (root : Identifier)
    (q : Console × Surroundings) (hq : Printing tree s₀ q) :
    ∃ q', (printEngine root).perform q = (.ok (), q') ∧ Printing tree s₀ q' := by
  let q₁ : Console × Surroundings :=
    (q.1, { q.2 with screen := q.2.screen ++ ("Engine: " ++ root.name) ++ "\n" })
  have hprint : (Hearing.outside (Surroundings.print ("Engine: " ++ root.name))).perform q =
      (.ok (), q₁) := rfl
  have hq₁ : Printing tree s₀ q₁ := ⟨hq.1, ⟨hq.2.clock, hq.2.disk_eq, hq.2.host_eq⟩, hq.2.wall⟩
  unfold printEngine
  rw [Act.perform_bind_ok hprint, Hearing.perform_state_bind, hq₁.1]
  exact Act.perform_forM_of_forall (fun test _ q hq => perform_printTest test q hq) hq₁

theorem Keeps.hear_planFinished {con : Console} {p : Plan} (h : con.Keeps p) (q : Plan)
    (s : Surroundings) :
    ∃ con' s', (hear (.planFinished (some q))).perform (con, s) = (.ok (), (con', s')) ∧
      con'.Keeps p ∧ s.Beside s' := by
  obtain ⟨tree, htree, hkeeps⟩ := h
  have hprinting : Printing tree s (con, s) := ⟨htree, .refl s⟩
  have hprint : ∀ root ∈ q.roots, ∀ q, Printing tree s q →
      ∃ q', (printEngine root).perform q = (.ok (), q') ∧ Printing tree s q' :=
    fun root _ => perform_printEngine root
  obtain ⟨⟨con', s'⟩, hact, hq'⟩ := Act.perform_forM_of_forall hprint hprinting
  exact ⟨con', s', hact, ⟨tree, hq'.1, hkeeps⟩, hq'.2⟩

end Console

namespace Session

theorem regrow_regrow (p : Plan) (t : Tree) : regrow p (regrow p t) = regrow p t := by
  by_cases h : t.plan.serial = p.serial
  · have heq : regrow p t = { t with plan := p } := by rw [regrow, if_pos h]
    rw [heq]
    exact if_pos rfl
  · rw [regrow, if_neg (by rw [regrow, if_neg h]; exact h)]

theorem regrow_of_plan {p : Plan} {t : Tree} (h : t.plan = p) : regrow p t = t := by
  subst h
  unfold regrow
  rw [if_pos rfl]

/-- All who hold the plan at hand see it as it is. -/
structure Holds (s : Session) (p : Plan) : Prop where
  plan_eq : s.plan = p
  writer : ∀ run, s.writer.run? = some run → regrow p run.tree = run.tree
  console : ∀ tree, s.console.tree? = some tree → regrow p tree = tree

theorem Holds.share_eq {s : Session} {p : Plan} (h : s.Holds p) : s.share p = s := by
  obtain ⟨surroundings, plan, made, ⟨o, phase⟩, ⟨totals, tree?⟩, heard, audience⟩ := s
  obtain ⟨hplan, hwriter, hconsole⟩ := h
  dsimp only at hplan hconsole
  subst hplan
  unfold share
  dsimp only
  rw [if_pos rfl]
  congr 1
  · cases phase with
    | running run =>
      have hrun := hwriter run rfl
      dsimp only
      rw [hrun]
    | notStarted => rfl
    | finished => rfl
  · congr 1
    cases tree? with
    | none => rfl
    | some tree => exact congrArg some (hconsole tree rfl)

theorem share_holds {s : Session} {p : Plan} (h : s.plan = p) : (s.share p).Holds p := by
  obtain ⟨surroundings, plan, made, ⟨o, phase⟩, ⟨totals, tree?⟩, heard, audience⟩ := s
  dsimp only at h
  subst h
  refine ⟨?_, ?_, ?_⟩
  · exact if_pos rfl
  · intro run hrun
    cases phase with
    | running before =>
      cases hrun
      exact regrow_regrow plan before.tree
    | notStarted => cases hrun
    | finished => cases hrun
  · intro tree htree
    obtain ⟨before, -, rfl⟩ := Option.map_eq_some_iff.1 htree
    exact regrow_regrow plan before

theorem perform_hearWriter {e : Event} {s : Session} {answer : Except Fault Unit} {w : Writer}
    {x : Surroundings} (h : (Writer.hear e).perform (s.writer, s.surroundings) = (answer, (w, x))) :
    (hearWriter e).perform s = (answer, match w.run? with
      | some run => { s with writer := w, surroundings := x }.share run.tree.plan
      | none => { s with writer := w, surroundings := x }) := by
  unfold hearWriter
  rw [Act.perform_within]
  generalize (Writer.hear e).perform (s.writer, s.surroundings) = heard at h ⊢
  subst h
  rfl

theorem perform_hearConsole {e : Event} {s : Session} {answer : Except Fault Unit} {c : Console}
    {x : Surroundings}
    (h : (Console.hear e).perform (s.console, s.surroundings) = (answer, (c, x))) :
    (hearConsole e).perform s = (answer, match c.tree? with
      | some tree => { s with console := c, surroundings := x }.share tree.plan
      | none => { s with console := c, surroundings := x }) := by
  unfold hearConsole
  rw [Act.perform_within]
  generalize (Console.hear e).perform (s.console, s.surroundings) = heard at h ⊢
  subst h
  rfl

/-- A run of the plan is under way for all listeners but the writer. -/
structure Tuned (s : Session) (p : Plan) : Prop where
  holds : s.Holds p
  console : .console ∈ s.audience → s.console.Keeps p

structure Underway (s : Session) (p : Plan) (aware : Bool) : Prop extends s.Tuned p where
  clock : s.surroundings.clock.Reliable aware

structure Spares (s s' : Session) : Prop where
  writer_eq : s'.writer = s.writer
  audience_eq : s'.audience = s.audience
  disk_eq : s'.surroundings.disk = s.surroundings.disk
  host_eq : s'.surroundings.host = s.surroundings.host

theorem Spares.trans {s s' s'' : Session} (h : s.Spares s') (h' : s'.Spares s'') :
    s.Spares s'' :=
  ⟨h'.writer_eq.trans h.writer_eq, h'.audience_eq.trans h.audience_eq,
    h'.disk_eq.trans h.disk_eq, h'.host_eq.trans h.host_eq⟩

variable {s : Session} {p : Plan} {aware : Bool} {seat : Seat}

theorem Tuned.putConsole (h : s.Tuned p) {con : Console} (hcon : con.Keeps p) (x : Surroundings) :
    (match con.tree? with
      | some tree => { s with console := con, surroundings := x }.share tree.plan
      | none => { s with console := con, surroundings := x }) =
        { s with console := con, surroundings := x } ∧
      { s with console := con, surroundings := x }.Tuned p := by
  obtain ⟨tree, htree, -, hplan⟩ := id hcon
  have hholds : { s with console := con, surroundings := x }.Holds p := by
    refine ⟨h.holds.plan_eq, h.holds.writer, fun other hother => ?_⟩
    obtain rfl : tree = other := Option.some.inj (htree.symm.trans hother)
    exact regrow_of_plan hplan
  refine ⟨?_, hholds, fun _ => hcon⟩
  rw [htree]
  dsimp only
  rw [hplan]
  exact hholds.share_eq

/-- The session after a listener other than the writer has heard an event. -/
structure Heard (s : Session) (p : Plan) (seat : Seat) (s' : Session) : Prop extends
    s'.Tuned p, s.Spares s' where
  surroundings : s'.surroundings = s.surroundings ∨
    seat = .console ∧ s.surroundings.Beside s'.surroundings

theorem Heard.beside {s' : Session} (h : s.Heard p seat s') :
    s.surroundings.Beside s'.surroundings := by
  rcases h.surroundings with heq | ⟨-, hbeside⟩
  · rw [heq]
    exact .refl _
  · exact hbeside

theorem Tuned.heard_console (h : s.Tuned p) {e : Event} {con : Console} {x : Surroundings}
    (hact : (Console.hear e).perform (s.console, s.surroundings) = (.ok (), (con, x)))
    (hcon : con.Keeps p) (hx : s.surroundings.Beside x) :
    ∃ s', (hearAt e .console).perform s = (.ok (), s') ∧ s.Heard p .console s' := by
  obtain ⟨hput, htuned⟩ := h.putConsole hcon x
  refine ⟨_, ?_, htuned, ⟨rfl, rfl, hx.disk_eq, hx.host_eq⟩, .inr ⟨rfl, hx⟩⟩
  rw [← hput]
  exact perform_hearConsole hact

theorem Tuned.heard_recorder (h : s.Tuned p) {e : Event} (he : e ≠ .planFinished none) :
    ∃ s', (hearAt e .recorder).perform s = (.ok (), s') ∧ s.Heard p .recorder s' := by
  refine ⟨{ s with heard := s.heard.push e }, ?_,
    ⟨⟨h.holds.plan_eq, h.holds.writer, h.holds.console⟩, h.console⟩, ⟨rfl, rfl, rfl, rfl⟩, .inl rfl⟩
  rcases e with q | (_ | q) | i | i | ⟨i, reason?⟩ | ⟨i, result⟩ <;>
    first | rfl | exact absurd rfl he

theorem Tuned.heard_silent (h : s.Tuned p) (e : Event) :
    ∃ s', (hearAt e .silent).perform s = (.ok (), s') ∧ s.Heard p .silent s' :=
  ⟨s, rfl, h, ⟨rfl, rfl, rfl, rfl⟩, .inl rfl⟩

theorem Tuned.hear_call (h : s.Tuned p) (hseat : seat ∈ s.audience) (hne : seat ≠ .writer)
    (hclock : .console ∈ s.audience → s.surroundings.onWall.clock.NeverFails) {c : Call}
    (hc : c.identifier.id ∈ p.ids) :
    ∃ s', (hearAt c.event seat).perform s = (.ok (), s') ∧ s.Heard p seat s' := by
  cases seat with
  | writer => exact absurd rfl hne
  | console =>
    obtain ⟨con, x, hact, hkeeps, hbeside⟩ := (h.console hseat).hear_call hc (hclock hseat)
    exact h.heard_console hact hkeeps hbeside
  | recorder => exact h.heard_recorder (by cases c <;> exact nofun)
  | silent => exact h.heard_silent c.event

theorem Tuned.hear_planFinished (h : s.Tuned p) (hseat : seat ∈ s.audience) (hne : seat ≠ .writer)
    (q : Plan) :
    ∃ s', (hearAt (.planFinished (some q)) seat).perform s = (.ok (), s') ∧ s.Heard p seat s' := by
  cases seat with
  | writer => exact absurd rfl hne
  | console =>
    obtain ⟨con, x, hact, hkeeps, hbeside⟩ := (h.console hseat).hear_planFinished q s.surroundings
    exact h.heard_console hact hkeeps hbeside
  | recorder => exact h.heard_recorder nofun
  | silent => exact h.heard_silent _

def builtAt (e : Event) (s : Session) : Seat → List EngineReport
  | .writer => Writer.built e s.writer s.surroundings
  | _ => []

def builtAmong (e : Event) : List Seat → Session → List EngineReport
  | [], _ => []
  | seat :: rest, s =>
    builtAt e s seat ++
      match (hearAt e seat).perform s with
      | (.ok _, s) => builtAmong e rest s
      | (.error _, _) => []

def built (e : Event) (s : Session) : List EngineReport := builtAmong e s.audience s

section Deliver

variable {e : Event} {before after : List Seat}

theorem builtAmong_cons {rest : List Seat} {s' : Session}
    (h : (hearAt e seat).perform s = (.ok (), s')) :
    builtAmong e (seat :: rest) s = builtAt e s seat ++ builtAmong e rest s' := by
  rw [builtAmong, h]

theorem builtAt_other (hne : seat ≠ .writer) : builtAt e s seat = [] := by
  cases seat with
  | writer => exact absurd rfl hne
  | console | recorder | silent => rfl

theorem hear_others {P : List Seat → Session → Prop}
    (step : ∀ seat rest s, seat ≠ .writer → P (seat :: rest) s →
      ∃ s', (hearAt e seat).perform s = (.ok (), s') ∧ P rest s')
    {seats : List Seat} (hseats : .writer ∉ seats) (hs : P seats s) :
    ∃ s', (seats.forM (hearAt e)).perform s = (.ok (), s') ∧ P [] s' ∧
      ∀ rest, builtAmong e (seats ++ rest) s = builtAmong e rest s' := by
  induction seats generalizing s with
  | nil => exact ⟨s, rfl, hs, fun _ => rfl⟩
  | cons seat seats ih =>
    have hne : seat ≠ .writer := fun heq => hseats (heq ▸ List.mem_cons_self)
    obtain ⟨s₁, hact, hs₁⟩ := step seat seats s hne hs
    obtain ⟨s₂, hrest, hs₂, hbuilt⟩ := ih (fun h => hseats (List.mem_cons_of_mem _ h)) hs₁
    refine ⟨s₂, ?_, hs₂, fun rest => ?_⟩
    · rw [Act.perform_forM_cons, Act.perform_bind_ok hact]
      exact hrest
    · rw [List.cons_append, builtAmong_cons hact, builtAt_other hne, hbuilt]
      rfl

/-- Where the writer has one place among the listeners, an event goes to those before it, to the
writer, and to those after it. -/
theorem deliver_parts {s₁ s₂ s₃ : Session} (haudience : s.audience = before ++ .writer :: after)
    (hfirst : (before.forM (hearAt e)).perform s = (.ok (), s₁))
    (hwriter : (hearWriter e).perform s₁ = (.ok (), s₂))
    (hlast : (after.forM (hearAt e)).perform s₂ = (.ok (), s₃))
    (hbuilt₁ : ∀ rest, builtAmong e (before ++ rest) s = builtAmong e rest s₁)
    (hbuilt₃ : ∀ rest, builtAmong e (after ++ rest) s₂ = builtAmong e rest s₃) :
    (deliver e).perform s = (.ok (), s₃) ∧
      built e s = Writer.built e s₁.writer s₁.surroundings := by
  have hat : (hearAt e .writer).perform s₁ = (.ok (), s₂) := hwriter
  have hnil := hbuilt₃ []
  rw [List.append_nil] at hnil
  constructor
  · unfold deliver
    rw [Act.perform_get_bind, haudience, Act.perform_forM_append, Act.perform_bind_ok hfirst,
      Act.perform_forM_cons, Act.perform_bind_ok hat]
    exact hlast
  · calc built e s
      _ = builtAmong e (.writer :: after) s₁ := by rw [built, haudience, hbuilt₁]
      _ = Writer.built e s₁.writer s₁.surroundings ++ builtAmong e after s₂ := builtAmong_cons hat
      _ = Writer.built e s₁.writer s₁.surroundings := by
          rw [hnil]
          exact List.append_nil _

end Deliver

/-- The writer is one of the listeners, and follows the calls that were delivered. -/
structure Follows (s : Session) (o : Settings) (directory? : Option Path) (p : Plan)
    (aware : Bool) (log : List Call) : Prop where
  underway : s.Underway p aware
  writer : s.writer.Follows o directory? p aware log
  one_writer : s.audience.count .writer = 1

theorem split_audience {audience : List Seat} (h : audience.count seat = 1) :
    ∃ before after, audience = before ++ seat :: after ∧ seat ∉ before ∧ seat ∉ after := by
  have hmem : seat ∈ audience := List.count_pos_iff.1 (by omega)
  obtain ⟨before, after, rfl⟩ := List.append_of_mem hmem
  rw [List.count_append, List.count_cons_self] at h
  refine ⟨before, after, rfl, ?_, ?_⟩ <;> rw [← List.count_eq_zero] <;> omega

variable {o : Settings} {directory? : Option Path} {log : List Call}

/-- From sessions with the property, no listener but the writer minds the event or does anything to
the writer, and the property stays. -/
def Harmless (e : Event) (P : Session → Prop) : Prop :=
  ∀ s seat, P s → seat ∈ s.audience → seat ≠ .writer →
    ∃ s', (hearAt e seat).perform s = (.ok (), s') ∧ P s' ∧ s.Spares s'

variable {e : Event} {P : Session → Prop}

theorem Harmless.hear (he : Harmless e P) (hs : P s) {seats : List Seat} (hseats : .writer ∉ seats)
    (hsub : ∀ seat ∈ seats, seat ∈ s.audience) :
    ∃ s', (seats.forM (hearAt e)).perform s = (.ok (), s') ∧ (P s' ∧ s.Spares s') ∧
      ∀ rest, builtAmong e (seats ++ rest) s = builtAmong e rest s' := by
  let Q (rest : List Seat) (s₁ : Session) : Prop :=
    (P s₁ ∧ s.Spares s₁) ∧ ∀ seat ∈ rest, seat ∈ s.audience
  have hstep : ∀ seat rest s₁, seat ≠ .writer → Q (seat :: rest) s₁ →
      ∃ s₂, (hearAt e seat).perform s₁ = (.ok (), s₂) ∧ Q rest s₂ := by
    rintro seat rest s₁ hne ⟨⟨hs₁, hspares⟩, hrest⟩
    have hseat := hrest seat List.mem_cons_self
    obtain ⟨s₂, hact, hs₂, hspares'⟩ := he s₁ seat hs₁ (hspares.audience_eq ▸ hseat) hne
    exact ⟨s₂, hact, ⟨hs₂, hspares.trans hspares'⟩,
      fun x hx => hrest x (List.mem_cons_of_mem _ hx)⟩
  obtain ⟨s', hact, ⟨hs', -⟩, hbuilt⟩ := hear_others hstep hseats ⟨⟨hs, rfl, rfl, rfl, rfl⟩, hsub⟩
  exact ⟨s', hact, hs', hbuilt⟩

/-- Listeners before the writer keep one property, and those after it may keep another one, which
the writer leaves. -/
theorem Harmless.deliver (he : Harmless e P) (hs : P s) (hone : s.audience.count .writer = 1) :
    ∃ s₁, P s₁ ∧ s.Spares s₁ ∧
      ∀ (Q : Session → Prop) (s₂ : Session), Harmless e Q →
        (hearWriter e).perform s₁ = (.ok (), s₂) → Q s₂ → s₂.audience = s₁.audience →
        ∃ s', (deliver e).perform s = (.ok (), s') ∧ Q s' ∧ s₂.Spares s' ∧
          built e s = Writer.built e s₁.writer s₁.surroundings := by
  obtain ⟨before, after, haudience, hbefore, hafter⟩ := split_audience hone
  have hsub : ∀ seat ∈ before, seat ∈ s.audience := by
    intro seat hseat
    rw [haudience]
    exact List.mem_append_left _ hseat
  obtain ⟨s₁, hfirst, ⟨hs₁, hspares₁⟩, hbuilt₁⟩ := he.hear hs hbefore hsub
  refine ⟨s₁, hs₁, hspares₁, fun Q s₂ he' hwriter hs₂ haudience₂ => ?_⟩
  have hsub₂ : ∀ seat ∈ after, seat ∈ s₂.audience := by
    intro seat hseat
    rw [haudience₂, hspares₁.audience_eq, haudience]
    exact List.mem_append_right _ (List.mem_cons_of_mem _ hseat)
  obtain ⟨s₃, hlast, ⟨hs₃, hspares₃⟩, hbuilt₃⟩ := he'.hear hs₂ hafter hsub₂
  obtain ⟨hdeliver, hbuilt⟩ := deliver_parts haudience hfirst hwriter hlast hbuilt₁ hbuilt₃
  exact ⟨s₃, hdeliver, hs₃, hspares₃, hbuilt⟩

/-- What the session is once the writer heard an event. -/
structure Passing (s₀ : Session) (o : Settings) (directory? : Option Path) (p : Plan)
    (aware : Bool) (log : List Call) (reports : List EngineReport) (s : Session) : Prop where
  underway : s.Underway p aware
  writer : s.writer.Follows o directory? p aware log
  audience_eq : s.audience = s₀.audience
  host_eq : s.surroundings.host = s₀.surroundings.host
  disk_eq : s.surroundings.disk = reports.foldl
    (Writer.store o.indent directory? s₀.surroundings.host.localOffset) s₀.surroundings.disk

theorem Tuned.putWriter (h : s.Tuned p) {w : Writer} {run : Writer.Run} (hrun : w.run? = some run)
    (hplan : run.tree.plan = p) (x : Surroundings) :
    (match w.run? with
      | some run => { s with writer := w, surroundings := x }.share run.tree.plan
      | none => { s with writer := w, surroundings := x }) =
        { s with writer := w, surroundings := x } ∧
      { s with writer := w, surroundings := x }.Tuned p := by
  have hholds : { s with writer := w, surroundings := x }.Holds p := by
    refine ⟨h.holds.plan_eq, fun other hother => ?_, h.holds.console⟩
    obtain rfl : run = other := Option.some.inj (hrun.symm.trans hother)
    exact regrow_of_plan hplan
  refine ⟨?_, hholds, h.console⟩
  rw [hrun]
  dsimp only
  rw [hplan]
  exact hholds.share_eq

theorem Tuned.putFinished (h : s.Tuned p) (o : Settings) :
    { s with writer := ⟨o, .finished⟩ }.Tuned p :=
  ⟨⟨h.holds.plan_eq, fun _ hrun => (nomatch hrun), h.holds.console⟩, h.console⟩

theorem hearWriter_call (h : s.Underway p aware) (hw : s.writer.Follows o directory? p aware log)
    {c : Call} (hc : c.identifier.id ∈ p.ids) :
    ∃ s', (hearWriter c.event).perform s = (.ok (), s') ∧
      Passing s o directory? p aware (log ++ [c])
        (Writer.built c.event s.writer s.surroundings) s' ∧
      Builds p log c (Writer.built c.event s.writer s.surroundings) := by
  obtain ⟨w, x, hact, hw', hclock, hhost, hbuilds⟩ := hw.hear_call hc (h.clock.lasts 1)
  obtain ⟨run', rfl, hrun', -⟩ := id hw'.exists_run
  obtain ⟨hput, htuned⟩ := h.toTuned.putWriter (w := ⟨o, .running run'⟩) rfl hrun'.plan_eq x
  refine ⟨_, ?_, ⟨⟨htuned, hclock.reliable h.clock⟩, hw', rfl, hhost, ?_⟩, hbuilds⟩
  · rw [← hput]
    exact perform_hearWriter hact
  · obtain ⟨run, hrun, hfollows, hdir⟩ := hw.exists_run
    rw [hrun, Writer.perform_hear_call] at hact
    obtain ⟨hmoves, -⟩ := Writer.moves_callAct o hfollows.reflects.coherent c s.surroundings
    have hdisk := hmoves.disk_eq
    rw [show ((Writer.callAct o c).perform (run, s.surroundings)).2.2 = x from
      congrArg (fun q => q.2.2) hact, hdir, ← hrun] at hdisk
    exact hdisk

theorem Follows.deliver_call (h : s.Follows o directory? p aware log) {c : Call}
    (hc : c.identifier.id ∈ p.ids) :
    ∃ s', (deliver c.event).perform s = (.ok (), s') ∧
      s'.Follows o directory? p aware (log ++ [c]) ∧ Builds p log c (built c.event s) ∧
      s'.surroundings.host = s.surroundings.host ∧
      s'.surroundings.disk = (built c.event s).foldl
        (Writer.store o.indent directory? s.surroundings.host.localOffset)
        s.surroundings.disk := by
  have hharmless : Harmless c.event (·.Underway p aware) := by
    intro s seat hunder hseat hne
    have hclock := Surroundings.neverFails_onWall hunder.clock.neverFails
    obtain ⟨s', hact, hheard⟩ := hunder.toTuned.hear_call hseat hne (fun _ => hclock) hc
    exact ⟨s', hact, ⟨hheard.toTuned, hheard.beside.clock.reliable hunder.clock⟩, hheard.toSpares⟩
  obtain ⟨s₁, hunder, hspares, hrest⟩ := hharmless.deliver h.underway h.one_writer
  have hw : s₁.writer.Follows o directory? p aware log := by
    rw [hspares.writer_eq]
    exact h.writer
  obtain ⟨s₂, hact, hpassing, hbuilds⟩ := hearWriter_call hunder hw hc
  obtain ⟨s', hdeliver, hunder', hspares', hbuilt⟩ :=
    hrest _ s₂ hharmless hact hpassing.underway hpassing.audience_eq
  refine ⟨s', hdeliver, ⟨hunder', ?_, ?_⟩, hbuilt ▸ hbuilds, ?_, ?_⟩
  · rw [hspares'.writer_eq]
    exact hpassing.writer
  · rw [hspares'.audience_eq, hpassing.audience_eq, hspares.audience_eq]
    exact h.one_writer
  · rw [hspares'.host_eq, hpassing.host_eq, hspares.host_eq]
  · rw [hspares'.disk_eq, hpassing.disk_eq, hspares.disk_eq, hspares.host_eq, hbuilt]

theorem Follows.deliver_planFinished (h : s.Follows o directory? p aware log)
    (hended : ∀ root ∈ p.roots, endIn log root.id ≠ none) (q : Plan) :
    ∃ s', (deliver (.planFinished (some q))).perform s = (.ok (), s') ∧
      built (.planFinished (some q)) s = [] ∧ s'.surroundings.disk = s.surroundings.disk := by
  have hharmless : Harmless (.planFinished (some q)) (·.Tuned p) := by
    intro s seat htuned hseat hne
    obtain ⟨s', hact, hheard⟩ := htuned.hear_planFinished hseat hne q
    exact ⟨s', hact, hheard.toTuned, hheard.toSpares⟩
  obtain ⟨s₁, htuned, hspares, hrest⟩ := hharmless.deliver h.underway.toTuned h.one_writer
  have hw : s₁.writer.Follows o directory? p aware log := by
    rw [hspares.writer_eq]
    exact h.writer
  obtain ⟨hact, hnil⟩ := hw.hear_planFinished hended (some q) s₁.surroundings
  obtain ⟨s', hdeliver, -, hspares', hbuilt⟩ :=
    hrest _ _ hharmless (perform_hearWriter hact) (htuned.putFinished o) rfl
  refine ⟨s', hdeliver, hbuilt.trans hnil, ?_⟩
  rw [hspares'.disk_eq]
  exact hspares.disk_eq

theorem settings_share (s : Session) (p : Plan) :
    (s.share p).writer.settings = s.writer.settings := by
  obtain ⟨surroundings, plan, made, ⟨o, phase⟩, console, heard, audience⟩ := s
  cases phase <;> rfl

theorem keeps_share (h : s.console.Keeps p) : (s.share p).console.Keeps p := by
  obtain ⟨tree, htree, hcoherent, hplan⟩ := h
  refine ⟨tree, ?_, hcoherent, hplan⟩
  change s.console.tree?.map (regrow p) = some tree
  rw [htree, Option.map_some, regrow_of_plan hplan]

theorem running_share {run : Writer.Run} (hw : s.writer = ⟨o, .running run⟩)
    (hplan : run.tree.plan = p) : (s.share p).writer = ⟨o, .running run⟩ := by
  unfold share
  rw [hw]
  dsimp only
  rw [regrow_of_plan hplan]

/-- What the session is while listeners hear that a plan starts. The consoles that are still to
hear of it are among the rest. -/
structure Starting (s₀ : Session) (p : Plan) (x : Surroundings) (heard rest : List Seat)
    (s : Session) : Prop where
  plan_eq : s.plan = p
  surroundings_eq : s.surroundings = x
  audience_eq : s.audience = s₀.audience
  settings_eq : s.writer.settings = s₀.writer.settings
  console : .console ∈ heard → .console ∈ rest ∨ s.console.Keeps p

theorem Starting.hear {s₀ : Session} {x : Surroundings} {heard rest : List Seat}
    (h : Starting s₀ p x heard (seat :: rest) s) (hne : seat ≠ .writer) :
    ∃ s', (hearAt (.planStarted p) seat).perform s = (.ok (), s') ∧
      Starting s₀ p x heard rest s' ∧ (s.Holds p → s'.Holds p) ∧
      ∀ o run, run.tree.plan = p → s.writer = ⟨o, .running run⟩ → s'.writer = ⟨o, .running run⟩ := by
  have hrest : seat ≠ .console → .console ∈ heard → .console ∈ rest ∨ s.console.Keeps p := by
    intro hseat hheard
    rcases h.console hheard with hmem | hkeeps
    · rcases List.mem_cons.1 hmem with heq | hmem
      · exact absurd heq.symm hseat
      · exact .inl hmem
    · exact .inr hkeeps
  cases seat with
  | writer => exact absurd rfl hne
  | console =>
    let s₁ : Session := { s with console := ⟨.zero, some (.begin p none)⟩ }
    have hact : (hearConsole (.planStarted p)).perform s = (.ok (), s₁.share p) :=
      perform_hearConsole (Console.hear_planStarted s.console p s.surroundings)
    have hholds : (s₁.share p).Holds p := share_holds h.plan_eq
    refine ⟨s₁.share p, hact, ⟨hholds.plan_eq, h.surroundings_eq, h.audience_eq, ?_, fun _ => ?_⟩,
      fun _ => hholds, fun o run hplan hw => running_share (s := s₁) hw hplan⟩
    · rw [settings_share]
      exact h.settings_eq
    · exact .inr (keeps_share (s := s₁) (Console.begin_keeps .zero p))
  | recorder =>
    exact ⟨_, rfl, ⟨h.plan_eq, h.surroundings_eq, h.audience_eq, h.settings_eq, hrest (by decide)⟩,
      fun hs => ⟨hs.plan_eq, hs.writer, hs.console⟩, fun _ _ _ hw => hw⟩
  | silent =>
    exact ⟨s, rfl, ⟨h.plan_eq, h.surroundings_eq, h.audience_eq, h.settings_eq, hrest (by decide)⟩,
      fun hs => hs, fun _ _ _ hw => hw⟩

theorem Starting.hear_writer {s₀ : Session} {x : Surroundings} {before after : List Seat}
    (h : Starting s₀ p x before [] s) {run : Writer.Run} {x' : Surroundings}
    (hact : (Writer.hear (.planStarted p)).perform (⟨s₀.writer.settings, s.writer.phase⟩, x) =
      (.ok (), (⟨s₀.writer.settings, .running run⟩, x')))
    (hplan : run.tree.plan = p) (haudience : s₀.audience = before ++ .writer :: after) :
    ∃ s', (hearWriter (.planStarted p)).perform s = (.ok (), s') ∧
      Starting s₀ p x' s₀.audience after s' ∧ s'.Holds p ∧
      s'.writer = ⟨s₀.writer.settings, .running run⟩ := by
  rw [← h.settings_eq, ← h.surroundings_eq] at hact
  let s₁ : Session := { s with writer := ⟨s.writer.settings, .running run⟩, surroundings := x' }
  have hhear : (hearWriter (.planStarted p)).perform s = (.ok (), s₁.share run.tree.plan) :=
    perform_hearWriter hact
  rw [hplan] at hhear
  have hholds : (s₁.share p).Holds p := share_holds h.plan_eq
  have hwriter : (s₁.share p).writer = ⟨s₀.writer.settings, .running run⟩ := by
    rw [← h.settings_eq]
    exact running_share rfl hplan
  have hconsole : .console ∈ s₀.audience → .console ∈ after ∨ (s₁.share p).console.Keeps p := by
    intro hmem
    rw [haudience, List.mem_append, List.mem_cons] at hmem
    rcases hmem with hmem | hmem | hmem
    · exact .inr (keeps_share (s := s₁) ((h.console hmem).resolve_left List.not_mem_nil))
    · cases hmem
    · exact .inl hmem
  exact ⟨s₁.share p, hhear, ⟨hholds.plan_eq, rfl, h.audience_eq, congrArg (·.settings) hwriter,
    hconsole⟩, hholds, hwriter⟩

/-- When the start of the plan at hand is delivered, the session is in tune with it, whatever
its listeners did before, and the writer does as it would if it were alone. -/
theorem deliver_planStarted_tuned (hplan : s.plan = p) (hone : s.audience.count .writer = 1)
    {Q : Writer.Run → Surroundings → Prop}
    (hwriter : ∀ phase, ∃ run x,
      (Writer.hear (.planStarted p)).perform (⟨s.writer.settings, phase⟩, s.surroundings) =
        (.ok (), (⟨s.writer.settings, .running run⟩, x)) ∧ run.tree.plan = p ∧ Q run x) :
    ∃ s' run, (deliver (.planStarted p)).perform s = (.ok (), s') ∧ s'.Tuned p ∧
      s'.audience = s.audience ∧ s'.writer = ⟨s.writer.settings, .running run⟩ ∧
      Q run s'.surroundings ∧ built (.planStarted p) s = [] := by
  obtain ⟨before, after, haudience, hbefore, hafter⟩ := split_audience hone
  have hstart : Starting s p s.surroundings before before s :=
    ⟨hplan, rfl, rfl, rfl, fun hmem => .inl hmem⟩
  obtain ⟨s₁, hfirst, h₁, hbuilt₁⟩ := hear_others (P := Starting s p s.surroundings before)
    (fun seat rest s₁ hne h₁ => (h₁.hear hne).imp fun _ h => ⟨h.1, h.2.1⟩) hbefore hstart
  obtain ⟨run, x, hact, hrun, hx⟩ := hwriter s₁.writer.phase
  obtain ⟨s₂, hmiddle, hstarting, hholds, hw⟩ := h₁.hear_writer hact hrun haudience
  let P (rest : List Seat) (s₁ : Session) : Prop :=
    Starting s p x s.audience rest s₁ ∧ s₁.Holds p ∧
      s₁.writer = ⟨s.writer.settings, .running run⟩
  have hstep : ∀ seat rest s₁, seat ≠ .writer → P (seat :: rest) s₁ →
      ∃ s₂, (hearAt (.planStarted p) seat).perform s₁ = (.ok (), s₂) ∧ P rest s₂ := by
    rintro seat rest s₁ hne ⟨hstarting, hholds, hw⟩
    obtain ⟨s₂, hact, hstarting', hholds', hw'⟩ := hstarting.hear hne
    exact ⟨s₂, hact, hstarting', hholds' hholds, hw' _ run hrun hw⟩
  obtain ⟨s', hlast, ⟨hstarting', hholds', hw'⟩, hbuilt₃⟩ :=
    hear_others (P := P) hstep hafter ⟨hstarting, hholds, hw⟩
  obtain ⟨hdeliver, hbuilt⟩ := deliver_parts haudience hfirst hmiddle hlast hbuilt₁ hbuilt₃
  refine ⟨s', run, hdeliver, ⟨hholds', fun hmem => ?_⟩, hstarting'.audience_eq, hw', ?_,
    hbuilt.trans (Writer.built_planStarted p _ _)⟩
  · rw [hstarting'.audience_eq] at hmem
    exact (hstarting'.console hmem).resolve_left List.not_mem_nil
  · rw [hstarting'.surroundings_eq]
    exact hx

theorem deliver_planStarted (hplan : s.plan = p)
    (ho : s.writer.settings.Fits s.surroundings.host)
    (hclock : s.surroundings.clock.Reliable aware) (hone : s.audience.count .writer = 1) :
    ∃ s' directory?, (deliver (.planStarted p)).perform s = (.ok (), s') ∧
      s'.Follows s.writer.settings directory? p aware [] ∧ built (.planStarted p) s = [] ∧
      s'.surroundings.host = s.surroundings.host := by
  obtain ⟨s', run, hdeliver, htuned, haudience, hw, ⟨hrun, hclock', hhost⟩, hbuilt⟩ :=
    deliver_planStarted_tuned hplan hone (Q := fun run x =>
      run.Follows p aware [] ∧ x.clock.Reliable aware ∧ x.host = s.surroundings.host) (by
      intro phase
      obtain ⟨w, x, hact, ⟨directory?, hfollows⟩, hx, hhost⟩ :=
        Writer.hear_planStarted ho hclock phase p
      obtain ⟨run, rfl, hrun, -⟩ := hfollows.exists_run
      exact ⟨run, x, hact, hrun.plan_eq, hrun, hx, hhost⟩)
  refine ⟨s', run.directory?, hdeliver, ⟨⟨htuned, hclock'⟩, ⟨run, hw, hrun, rfl⟩, ?_⟩, hbuilt, hhost⟩
  rw [haudience]
  exact hone

end Session

end TestRun
