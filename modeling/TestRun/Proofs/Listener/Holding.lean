import TestRun.Proofs.Listener.Delivery
import TestRun.Proofs.Listener.Watching
set_option autoImplicit false

namespace TestRun

open TestRun.Tree (Call)

namespace Act

variable {σ α β : Type} {P : σ → Prop}

/-- An act leads from a state with the property to another one, also if it ends in a fault. -/
def Keeps (P : σ → Prop) (act : Act σ α) : Prop := ∀ s, P s → P (act.perform s).2

theorem keeps_pure (a : α) : Keeps P (pure a : Act σ α) := fun _ hs => hs

theorem Keeps.bind {act : Act σ α} (h : Keeps P act) {next : α → Act σ β}
    (hnext : ∀ a, Keeps P (next a)) : Keeps P (act >>= next) := by
  intro s hs
  have hfirst := h s hs
  rcases hact : act.perform s with ⟨f | a, s'⟩
  · rw [perform_bind_error hact]
    rwa [hact] at hfirst
  · rw [perform_bind_ok hact]
    rw [hact] at hfirst
    exact hnext a s' hfirst

theorem Keeps.of_get {next : σ → Act σ α} (h : ∀ s, P s → P ((next s).perform s).2) :
    Keeps P ((get : Act σ σ) >>= next) := h

theorem state_bind_pure (act : Act σ α) (b : β) (s : σ) :
    ((act >>= fun _ => pure b).perform s).2 = (act.perform s).2 := by
  rw [perform_bind]
  rcases act.perform s with ⟨_ | _, _⟩ <;> rfl

theorem keeps_forM {act : α → Act σ PUnit} {xs : List α} (h : ∀ a ∈ xs, Keeps P (act a)) :
    Keeps P (xs.forM act) := by
  induction xs with
  | nil => exact keeps_pure _
  | cons a xs ih =>
    exact (h a List.mem_cons_self).bind fun _ => ih fun b hb => h b (List.mem_cons_of_mem a hb)

section Carries

variable {Q Q' R E E' : σ → Prop}

/-- From a state with the first property, an act that succeeds leads to one with the second, and an
act that fails to one with the third. -/
def Carries (P : σ → Prop) (act : Act σ α) (Q E : σ → Prop) : Prop :=
  ∀ s, P s → match act.perform s with
    | (.ok _, s') => Q s'
    | (.error _, s') => E s'

theorem Keeps.carries {act : Act σ α} (h : Keeps P act) : Carries P act P P := by
  intro s hs
  have hs' := h s hs
  rcases hact : act.perform s with ⟨_ | _, s'⟩ <;> rw [hact] at hs' <;> exact hs'

theorem Carries.mono {act : Act σ α} (h : Carries P act Q E) (hQ : ∀ s, Q s → Q' s)
    (hE : ∀ s, E s → E' s) : Carries P act Q' E' := by
  intro s hs
  have hs' := h s hs
  rcases hact : act.perform s with ⟨_ | _, s'⟩ <;> rw [hact] at hs'
  · exact hE s' hs'
  · exact hQ s' hs'

theorem Carries.weaken {act : Act σ α} (h : Carries P act Q E) (hE : ∀ s, E s → E' s) :
    Carries P act Q E' := h.mono (fun _ hs => hs) hE

theorem Carries.after {act : Act σ α} (h : Carries P act Q Q) {s : σ} (hs : P s) :
    Q (act.perform s).2 := by
  have hs' := h s hs
  rcases hact : act.perform s with ⟨_ | _, s'⟩ <;> rw [hact] at hs' <;> exact hs'

theorem Carries.of_ok {act : Act σ α} (h : Carries P act Q E) {s s' : σ} (hs : P s) {a : α}
    (hact : act.perform s = (.ok a, s')) : Q s' := by
  have hs' := h s hs
  rw [hact] at hs'
  exact hs'

theorem carries_pure (a : α) : Carries P (pure a : Act σ α) P E := fun _ hs => hs

theorem Carries.bind {act : Act σ α} (h : Carries P act Q E) {next : α → Act σ β}
    (hnext : ∀ a, Carries Q (next a) R E) : Carries P (act >>= next) R E := by
  intro s hs
  have hfirst := h s hs
  rcases hact : act.perform s with ⟨f | a, s'⟩ <;> rw [hact] at hfirst
  · rw [perform_bind_error hact]
    exact hfirst
  · rw [perform_bind_ok hact]
    exact hnext a s' hfirst

theorem carries_append {act : α → Act σ PUnit} {xs ys : List α}
    (hxs : Carries P (xs.forM act) Q E) (hys : Carries Q (ys.forM act) R E) :
    Carries P ((xs ++ ys).forM act) R E := by
  intro s hs
  rw [perform_forM_append]
  exact hxs.bind (fun _ => hys) s hs

end Carries

end Act

namespace Tree

variable {p : Plan} {t : Tree}

theorem plan_touch (t : Tree) (i : Identifier) :
    (t.touch i).plan = t.plan ∨ (t.touch i).plan = t.plan.add i := by
  unfold touch
  split
  · exact .inl rfl
  · exact .inr rfl

theorem plan_started (t : Tree) (i : Identifier) (c : Time.Clock) :
    (t.started i c).tree.plan = (t.touch i).plan := by
  unfold started
  dsimp only
  split
  · rfl
  · split <;> rfl

theorem plan_ended (t : Tree) (i : Identifier) (e : Ending) (c : Time.Clock) :
    (t.ended i e c).tree.plan = (t.touch i).plan := by
  unfold ended
  dsimp only
  split
  · rfl
  · split <;> rfl

theorem tree_hear (op : Tree → Time.Clock → Reply) (t : Tree) (s : Surroundings) :
    ((hear op).perform (t, s)).2.1 = (op t s.clock).tree := by
  rw [perform_hear]

theorem tree_hearEnded (i : Identifier) (e : Ending) (t : Tree) (s : Surroundings) :
    ((hearEnded i e).perform (t, s)).2.1 = (t.ended i e s.clock).tree := by
  unfold hearEnded
  rw [Hearing.perform_state_bind]
  split
  · rw [Act.perform_bind_ok (Hearing.perform_outside_eq (Surroundings.perform_debug _ _)),
      tree_hear]
  · rw [tree_hear]

def treeAfter (c : Call) (t : Tree) (clock : Time.Clock) : Tree :=
  match c with
  | .register i => t.register i
  | .started i => (t.started i clock).tree
  | .skipped i reason? => (t.ended i (.skipped (reason?.getD "")) clock).tree
  | .finished i result => (t.ended i (.finished result) clock).tree

theorem tree_act (c : Call) (t : Tree) (s : Surroundings) :
    (c.act.perform (t, s)).2.1 = treeAfter c t s.clock := by
  cases c with
  | register i => rfl
  | started i => exact (congrArg Prod.fst (Act.state_bind_pure _ () _)).trans (tree_hear _ t s)
  | skipped i reason? =>
    exact (congrArg Prod.fst (Act.state_bind_pure _ () _)).trans (tree_hearEnded i _ t s)
  | finished i result =>
    exact (congrArg Prod.fst (Act.state_bind_pure _ () _)).trans (tree_hearEnded i _ t s)

theorem plan_treeAfter (c : Call) (t : Tree) (clock : Time.Clock) :
    (treeAfter c t clock).plan = t.plan ∨
      (treeAfter c t clock).plan = t.plan.add c.identifier := by
  cases c with
  | register i => exact .inr rfl
  | started i =>
    rw [show treeAfter (.started i) t clock = (t.started i clock).tree from rfl, plan_started]
    exact t.plan_touch i
  | skipped i reason? =>
    rw [treeAfter, plan_ended]
    exact t.plan_touch i
  | finished i result =>
    rw [treeAfter, plan_ended]
    exact t.plan_touch i

end Tree

theorem Plan.serial_ofList (serial : Nat) (is : List Identifier) :
    (Plan.ofList serial is).serial = serial := by
  have hadd (p : Plan) : (is.foldl Plan.add p).serial = p.serial := by
    induction is generalizing p with
    | nil => rfl
    | cons i is ih => rw [List.foldl_cons, ih, Plan.serial_add]
  exact hadd (.empty serial)

namespace Session

open TestRun.Tree (treeAfter)

variable {p : Plan} {s : Session} {c : Call}

theorem regrow_eq_iff {t : Tree} : regrow p t = t ↔ (t.plan.serial = p.serial → t.plan = p) := by
  unfold regrow
  by_cases h : t.plan.serial = p.serial
  · rw [if_pos h]
    constructor
    · intro heq _
      rw [← heq]
    · intro heq
      rw [← heq h]
  · rw [if_neg h]
    exact ⟨fun _ hserial => absurd hserial h, fun _ => rfl⟩

theorem regrow_treeAfter {t : Tree} (h : regrow p t = t) (hc : c.identifier.id ∈ p.ids)
    (clock : Time.Clock) : regrow p (treeAfter c t clock) = treeAfter c t clock := by
  rw [regrow_eq_iff] at h ⊢
  intro hserial
  rcases Tree.plan_treeAfter c t clock with hplan | hplan <;> rw [hplan] at hserial ⊢
  · exact h hserial
  · rw [Plan.serial_add] at hserial
    rw [h hserial, Plan.add_of_mem hc]

theorem regrow_regrow_of_fits {q : Plan} (hq : q.serial = p.serial → q = p) {t : Tree}
    (h : regrow p t = t) : regrow p (regrow q t) = regrow q t := by
  by_cases hserial : t.plan.serial = q.serial
  · rw [regrow_eq_iff, show regrow q t = { t with plan := q } from if_pos hserial]
    exact hq
  · rw [show regrow q t = t from if_neg hserial, h]

theorem Holds.share (h : s.Holds p) {q : Plan} (hq : q.serial = p.serial → q = p) :
    (s.share q).Holds p := by
  obtain ⟨surroundings, plan, made, ⟨o, phase⟩, ⟨totals, tree?⟩, heard, audience⟩ := s
  obtain ⟨rfl, hwriter, hconsole⟩ := h
  refine ⟨?_, fun run hrun => ?_, fun tree htree => ?_⟩
  · change (if plan.serial = q.serial then q else plan) = plan
    split
    · next hserial => exact hq hserial.symm
    · rfl
  · cases phase with
    | running before =>
      cases hrun
      exact regrow_regrow_of_fits hq (hwriter before rfl)
    | notStarted => cases hrun
    | finished => cases hrun
  · obtain ⟨before, hbefore, rfl⟩ := Option.map_eq_some_iff.1 htree
    exact regrow_regrow_of_fits hq (hconsole before hbefore)

theorem Holds.hearWriter (h : s.Holds p) {e : Event}
    (he : ∀ run, ((Writer.hear e).perform (s.writer, s.surroundings)).2.1.run? = some run →
      regrow p run.tree = run.tree) : ((hearWriter e).perform s).2.Holds p := by
  rcases hact : (Writer.hear e).perform (s.writer, s.surroundings) with ⟨answer, w, x⟩
  rw [hact] at he
  have hheld : { s with writer := w, surroundings := x }.Holds p := ⟨h.plan_eq, he, h.console⟩
  rw [perform_hearWriter hact]
  cases hrun : w.run? with
  | none => exact hheld
  | some run => exact hheld.share (regrow_eq_iff.1 (he run hrun))

theorem Holds.hearConsole (h : s.Holds p) {e : Event}
    (he : ∀ tree, ((Console.hear e).perform (s.console, s.surroundings)).2.1.tree? = some tree →
      regrow p tree = tree) : ((hearConsole e).perform s).2.Holds p := by
  rcases hact : (Console.hear e).perform (s.console, s.surroundings) with ⟨answer, con, x⟩
  rw [hact] at he
  have hheld : { s with console := con, surroundings := x }.Holds p := ⟨h.plan_eq, h.writer, he⟩
  rw [perform_hearConsole hact]
  cases htree : con.tree? with
  | none => exact hheld
  | some tree => exact hheld.share (regrow_eq_iff.1 (he tree htree))

theorem Holds.hearRecorder (h : s.Holds p) (e : Event) :
    ((hearRecorder e).perform s).2.Holds p := by
  rcases e with q | (_ | q) | i | i | ⟨i, reason?⟩ | ⟨i, result⟩ <;>
    exact ⟨h.plan_eq, h.writer, h.console⟩

end Session

namespace Writer

theorem tree_callAct (o : Settings) (c : Call) (run : Run) (s : Surroundings) :
    ((callAct o c).perform (run, s)).2.1.tree = Tree.treeAfter c run.tree s.clock := by
  have hend (i : Identifier) (e : Ending) :
      ((endAct o i e).perform (run, s)).2.1.tree = (run.tree.ended i e s.clock).tree := by
    rw [← Tree.tree_hearEnded i e run.tree s]
    rcases hact : (Tree.hearEnded i e).perform (run.tree, s) with ⟨f | node, t, s'⟩
    · unfold endAct
      rw [Act.perform_bind_error (perform_withTree hact)]
    · unfold endAct
      rw [Act.perform_bind_ok (perform_withTree hact), perform_complete]
      rfl
  cases c with
  | register i => rfl
  | started i =>
    rw [← Tree.tree_act]
    rcases hact : (Tree.hearStarted i).perform (run.tree, s) with ⟨answer, t, s'⟩
    rw [perform_callAct_started o hact]
    exact (congrArg Prod.fst (congrArg Prod.snd hact)).symm.trans
      (congrArg Prod.fst (Act.state_bind_pure (Tree.hearStarted i) () (run.tree, s))).symm
  | skipped i reason? => exact hend i _
  | finished i result => exact hend i _

theorem run_of_hear_call {w : Writer} {c : Call} {s : Surroundings} {run' : Run}
    (h : ((hear c.event).perform (w, s)).2.1.run? = some run') :
    ∃ run, w.run? = some run ∧ run'.tree = Tree.treeAfter c run.tree s.clock := by
  cases hrun : w.run? with
  | none =>
    obtain ⟨message, hact⟩ := perform_hear_idle (Watch.call_ne_planStarted c) hrun s
    rw [hact, hrun] at h
    cases h
  | some run =>
    obtain ⟨o, phase⟩ := w
    cases phase with
    | notStarted | finished => cases hrun
    | running run =>
      cases hrun
      rw [perform_hear_call] at h
      cases h
      exact ⟨run, rfl, tree_callAct o c run s⟩

theorem run_of_hear_planFinished {w : Writer} {p? : Option Plan} {s : Surroundings} {run' : Run}
    (h : ((hear (.planFinished p?)).perform (w, s)).2.1.run? = some run') :
    ∃ run, w.run? = some run ∧ run'.tree = run.tree := by
  cases hrun : w.run? with
  | none =>
    obtain ⟨message, hact⟩ := perform_hear_idle (Watch.planFinished_ne_planStarted p?) hrun s
    rw [hact, hrun] at h
    cases h
  | some run =>
    obtain ⟨o, phase⟩ := w
    cases phase with
    | notStarted | finished => cases hrun
    | running run =>
      cases hrun
      obtain ⟨-, htree⟩ := moves_completeRest o run s
      rw [perform_hear_planFinished] at h
      rcases hrest : (completeRest o).perform (run, s) with ⟨f | _, left, s'⟩ <;>
        rw [hrest] at h htree <;> cases h
      exact ⟨run, rfl, htree⟩

theorem run_of_hear_planStarted {w : Writer} {p : Plan} {s : Surroundings} {run' : Run}
    (h : ((hear (.planStarted p)).perform (w, s)).2.1.run? = some run') :
    run'.tree.plan = p ∨ ∃ run, w.run? = some run ∧ run'.tree = run.tree := by
  cases hopens : opens w s with
  | false =>
    obtain ⟨f, w', s', hact, -, -, -, rfl | ⟨run, startedAt, hostName, hrun, hrun'⟩, -⟩ :=
      hear_planStarted_refused hopens p
    · rw [hact] at h
      exact .inr ⟨run', h, rfl⟩
    · rw [hact] at h
      cases hrun'.symm.trans h
      exact .inr ⟨run, hrun, rfl⟩
  | true =>
    obtain ⟨now, c, rows, hread, hrows⟩ := Watch.opens_eq_true hopens
    obtain ⟨answer, s₁, s', -, -, -, hact⟩ := hear_planStarted_begun hread hrows p
    rw [hact] at h
    cases h
    exact .inl rfl

end Writer

namespace Console

theorem tree_of_hear_call {con : Console} {c : Call} {s : Surroundings} {tree' : Tree}
    (h : ((hear c.event).perform (con, s)).2.1.tree? = some tree') :
    ∃ tree, con.tree? = some tree ∧ tree' = Tree.treeAfter c tree s.onWall.clock := by
  rw [hear_event] at h
  cases htree : con.tree? with
  | none =>
    unfold withTree at h
    rw [Hearing.perform_state_bind] at h
    simp only [htree, Act.perform_throw] at h
    cases h
  | some tree =>
    rw [perform_withTree htree] at h
    exact ⟨tree, rfl, (Option.some.inj h).symm.trans (Tree.tree_act c tree s.onWall)⟩

theorem keeps_printTest (tree? : Option Tree) (tree : Tree) (test : Identifier) :
    Act.Keeps (fun q : Console × Surroundings => q.1.tree? = tree?) (printTest tree test) :=
  fun _ hq => hq

theorem keeps_printEngine (tree? : Option Tree) (root : Identifier) :
    Act.Keeps (fun q : Console × Surroundings => q.1.tree? = tree?) (printEngine root) := by
  have hprint : Act.Keeps (fun q : Console × Surroundings => q.1.tree? = tree?)
      (Hearing.outside (Surroundings.print ("Engine: " ++ root.name))) := fun _ hq => hq
  refine hprint.bind fun _ => ?_
  intro q hq
  rw [Hearing.perform_state_bind]
  cases htree : q.1.tree? with
  | none => exact hq
  | some tree => exact Act.keeps_forM (fun test _ => keeps_printTest tree? tree test) q hq

theorem tree?_hear_planFinished (con : Console) (p? : Option Plan) (s : Surroundings) :
    ((hear (.planFinished p?)).perform (con, s)).2.1.tree? = con.tree? := by
  cases p? with
  | none => rfl
  | some q => exact Act.keeps_forM (fun root _ => keeps_printEngine con.tree? root) (con, s) rfl

end Console

namespace Session

variable {p : Plan}

def Concerns (p : Plan) : Event → Prop
  | .planStarted q => q = p
  | .planFinished _ => True
  | .registered i | .started i | .skipped i _ | .finished i _ => i.id ∈ p.ids

theorem concerns_call {c : Call} : Concerns p c.event ↔ c.identifier.id ∈ p.ids := by
  cases c <;> exact Iff.rfl

theorem Holds.regrow_writer {s : Session} (h : s.Holds p) {e : Event} (he : Concerns p e)
    {run' : Writer.Run}
    (hrun' : ((Writer.hear e).perform (s.writer, s.surroundings)).2.1.run? = some run') :
    regrow p run'.tree = run'.tree := by
  rcases e.shape with ⟨q, rfl⟩ | ⟨q?, rfl⟩ | ⟨c, rfl⟩
  · obtain rfl : q = p := he
    rcases Writer.run_of_hear_planStarted hrun' with hplan | ⟨run, hrun, htree⟩
    · exact regrow_of_plan hplan
    · rw [htree]
      exact h.writer run hrun
  · obtain ⟨run, hrun, htree⟩ := Writer.run_of_hear_planFinished hrun'
    rw [htree]
    exact h.writer run hrun
  · obtain ⟨run, hrun, htree⟩ := Writer.run_of_hear_call hrun'
    rw [htree]
    exact regrow_treeAfter (h.writer run hrun) (concerns_call.1 he) _

theorem keeps_hearAt {e : Event} (he : Concerns p e) (seat : Seat) :
    Act.Keeps (fun s => s.Holds p) (hearAt e seat) := by
  intro s h
  cases seat with
  | silent => exact h
  | recorder => exact h.hearRecorder e
  | writer => exact h.hearWriter fun run' hrun' => h.regrow_writer he hrun'
  | console =>
    refine h.hearConsole fun tree' htree' => ?_
    rcases e.shape with ⟨q, rfl⟩ | ⟨q?, rfl⟩ | ⟨c, rfl⟩
    · obtain rfl : q = p := he
      cases htree'
      exact regrow_of_plan rfl
    · rw [Console.tree?_hear_planFinished] at htree'
      exact h.console tree' htree'
    · obtain ⟨tree, htree, rfl⟩ := Console.tree_of_hear_call htree'
      exact regrow_treeAfter (h.console tree htree) (concerns_call.1 he) _

/-- Whoever listens and whatever fails, an event of the run on a plan leaves the plan as it is. -/
theorem keeps_deliver {e : Event} (he : Concerns p e) :
    Act.Keeps (fun s => s.Holds p) (deliver e) :=
  Act.Keeps.of_get fun s hs => Act.keeps_forM (fun seat _ => keeps_hearAt he seat) s hs

end Session

end TestRun
