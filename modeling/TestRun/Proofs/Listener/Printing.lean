import TestRun.Proofs.Listener.Following
import TestRun.Proofs.Listener.Holding
set_option autoImplicit false

namespace TestRun

open TestRun.Tree (Call endIn endsOf startsIn opensAt)

namespace Act

variable {σ α β : Type} {P Q R : σ → Prop}

def Leaves (P : σ → Prop) (act : Act σ α) (Q : σ → Prop) : Prop :=
  ∀ s a s', P s → act.perform s = (.ok a, s') → Q s'

theorem Keeps.leaves {act : Act σ α} (h : Keeps P act) : Leaves P act P := by
  intro s a s' hs hact
  have hs' := h s hs
  rwa [hact] at hs'

theorem Leaves.bind {act : Act σ α} (h : Leaves P act Q) {next : α → Act σ β}
    (hnext : ∀ a, Leaves Q (next a) R) : Leaves P (act >>= next) R := by
  intro s b s' hs hact
  obtain ⟨a, s₁, hfirst, hrest⟩ := perform_bind_eq_ok hact
  exact hnext a s₁ b s' (h s a s₁ hs hfirst) hrest

theorem leaves_forM {act : α → Act σ PUnit} {xs : List α} (h : ∀ a ∈ xs, Leaves P (act a) P) :
    Leaves P (xs.forM act) P := by
  induction xs with
  | nil =>
    intro s a s' hs hact
    cases hact
    exact hs
  | cons a xs ih =>
    exact (h a List.mem_cons_self).bind fun _ => ih fun b hb => h b (List.mem_cons_of_mem a hb)

end Act

/-- The writer has no part in the screen, nor in the clock of the machine. -/
structure Surroundings.Spared (s s' : Surroundings) : Prop where
  screen_eq : s'.screen = s.screen
  wall_eq : s'.wall? = s.wall?

theorem Surroundings.Spared.trans {s s' s'' : Surroundings} (h : s.Spared s')
    (h' : s'.Spared s'') : s.Spared s'' :=
  ⟨h'.screen_eq.trans h.screen_eq, h'.wall_eq.trans h.wall_eq⟩

theorem Surroundings.Quiet.spared {s s' : Surroundings} (h : s.Quiet s') : s.Spared s' := by
  obtain ⟨clock, log, rfl⟩ := h
  exact ⟨rfl, rfl⟩

namespace Tree

theorem quiet_hear (op : Tree → Time.Clock → Reply) (t : Tree) (s : Surroundings) :
    s.Quiet ((hear op).perform (t, s)).2.2 := by
  rw [perform_hear]
  exact .withClock s _

theorem quiet_hearEnded (i : Identifier) (e : Ending) (t : Tree) (s : Surroundings) :
    s.Quiet ((hearEnded i e).perform (t, s)).2.2 := by
  unfold hearEnded
  rw [Hearing.perform_state_bind]
  split
  · rw [Act.perform_bind_ok (Hearing.perform_outside_eq (Surroundings.perform_debug _ _)),
      perform_hear]
    exact ⟨_, _, rfl⟩
  · exact quiet_hear _ t s

theorem quiet_act (c : Call) (t : Tree) (s : Surroundings) :
    s.Quiet (c.act.perform (t, s)).2.2 := by
  have hstate (act : Hearing Tree Node) : (((do let _ ← act) : Hearing Tree Unit).perform (t, s)).2 =
      (act.perform (t, s)).2 := Act.state_bind_pure act () (t, s)
  cases c with
  | register i => exact .refl s
  | started i =>
    rw [show (Call.started i).act = (do let _ ← hearStarted i) from rfl, hstate]
    exact quiet_hear _ t s
  | skipped i reason? =>
    rw [show (Call.skipped i reason?).act = (do let _ ← hearSkipped i reason?) from rfl, hstate]
    exact quiet_hearEnded i _ t s
  | finished i result =>
    rw [show (Call.finished i result).act = (do let _ ← hearFinished i result) from rfl, hstate]
    exact quiet_hearEnded i _ t s

end Tree

namespace Writer

open Files (Path)

variable {o : Settings}

theorem spared_publish (indent : Option String) (directory? : Option Path) (s : Surroundings)
    (r : EngineReport) : s.Spared (publish indent directory? s r) := by
  obtain ⟨log, h⟩ := exists_publish indent directory? s r
  rw [h]
  exact ⟨rfl, rfl⟩

theorem spared_foldl_publish (indent : Option String) (directory? : Option Path)
    (reports : List EngineReport) (s : Surroundings) :
    s.Spared (reports.foldl (publish indent directory?) s) := by
  induction reports generalizing s with
  | nil => exact ⟨rfl, rfl⟩
  | cons r reports ih => exact (spared_publish indent directory? s r).trans (ih _)

theorem spared_endAct (i : Identifier) (e : Ending) (run : Run) (s : Surroundings) :
    s.Spared ((endAct o i e).perform (run, s)).2.2 := by
  have hquiet := Tree.quiet_hearEnded i e run.tree s
  unfold endAct
  rcases hact : (Tree.hearEnded i e).perform (run.tree, s) with ⟨f | node, t, s₁⟩ <;>
    rw [hact] at hquiet
  · rw [Act.perform_bind_error (perform_withTree hact)]
    exact hquiet.spared
  · rw [Act.perform_bind_ok (perform_withTree hact), perform_complete]
    exact hquiet.spared.trans (spared_foldl_publish _ _ _ _)

theorem spared_callAct (c : Call) (run : Run) (s : Surroundings) :
    s.Spared ((callAct o c).perform (run, s)).2.2 := by
  cases c with
  | register i => exact ⟨rfl, rfl⟩
  | started i =>
    have hquiet := Tree.quiet_hear (fun t clock => t.started i clock) run.tree s
    rcases hact : (Tree.hearStarted i).perform (run.tree, s) with ⟨answer, t, s₁⟩
    rw [perform_callAct_started o hact]
    rw [show Tree.hear _ = Tree.hearStarted i from rfl, hact] at hquiet
    exact hquiet.spared
  | skipped i reason? => exact spared_endAct i _ run s
  | finished i result => exact spared_endAct i _ run s

theorem spared_openDirectory (directory : Text.CodeText) (s : Surroundings) :
    s.Spared ((openDirectory directory).perform s).2 := by
  unfold openDirectory
  cases Path.ofCode directory with
  | error e => exact ⟨rfl, rfl⟩
  | ok path =>
    dsimp only
    split
    · exact ⟨rfl, rfl⟩
    · simp only [Act.perform_get_bind, Act.perform_set_bind]
      rcases s.disk.makeDirectories path with ⟨_ | _, _⟩ <;> exact ⟨rfl, rfl⟩

theorem spared_hear (e : Event) (w : Writer) (s : Surroundings) :
    s.Spared ((hear e).perform (w, s)).2.2 := by
  rcases e.shape with ⟨p, rfl⟩ | hother
  · cases hopens : opens w s with
    | false =>
      obtain ⟨f, w', s', hact, hquiet, -⟩ := hear_planStarted_refused hopens p
      rw [hact]
      exact hquiet.spared
    | true =>
      obtain ⟨now, c, rows, hread, hrows⟩ := Watch.opens_eq_true hopens
      obtain ⟨answer, s₁, s', hquiet, -, hopen, hact⟩ := hear_planStarted_begun hread hrows p
      have hspared := spared_openDirectory w.settings.directory s₁
      rw [hopen] at hspared
      rw [hact]
      exact hquiet.spared.trans hspared
  · cases hrun : w.run? with
    | none =>
      have he : ∀ p, e ≠ .planStarted p := by
        rcases hother with ⟨p?, rfl⟩ | ⟨c, rfl⟩
        · exact Watch.planFinished_ne_planStarted p?
        · exact Watch.call_ne_planStarted c
      obtain ⟨message, hact⟩ := perform_hear_idle he hrun s
      rw [hact]
      exact ⟨rfl, rfl⟩
    | some run =>
      obtain ⟨o, phase⟩ := w
      cases phase with
      | notStarted | finished => cases hrun
      | running run =>
        rcases hother with ⟨p?, rfl⟩ | ⟨c, rfl⟩
        · obtain ⟨left, s₁, -, hquiet, hrest⟩ := perform_completeRest o run s
          rw [perform_hear_planFinished]
          rcases hact : (completeRest o).perform (run, s) with ⟨f | _, run', s'⟩ <;>
            rw [hact] at hrest <;> cases hrest <;>
              exact hquiet.spared.trans (spared_foldl_publish _ _ _ _)
        · rw [perform_hear_call]
          exact spared_callAct c run s

end Writer

namespace Console

def linesOn (name : String) (tests : List (String × Outcome)) : List String :=
  ("Engine: " ++ name) :: tests.map fun t => " - " ++ t.1 ++ ": " ++ t.2.label

/-- The tests below an engine with their outcomes by a log; no engine starts with the run. -/
def tested (p : Plan) (log : List Call) (root : Identifier) : List (String × Outcome) :=
  (p.testsUnder root.id).map fun t =>
    (t.id, (Tree.verdictBy p log (startsIn log t.id) t).outcome)

def printed (q : Console × Surroundings) (lines : List String) (outcomes : List Outcome) :
    Console × Surroundings :=
  ({ q.1 with totals := outcomes.foldl Totals.count q.1.totals },
    { q.2 with screen := q.2.screen ++ String.join (lines.map (· ++ "\n")) })

theorem printed_nil (q : Console × Surroundings) : printed q [] [] = q := by
  unfold printed
  rw [List.map_nil, String.join_nil, String.append_empty]
  rfl

theorem printed_printed (q : Console × Surroundings) (lines more : List String)
    (outcomes others : List Outcome) :
    printed (printed q lines outcomes) more others =
      printed q (lines ++ more) (outcomes ++ others) := by
  unfold printed
  rw [List.foldl_append, List.map_append, String.join_append, String.append_assoc]

theorem perform_forM_printed {act : Identifier → Hearing Console Unit}
    {lines : Identifier → List String} {outcomes : Identifier → List Outcome}
    {tree? : Option Tree}
    (h : ∀ i q, q.1.tree? = tree? → (act i).perform q = (.ok (), printed q (lines i) (outcomes i)))
    (is : List Identifier) (q : Console × Surroundings) (hq : q.1.tree? = tree?) :
    (is.forM act).perform q = (.ok (), printed q (is.flatMap lines) (is.flatMap outcomes)) := by
  induction is generalizing q with
  | nil =>
    rw [List.flatMap_nil, List.flatMap_nil, printed_nil]
    rfl
  | cons i is ih =>
    let q₁ := printed q (lines i) (outcomes i)
    calc ((i :: is).forM act).perform q
      _ = (is.forM act).perform q₁ := by
          rw [Act.perform_forM_cons, Act.perform_bind_ok (h i q hq)]
      _ = (.ok (), printed q₁ (is.flatMap lines) (is.flatMap outcomes)) := ih q₁ hq
      _ = (.ok (), printed q ((i :: is).flatMap lines) ((i :: is).flatMap outcomes)) := by
          rw [printed_printed, List.flatMap_cons, List.flatMap_cons]

theorem perform_printTest_eq (tree : Tree) (test : Identifier) (q : Console × Surroundings) :
    (printTest tree test).perform q = (.ok (), printed q
      [" - " ++ test.id ++ ": " ++ (tree.classify test).outcome.label]
      [(tree.classify test).outcome]) := by
  have hscreen (line : String) :
      q.2.screen ++ line ++ "\n" = q.2.screen ++ String.join ([line].map (· ++ "\n")) := by
    rw [List.map_singleton, String.join_cons, String.join_nil, String.append_empty,
      String.append_assoc]
  unfold printed
  rw [← hscreen]
  rfl

theorem perform_printEngine_eq {tree : Tree} {p : Plan} {log : List Call}
    (htree : Tree.Reflects p none log tree) (hp : tree.plan = p) (root : Identifier)
    (q : Console × Surroundings) (hq : q.1.tree? = some tree) :
    (printEngine root).perform q = (.ok (), printed q (linesOn root.name (tested p log root))
      ((tested p log root).map (·.2))) := by
  let head := "Engine: " ++ root.name
  have hhead : (Hearing.outside (Surroundings.print head)).perform q =
      (.ok (), printed q [head] []) := by
    unfold printed
    rw [List.map_singleton, String.join_cons, String.join_nil, String.append_empty,
      ← String.append_assoc]
    rfl
  have hverdict (test : Identifier) :
      (tree.classify test) = Tree.verdictBy p log (startsIn log test.id) test := by
    rw [htree.classify_eq_by hp]
    rfl
  unfold printEngine
  rw [Act.perform_bind_ok hhead, Hearing.perform_state_bind]
  have htests := perform_forM_printed
    (fun test q (_ : q.1.tree? = some tree) => perform_printTest_eq tree test q)
    (p.testsUnder root.id) (printed q [head] []) hq
  rw [printed_printed] at htests
  have hstate : (printed q [head] []).1.tree? = some tree := hq
  simp only [hstate, hp]
  rw [htests]
  simp only [← List.map_eq_flatMap, hverdict, linesOn, tested, List.map_map, List.nil_append,
    List.singleton_append]
  rfl

end Console

namespace Console

def Records (con : Console) (p : Plan) (log : List Call) : Prop :=
  ∃ tree, con.tree? = some tree ∧ tree.plan = p ∧ Tree.Reflects p none log tree

variable {con con' : Console} {p : Plan} {log : List Call} {s s' : Surroundings}

theorem begin_records (totals : Totals) (p : Plan) :
    (Console.mk totals (some (.begin p none))).Records p [] :=
  ⟨_, rfl, rfl, Tree.begin_reflects p none⟩

theorem Records.hear_call (h : con.Records p log) {c : Call} (hc : c.identifier.id ∈ p.ids)
    (hact : (hear c.event).perform (con, s) = (.ok (), (con', s'))) :
    con'.Records p (log ++ [c]) ∧ con'.totals = con.totals ∧ s'.screen = s.screen := by
  obtain ⟨tree, htree, hp, hreflects⟩ := h
  rw [hear_event, perform_withTree htree] at hact
  have hquiet := Tree.quiet_act c tree s.onWall
  rcases hcall : c.act.perform (tree, s.onWall) with ⟨f | _, t', s₁⟩ <;>
    rw [hcall] at hact hquiet <;> cases hact
  obtain ⟨now, hmoves⟩ := Tree.moves_of_act hreflects.coherent hcall
  refine ⟨⟨t', rfl, ?_, hreflects.step hmoves⟩, rfl, ?_⟩
  · rw [plan_of_moves hmoves, hp, Plan.add_of_mem hc]
  · exact (s.screen_offWall s₁).trans (hquiet.spared.screen_eq.trans s.screen_onWall)

theorem Records.hear_planFinished (h : con.Records p log) (s : Surroundings) :
    (hear (.planFinished (some p))).perform (con, s) = (.ok (), printed (con, s)
      (p.roots.flatMap fun root => linesOn root.name (tested p log root))
      (p.roots.flatMap fun root => (tested p log root).map (·.2))) := by
  obtain ⟨tree, htree, hp, hreflects⟩ := h
  exact perform_forM_printed (perform_printEngine_eq hreflects hp) p.roots (con, s) htree

end Console

namespace Session

variable {s s' : Session} {p q : Plan} {log : List Call} {e : Event} {seat : Seat}
variable {totals : Totals} {screen : String} {audience : List Seat}

/-- The console follows a plan that all who hold it see as it is; so far it has counted up to some
totals, and the screen shows some text. -/
structure Attends (s : Session) (p : Plan) (log : List Call) (totals : Totals) (screen : String)
    (audience : List Seat) : Prop where
  holds : s.Holds p
  records : s.console.Records p log
  totals_eq : s.console.totals = totals
  screen_eq : s.surroundings.screen = screen
  audience_eq : s.audience = audience

theorem console_share (hq : q.serial = p.serial → q = p) (h : s.console.Records p log) :
    (s.share q).console = s.console := by
  obtain ⟨tree, htree, hp, -⟩ := h
  have hstays : regrow q tree = tree := by
    rw [regrow_eq_iff, hp]
    exact fun hserial => (hq hserial.symm).symm
  change { s.console with tree? := s.console.tree?.map (regrow q) } = s.console
  rw [htree, Option.map_some, hstays, ← htree]

theorem screen_hearAt (e : Event) (hne : seat ≠ .console) (s : Session) :
    ((hearAt e seat).perform s).2.surroundings.screen = s.surroundings.screen := by
  cases seat with
  | console => exact absurd rfl hne
  | silent => rfl
  | recorder => rcases e with q | (_ | q) | i | i | ⟨i, reason?⟩ | ⟨i, result⟩ <;> rfl
  | writer =>
    have hscreen := (Writer.spared_hear e s.writer s.surroundings).screen_eq
    rcases hact : (Writer.hear e).perform (s.writer, s.surroundings) with ⟨answer, w, x⟩
    rw [hact] at hscreen
    rw [show hearAt e .writer = hearWriter e from rfl, perform_hearWriter hact]
    cases w.run? <;> exact hscreen

theorem audience_hearAt (e : Event) (seat : Seat) (s : Session) :
    ((hearAt e seat).perform s).2.audience = s.audience := by
  cases seat with
  | silent => rfl
  | recorder => rcases e with q | (_ | q) | i | i | ⟨i, reason?⟩ | ⟨i, result⟩ <;> rfl
  | writer =>
    rcases hact : (Writer.hear e).perform (s.writer, s.surroundings) with ⟨answer, w, x⟩
    rw [show hearAt e .writer = hearWriter e from rfl, perform_hearWriter hact]
    cases w.run? <;> rfl
  | console =>
    rcases hact : (Console.hear e).perform (s.console, s.surroundings) with ⟨answer, con, x⟩
    rw [show hearAt e .console = hearConsole e from rfl, perform_hearConsole hact]
    cases con.tree? <;> rfl

theorem keeps_attends (he : Concerns p e) (hne : seat ≠ .console) :
    Act.Keeps (fun s => s.Attends p log totals screen audience) (hearAt e seat) := by
  intro s h
  have hconsole : ((hearAt e seat).perform s).2.console = s.console := by
    cases seat with
    | console => exact absurd rfl hne
    | silent => rfl
    | recorder => rcases e with q | (_ | q) | i | i | ⟨i, reason?⟩ | ⟨i, result⟩ <;> rfl
    | writer =>
      have hregrow : ∀ run,
          ((Writer.hear e).perform (s.writer, s.surroundings)).2.1.run? = some run →
          Session.regrow p run.tree = run.tree :=
        fun run hrun => h.holds.regrow_writer he hrun
      rcases hact : (Writer.hear e).perform (s.writer, s.surroundings) with ⟨answer, w, x⟩
      rw [hact] at hregrow
      rw [show hearAt e .writer = hearWriter e from rfl, perform_hearWriter hact]
      cases hrun : w.run? with
      | none => rfl
      | some run =>
        exact console_share (s := { s with writer := w, surroundings := x })
          (regrow_eq_iff.1 (hregrow run hrun)) h.records
  refine ⟨keeps_hearAt he seat s h.holds, ?_, ?_, ?_, ?_⟩
  · rw [hconsole]
    exact h.records
  · rw [hconsole]
    exact h.totals_eq
  · rw [screen_hearAt e hne]
    exact h.screen_eq
  · rw [audience_hearAt]
    exact h.audience_eq

theorem deliver_leaves {I J : Session → Prop}
    (hI : ∀ seat, seat ≠ .console → Act.Leaves I (hearAt e seat) I)
    (hJ : ∀ seat, seat ≠ .console → Act.Leaves J (hearAt e seat) J)
    (hconsole : Act.Leaves I (hearConsole e) J) (hone : s.audience.count .console = 1) (hs : I s)
    (h : (deliver e).perform s = (.ok (), s')) : J s' := by
  obtain ⟨before, after, haudience, hbefore, hafter⟩ := split_audience hone
  have hother {seats : List Seat} (hseats : .console ∉ seats) : ∀ seat ∈ seats, seat ≠ .console :=
    fun seat hseat heq => hseats (heq ▸ hseat)
  unfold deliver at h
  rw [Act.perform_get_bind, haudience, Act.perform_forM_append] at h
  obtain ⟨_, s₁, hfirst, hrest⟩ := Act.perform_bind_eq_ok h
  rw [Act.perform_forM_cons] at hrest
  obtain ⟨_, s₂, hhear, hlast⟩ := Act.perform_bind_eq_ok hrest
  have h₁ := Act.leaves_forM (fun seat hseat => hI seat (hother hbefore seat hseat)) s _ s₁ hs hfirst
  have h₂ := hconsole s₁ _ s₂ h₁ hhear
  exact Act.leaves_forM (fun seat hseat => hJ seat (hother hafter seat hseat)) s₂ _ s' h₂ hlast

theorem perform_hearConsole_records {answer : Except Fault Unit} {con : Console} {x : Surroundings}
    (hact : (Console.hear e).perform (s.console, s.surroundings) = (answer, (con, x)))
    (hcon : con.Records p log) :
    (hearConsole e).perform s = (answer, { s with console := con, surroundings := x }.share p) ∧
      ({ s with console := con, surroundings := x }.share p).console = con := by
  have hshare := console_share (s := { s with console := con, surroundings := x }) (fun _ => rfl) hcon
  obtain ⟨tree, htree, rfl, -⟩ := hcon
  refine ⟨?_, hshare⟩
  rw [perform_hearConsole hact]
  simp only [htree]

theorem Attends.deliver_call (h : s.Attends p log totals screen audience)
    (hone : audience.count .console = 1) {c : Call} (hc : c.identifier.id ∈ p.ids)
    (hact : (deliver c.event).perform s = (.ok (), s')) :
    s'.Attends p (log ++ [c]) totals screen audience := by
  have he : Concerns p c.event := concerns_call.2 hc
  have hconsole : Act.Leaves (fun s => s.Attends p log totals screen audience)
      (hearConsole c.event) (fun s => s.Attends p (log ++ [c]) totals screen audience) := by
    intro s _ s' h hact
    have hholds : s'.Holds p := by
      have hkeeps := keeps_hearAt he .console s h.holds
      rwa [show hearAt c.event .console = hearConsole c.event from rfl, hact] at hkeeps
    rcases hhear : (Console.hear c.event).perform (s.console, s.surroundings) with
      ⟨f | _, con, x⟩
    · rw [perform_hearConsole hhear] at hact
      cases hact
    · obtain ⟨hrecords, htotals, hscreen⟩ := h.records.hear_call hc hhear
      obtain ⟨hperform, hcon⟩ := perform_hearConsole_records hhear hrecords
      obtain rfl := congrArg Prod.snd (hperform.symm.trans hact)
      refine ⟨hholds, ?_, ?_, hscreen.trans h.screen_eq, h.audience_eq⟩
      · rwa [hcon]
      · rw [hcon, htotals]
        exact h.totals_eq
  have hkeeps {log : List Call} (seat : Seat) (hne : seat ≠ .console) :
      Act.Leaves (fun s => s.Attends p log totals screen audience) (hearAt c.event seat)
        (fun s => s.Attends p log totals screen audience) := (keeps_attends he hne).leaves
  exact deliver_leaves hkeeps hkeeps hconsole (h.audience_eq ▸ hone) h hact

/-- When the plan is over, the console tells of each engine and of the tests below it. -/
theorem Attends.deliver_planFinished (h : s.Attends p log totals screen audience)
    (hone : audience.count .console = 1)
    (hact : (deliver (.planFinished (some p))).perform s = (.ok (), s')) :
    s'.Attends p log
      ((p.roots.flatMap fun root => (Console.tested p log root).map (·.2)).foldl Totals.count totals)
      (screen ++ String.join ((p.roots.flatMap fun root =>
        Console.linesOn root.name (Console.tested p log root)).map (· ++ "\n"))) audience := by
  have he : Concerns p (.planFinished (some p)) := trivial
  refine deliver_leaves (fun seat hne => (keeps_attends he hne).leaves)
    (fun seat hne => (keeps_attends he hne).leaves) ?_ (h.audience_eq ▸ hone) h hact
  intro s _ s' h hact
  have hholds : s'.Holds p := by
    have hkeeps := keeps_hearAt he .console s h.holds
    rwa [show hearAt _ .console = hearConsole (.planFinished (some p)) from rfl, hact] at hkeeps
  have hhear := h.records.hear_planFinished s.surroundings
  obtain ⟨hperform, hcon⟩ := perform_hearConsole_records (p := p) hhear h.records
  obtain rfl := congrArg Prod.snd (hperform.symm.trans hact)
  refine ⟨hholds, ?_, ?_, ?_, h.audience_eq⟩
  · rw [hcon]
    exact h.records
  · rw [hcon, ← h.totals_eq]
  · rw [← h.screen_eq]
    rfl

theorem attends_of_planStarted (hplan : s.plan = p) (hone : s.audience.count .console = 1)
    (hact : (deliver (.planStarted p)).perform s = (.ok (), s')) :
    s'.Attends p [] .zero s.surroundings.screen s.audience := by
  have he : Concerns p (.planStarted p) := rfl
  let screen := s.surroundings.screen
  let audience := s.audience
  let I (s : Session) : Prop :=
    s.plan = p ∧ s.surroundings.screen = screen ∧ s.audience = audience
  refine deliver_leaves (I := I) ?_ (fun seat hne => (keeps_attends he hne).leaves) ?_ hone
    ⟨hplan, rfl, rfl⟩ hact
  · rintro seat hne s _ s' ⟨hplan, hscreen, haudience⟩ hact
    have hscreen' := screen_hearAt (.planStarted p) hne s
    have haudience' := audience_hearAt (.planStarted p) seat s
    rw [hact] at hscreen' haudience'
    refine ⟨?_, hscreen'.trans hscreen, haudience'.trans haudience⟩
    cases seat with
    | console => exact absurd rfl hne
    | silent | recorder =>
      cases hact
      exact hplan
    | writer =>
      have hact' : (hearWriter (.planStarted p)).perform s = (.ok (), s') := hact
      cases hopens : Writer.opens s.writer s.surroundings with
      | false =>
        obtain ⟨f, w', x, hhear, -⟩ := Writer.hear_planStarted_refused hopens p
        rw [perform_hearWriter hhear] at hact'
        cases hact'
      | true =>
        obtain ⟨now, c, rows, hread, hrows⟩ := Writer.Watch.opens_eq_true hopens
        obtain ⟨answer, x₁, x, -, -, -, hhear⟩ := Writer.hear_planStarted_begun hread hrows p
        rw [perform_hearWriter hhear] at hact'
        obtain rfl := congrArg Prod.snd hact'
        change (if s.plan.serial = p.serial then p else s.plan) = p
        rw [hplan, if_pos rfl]
  · rintro s _ s' ⟨hplan, hscreen, haudience⟩ hact
    obtain ⟨hperform, hcon⟩ := perform_hearConsole_records (s := s)
      (Console.hear_planStarted s.console p s.surroundings) (Console.begin_records .zero p)
    obtain rfl := congrArg Prod.snd (hperform.symm.trans hact)
    refine ⟨share_holds hplan, ?_, ?_, hscreen, haudience⟩
    · rw [hcon]
      exact Console.begin_records .zero p
    · rw [hcon]

end Session

end TestRun
