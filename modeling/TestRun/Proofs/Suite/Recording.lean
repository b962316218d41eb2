import TestRun.Proofs.Suite.Blocks
import TestRun.Proofs.Suite.Recursion
import TestRun.Proofs.Time.Stepping
set_option autoImplicit false

namespace TestRun

open TestRun.Tree (Call)

/-- What the code of a session that is recorded may do: raise what is no interrupt, and announce
what the recorder can take. -/
def Action.IsCalm : Action → Prop
  | .raise t => t.kind.interrupt = false
  | .fire (.planFinished none) => False
  | _ => True

instance : DecidablePred Action.IsCalm
  | .raise t => inferInstanceAs (Decidable (t.kind.interrupt = false))
  | .fire (.planFinished none) => isFalse id
  | .fire (.planFinished (some _)) | .fire (.planStarted _) | .fire (.registered _)
  | .fire (.started _) | .fire (.skipped _ _) | .fire (.finished _ _) => isTrue trivial
  | .tick _ | .abort _ | .assume _ _ | .giveBack _ => isTrue trivial

def CalmForest (forest : List SuiteNode) : Prop :=
  ∀ entry ∈ SuiteNode.listingAll none forest, ∀ body ∈ entry.2.code, ∀ action ∈ body, action.IsCalm

instance : DecidablePred CalmForest :=
  fun forest => inferInstanceAs (Decidable (∀ entry ∈ SuiteNode.listingAll none forest,
    ∀ body ∈ entry.2.code, ∀ action ∈ body, action.IsCalm))

namespace Session

open Time SuiteNode Step

/-- One recorder listens, and no one else who does anything. -/
structure Recording (s : Session) : Prop where
  one_recorder : s.audience.count .recorder = 1
  seats : ∀ seat ∈ s.audience, seat = .recorder ∨ seat = .silent

def past (s : Session) (es : List Event) (n : Nat) : Session :=
  { s with
    heard := s.heard ++ es.toArray
    surroundings := { s.surroundings with clock := s.surroundings.clock.after n } }

theorem past_nil (s : Session) : s.past [] 0 = s := by
  unfold past
  rw [show s.heard ++ [].toArray = s.heard from Array.append_empty]
  rfl

theorem past_past (s : Session) (es fs : List Event) (m n : Nat) :
    (s.past es m).past fs n = s.past (es ++ fs) (m + n) := by
  have hheard : s.heard ++ es.toArray ++ fs.toArray = s.heard ++ (es ++ fs).toArray := by
    simp only [Array.append_assoc, List.append_toArray]
  unfold past
  dsimp only
  rw [hheard, Clock.after_add]

theorem Recording.past {s : Session} (h : s.Recording) (es : List Event) (n : Nat) :
    (s.past es n).Recording := ⟨h.one_recorder, h.seats⟩

def afterSteps (s : Session) (steps : List Step) : Session :=
  s.past (heardAll steps) (readingsAll steps)

theorem afterSteps_append (s : Session) (xs ys : List Step) :
    s.afterSteps (xs ++ ys) = (s.afterSteps xs).afterSteps ys := by
  unfold afterSteps
  rw [past_past, heardAll_append, readingsAll_append]

/-- Where a recorder listens and the clock can be read, the act succeeds and takes these steps. -/
def Takes {α : Type} (act : Act Session α) (answer : α) (steps : List Step) : Prop :=
  ∀ s : Session, s.Recording → s.surroundings.clock.CanRead (readingsAll steps) →
    act.perform s = (.ok answer, s.afterSteps steps)

variable {α β : Type}

theorem takes_pure (a : α) : Takes (pure a : Act Session α) a [] := by
  intro s _ _
  rw [show s.afterSteps [] = s from s.past_nil]
  rfl

theorem Takes.bind {act : Act Session α} {a : α} {xs : List Step} (h : Takes act a xs)
    {next : α → Act Session β} {b : β} {ys : List Step} (hnext : Takes (next a) b ys) :
    Takes (act >>= next) b (xs ++ ys) := by
  intro s hs hclock
  rw [readingsAll_append, Clock.canRead_add] at hclock
  rw [Act.perform_bind_ok (h s hs hclock.1), afterSteps_append]
  exact hnext _ (hs.past _ _) hclock.2

theorem perform_forM_recorded {e : Event} (he : e ≠ .planFinished none) {seats : List Seat}
    (hseats : ∀ seat ∈ seats, seat = .recorder ∨ seat = .silent) (s : Session) :
    (seats.forM (hearAt e)).perform s =
      (.ok (), s.past (List.replicate (seats.count .recorder) e) 0) := by
  induction seats generalizing s with
  | nil =>
    rw [List.count_nil, List.replicate_zero, past_nil]
    rfl
  | cons seat seats ih =>
    have hrest := ih fun x hx => hseats x (List.mem_cons_of_mem _ hx)
    rw [Act.perform_forM_cons]
    rcases hseats seat List.mem_cons_self with rfl | rfl
    · have hact : (hearAt e .recorder).perform s = (.ok (), s.past [e] 0) := by
        have hpush : s.past [e] 0 = { s with heard := s.heard.push e } := by
          unfold past
          rw [← Array.push_eq_append]
          rfl
        rw [hpush]
        rcases e with q | (_ | q) | i | i | ⟨i, reason?⟩ | ⟨i, result⟩ <;>
          first | rfl | exact absurd rfl he
      rw [Act.perform_bind_ok hact, hrest, past_past, List.count_cons_self, List.replicate_succ]
      rfl
    · have hact : (hearAt e .silent).perform s = (.ok (), s) := rfl
      rw [Act.perform_bind_ok hact, hrest, List.count_cons_of_ne (by decide)]

theorem perform_deliver_recorded {e : Event} (he : e ≠ .planFinished none) {s : Session}
    (hs : s.Recording) : (deliver e).perform s = (.ok (), s.past [e] 0) := by
  unfold deliver
  rw [Act.perform_get_bind, perform_forM_recorded he hs.seats, hs.one_recorder]
  rfl

theorem takes_tell (c : Call) : Takes (deliver c.event) () [.tell c] := by
  intro s hs _
  have hne : c.event ≠ .planFinished none := by cases c <;> exact nofun
  exact perform_deliver_recorded hne hs

theorem perform_tick_after (n : Nat) {s : Surroundings} (h : s.clock.CanRead n) :
    (Surroundings.tick n).perform s = (.ok (), { s with clock := s.clock.after n }) := by
  induction n generalizing s with
  | zero => rfl
  | succ n ih =>
    rw [Nat.add_comm, Clock.canRead_add] at h
    obtain ⟨now, hnow⟩ := h.1 0 Nat.zero_lt_one
    have hread : s.clock.read = (.ok now, s.clock.read.2) := Prod.ext hnow rfl
    unfold Surroundings.tick
    rw [Act.perform_bind_ok (Surroundings.perform_readClock hread)]
    exact ih (s := { s with clock := s.clock.read.2 }) h.2

theorem perform_around_tick_after (n : Nat) {s : Session}
    (h : s.surroundings.clock.CanRead n) :
    (around (Surroundings.tick n)).perform s = (.ok (), s.past [] n) := by
  unfold around
  rw [Act.perform_within, perform_tick_after n h]
  unfold past
  rw [show s.heard ++ [].toArray = s.heard from Array.append_empty]

theorem perform_body_past {P : Session → Prop} (hpast : ∀ s es n, P s → P (s.past es n))
    {body : Body} (hfire : ∀ e, .fire e ∈ body → ∀ s, P s →
      (deliver e).perform s = (.ok (), s.past [e] 0))
    {s : Session} (hs : P s) (hclock : s.surroundings.clock.CanRead body.readings.sum) :
    ∃ answer, (Body.run body).perform s = (answer, s.past body.fired body.readings.sum) ∧
      (∀ f, body.fault? = some f → answer = .error f) ∧
      (body.fault? = none → ∃ value, answer = .ok value) := by
  have hstay (s : Session) (answer : Except Fault Datum) : (answer, s) = (answer, s.past [] 0) := by
    rw [past_nil]
  induction body generalizing s with
  | nil => exact ⟨.ok .null, hstay s _, nofun, fun _ => ⟨.null, rfl⟩⟩
  | cons action rest ih =>
    have hrest : ∀ e, .fire e ∈ rest → ∀ s, P s → (deliver e).perform s = (.ok (), s.past [e] 0) :=
      fun e he => hfire e (List.mem_cons_of_mem _ he)
    cases action with
    | giveBack value => exact ⟨.ok value, hstay s _, nofun, fun _ => ⟨value, rfl⟩⟩
    | raise t =>
      refine ⟨.error (.thrown t), hstay s _, fun f hf => ?_, nofun⟩
      cases hf
      rfl
    | abort reason? =>
      refine ⟨.error (Action.aborted (reason?.getD (.text ""))), hstay s _, fun f hf => ?_, nofun⟩
      cases hf
      rfl
    | tick times =>
      rw [Body.readings, List.sum_cons, Clock.canRead_add] at hclock
      obtain ⟨answer, hrun, hfault, hvalue⟩ := ih hrest (hpast s [] times hs) hclock.2
      refine ⟨answer, ?_, hfault, hvalue⟩
      have haction : (Action.run (.tick times)).perform s = (.ok none, s.past [] times) := by
        unfold Action.run
        rw [Act.perform_bind_ok (perform_around_tick_after times hclock.1)]
        rfl
      rw [Body.run, Act.perform_bind_ok haction]
      rw [past_past] at hrun
      exact hrun
    | fire e =>
      obtain ⟨answer, hrun, hfault, hvalue⟩ := ih hrest (hpast s [e] 0 hs) hclock
      refine ⟨answer, ?_, hfault, hvalue⟩
      have haction : (Action.run (.fire e)).perform s = (.ok none, s.past [e] 0) := by
        unfold Action.run
        rw [Act.perform_bind_ok (hfire e List.mem_cons_self s hs)]
        rfl
      rw [Body.run, Act.perform_bind_ok haction]
      rw [past_past, Nat.zero_add] at hrun
      exact hrun
    | assume condition message? =>
      cases hcond : condition.isTruthy with
      | true =>
        rw [Body.readings, if_pos hcond] at hclock
        rw [Body.fired, Body.readings, Body.fault?, if_pos hcond, if_pos hcond, if_pos hcond,
          Body.run, Act.perform_bind_ok (perform_assume_pass hcond message? s)]
        exact ih hrest hs hclock
      | false =>
        have hne : ¬ condition.isTruthy = true := by rw [hcond]; exact Bool.false_ne_true
        rw [Body.fired, Body.readings, Body.fault?, if_neg hne, if_neg hne, if_neg hne,
          List.sum_nil, past_nil, Body.run,
          Act.perform_bind_error (perform_assume_fail hne message? s)]
        refine ⟨_, rfl, fun f hf => ?_, fun hf => ?_⟩
        · cases hf
          rfl
        · cases hf

theorem takes_invoke (i : Identifier) {body? : Option Body}
    (hbody : ∀ body, body? = some body → ∀ action ∈ body, action.IsCalm) :
    Takes (invoke body?) (.after (Body.raised? body?)) [.run i body?] := by
  intro s hs hclock
  cases body? with
  | none =>
    rw [show s.afterSteps [.run i none] = s from s.past_nil]
    rfl
  | some body =>
    have hcalm := hbody body rfl
    have hlaps : readingsAll [.run i (some body)] = body.readings.sum := Nat.add_zero _
    have hheard : heardAll [.run i (some body)] = body.fired := List.append_nil _
    have hfire (e : Event) (he : .fire e ∈ body) (s : Session) (hs : s.Recording) :
        (deliver e).perform s = (.ok (), s.past [e] 0) := by
      refine perform_deliver_recorded ?_ hs
      rintro rfl
      exact hcalm _ he
    have hquiet {f : Fault} (hf : Body.raised? (some body) = some f) : f.isInterrupt = false :=
      Body.not_interrupt (fun t ht => hcalm (.raise t) ht) hf
    rw [hlaps] at hclock
    obtain ⟨answer, hrun, hfault, hvalue⟩ :=
      perform_body_past (fun s es n hs => Recording.past hs es n) hfire hs hclock
    unfold afterSteps
    rw [hlaps, hheard, perform_invoke_of_run hrun hfault hvalue, Body.outcome_eq_ok hquiet]

theorem takes_recurseAll {parent? : Option String} {ns : List SuiteNode}
    (h : ∀ m ∈ ns, Takes (m.recurse parent?) () (m.block parent?)) :
    Takes (recurseAll parent? ns) () (blockAll parent? ns) := by
  induction ns with
  | nil =>
    rw [recurseAll, blockAll]
    exact takes_pure ()
  | cons n rest ih =>
    rw [recurseAll, blockAll]
    exact (h n List.mem_cons_self).bind (ih fun m hm => h m (List.mem_cons_of_mem n hm))

theorem takes_recurse (n : SuiteNode) (parent? : Option String)
    (hcalm : ∀ entry ∈ n.listing parent?, ∀ body ∈ entry.2.code, ∀ action ∈ body, action.IsCalm) :
    Takes (n.recurse parent?) () (n.block parent?) := by
  induction n using induct generalizing parent? with
  | step n ih =>
    rw [listing_eq] at hcalm
    have hcode := hcalm _ List.mem_cons_self
    cases hskip : n.label.skip? with
    | some reason =>
      rw [recurse_skipped hskip, block_skipped hskip]
      exact takes_tell (.skipped _ (some reason))
    | none =>
      cases n with
      | test label body? =>
        let i := (test label body?).identifier parent?
        have hbody : ∀ body, body? = some body → ∀ action ∈ body, action.IsCalm :=
          fun body h => hcode body (mem_code_of_body h)
        rw [recurse_test (show label.skip? = none from hskip),
          block_test (show label.skip? = none from hskip)]
        exact (takes_tell (.started i)).bind
          ((takes_invoke i hbody).bind (takes_tell (.finished i _)))
      | group isEngine label hooks children =>
        let i := (group isEngine label hooks children).identifier parent?
        have hbefore : ∀ body, hooks.before? = some body → ∀ action ∈ body, action.IsCalm :=
          fun body h => hcode body (mem_code_of_before h)
        have hafter : ∀ body, hooks.after? = some body → ∀ action ∈ body, action.IsCalm :=
          fun body h => hcode body (mem_code_of_after h)
        have hchildren : Takes (recurseAll (some i.id) children) () (blockAll (some i.id) children) :=
          takes_recurseAll fun m hm => ih m hm _ fun entry hentry =>
            hcalm entry (List.mem_cons_of_mem _ (mem_listingAll.2 ⟨m, hm, hentry⟩))
        have hend (which : ExecutionResult → ExecutionResult) : Takes (do
            let after ← invoke hooks.after?
            deliver (.finished i (which after))) () [.run i hooks.after?,
              .tell (.finished i (which (.after (Body.raised? hooks.after?))))] :=
          (takes_invoke i hafter).bind (takes_tell (.finished i _))
        rw [recurse_group (show label.skip? = none from hskip),
          block_group (show label.skip? = none from hskip)]
        dsimp only
        rw [List.append_assoc]
        refine (takes_tell (.started i)).bind ((takes_invoke i hbefore).bind ?_)
        split
        · exact hchildren.bind (hend id)
        · exact hend fun _ => .after (Body.raised? hooks.before?)

section Run

variable {p : Plan} {forest : List SuiteNode} {s : Session}

def RecordingOn (p : Plan) (s : Session) : Prop := s.Recording ∧ s.plan = p

theorem keeps_deliver_recorded (e : Event) : Act.Keeps (RecordingOn p) (deliver e) := by
  have hseat : ∀ seat, seat = .recorder ∨ seat = .silent →
      Act.Keeps (RecordingOn p) (hearAt e seat) := by
    rintro seat (rfl | rfl) s hs
    · rcases e with q | (_ | q) | i | i | ⟨i, reason?⟩ | ⟨i, result⟩ <;>
        exact ⟨⟨hs.1.one_recorder, hs.1.seats⟩, hs.2⟩
    · exact hs
  exact Act.Keeps.of_get fun s hs => Act.keeps_forM (fun seat hmem =>
    hseat seat (hs.1.seats seat hmem)) s hs

theorem steady_recording (p : Plan) (forest : List SuiteNode) :
    Steady (RecordingOn p) p forest := by
  refine ⟨fun s hs => hs.2, fun c _ => keeps_deliver_recorded _, fun entry _ body _ => ?_⟩
  exact keeps_invoke (fun s x hs => ⟨⟨hs.1.one_recorder, hs.1.seats⟩, hs.2⟩) fun e _ =>
    keeps_deliver_recorded e

theorem perform_openPlan_recorded (hs : s.Recording) (d : Discovery) :
    ∃ s₁, (openPlan d).perform s = (.ok (), s₁) ∧
      RecordingOn (.ofList (s.plansMade + 1) d.identifiers) s₁ ∧
      s₁.heard = s.heard.push (.planStarted (.ofList (s.plansMade + 1) d.identifiers)) ∧
      s₁.surroundings.clock = s.surroundings.clock := by
  let p := Plan.ofList (s.plansMade + 1) d.identifiers
  have hplanned : (s.planned d).Recording := ⟨hs.one_recorder, hs.seats⟩
  have hne : Event.planStarted p ≠ .planFinished none := nofun
  refine ⟨(s.planned d).past [.planStarted p] 0, ?_, ⟨hplanned.past _ _, rfl⟩,
    Array.push_eq_append.symm, rfl⟩
  rw [perform_openPlan_eq]
  exact perform_deliver_recorded hne hplanned

theorem perform_run_recorded {d : Discovery} (hd : Discovery.ofForest forest = .ok d)
    {r : Runner} (hr : r.workers = 1) (hs : s.Recording) (hcalm : CalmForest forest)
    (hclock : s.surroundings.clock.CanRead (readingsAll (blockAll none forest))) :
    ∃ s', (Session.run r forest).perform s = (.ok (), s') ∧
      s'.heard.toList = s.heard.toList ++
        .planStarted (.ofList (s.plansMade + 1) d.identifiers) ::
          heardAll (blockAll none forest) ++
            [.planFinished (some (.ofList (s.plansMade + 1) d.identifiers))] ∧
      s'.surroundings.clock =
        s.surroundings.clock.after (readingsAll (blockAll none forest)) := by
  obtain ⟨s₁, hopen, hs₁, hheard, hsame⟩ := perform_openPlan_recorded hs d
  have hfirst : RecordingOn (.ofList (s.plansMade + 1) d.identifiers) ((openPlan d).perform s).2 := by
    rw [hopen]
    exact hs₁
  have hforest : Takes (recurseAll none forest) () (blockAll none forest) :=
    takes_recurseAll fun e he => takes_recurse e none fun entry hentry =>
      hcalm entry (mem_listingAll.2 ⟨e, he, hentry⟩)
  have hblocks := hforest s₁ hs₁.1 (hsame ▸ hclock)
  let s₂ := s₁.afterSteps (blockAll none forest)
  have hs₂ : s₂.Recording := hs₁.1.past _ _
  have hplan : s₂.plan = .ofList (s.plansMade + 1) d.identifiers := hs₁.2
  have hclose : closePlan.perform s₂ = (.ok (), s₂.past [.planFinished (some s₂.plan)] 0) := by
    have hne : Event.planFinished (some s₂.plan) ≠ .planFinished none := nofun
    unfold closePlan
    rw [Act.perform_get_bind]
    exact perform_deliver_recorded hne hs₂
  refine ⟨s₂.past [.planFinished (some s₂.plan)] 0, ?_, ?_, ?_⟩
  · rw [(steady_recording _ forest).run_eq hd (Plan.ofList_lists hd _) hfirst hr]
    unfold runRecursively
    rw [Act.perform_bind_ok hopen, Act.perform_bind_ok hblocks]
    exact hclose
  · have hlist (s : Session) (es : List Event) (n : Nat) :
        (s.past es n).heard.toList = s.heard.toList ++ es := Array.toList_append
    have hblock : s₂.heard.toList = s₁.heard.toList ++ heardAll (blockAll none forest) := hlist ..
    rw [hlist, hplan, hblock, hheard, Array.toList_push, List.append_assoc s.heard.toList]
    rfl
  · change (s₁.surroundings.clock.after _).after 0 = _
    rw [hsame]
    rfl

/-- A runner with one worker does what recursion on the forest does. A recorder hears the start of
the plan, the block of each root in order, and the end of the plan. Each node of the forest has its
block in one place or nowhere, and the steps on its own identifier are those of the node or none. -/
theorem run_takes_blocks {d : Discovery} (hd : Discovery.ofForest forest = .ok d) {r : Runner}
    (hr : r.workers = 1) :
    let steps := blockAll none forest
    (∀ s : Session, s.Settled → MuteForest forest →
      (Session.run r forest).perform s = (runRecursively d forest).perform s) ∧
    (∀ s : Session, s.Recording → CalmForest forest →
      s.surroundings.clock.CanRead (readingsAll steps) →
      let p := Plan.ofList (s.plansMade + 1) d.identifiers
      p.Lists forest ∧ ∃ s', (Session.run r forest).perform s = (.ok (), s') ∧
        s'.heard.toList = s.heard.toList ++ .planStarted p :: heardAll steps ++
          [.planFinished (some p)] ∧
        s'.surroundings.clock = s.surroundings.clock.after (readingsAll steps)) ∧
    ∀ i n, (i, n) ∈ listingAll none forest →
      Placed steps (n.block i.parent) (n.identifiersIn i.parent) ∧
      ((steps.filter fun step => step.identifier = i) = n.own i.parent ∨
        (steps.filter fun step => step.identifier = i) = []) := by
  have hnodup : (identifiersInAll none forest).Nodup :=
    .of_map (·.id) (Plan.ofList_lists hd 0).nodup
  refine ⟨fun s hs hmute => run_eq_runRecursively hd hmute hr hs, fun s hs hcalm hclock =>
    ⟨Plan.ofList_lists hd _, perform_run_recorded hd hr hs hcalm hclock⟩, fun i n hmem => ?_⟩
  obtain ⟨e, he, hin⟩ := mem_listingAll.1 hmem
  obtain ⟨q, rfl, hsub⟩ := listing_of_mem hin
  have hroot : (e.identifiersIn none).Nodup := (sublist_of_mem he).nodup hnodup
  have hplaced := placed_blockAll hnodup he (identifiersIn_subset hin) (placed_block hroot hin)
  exact ⟨hplaced, filter_of_placed ((hsub.map _).nodup hroot) hplaced⟩

/-- The setup of an inner container gives up, its teardown and that of the engine announce themselves,
and a container is skipped; and a container without code before the writer and the console. -/
theorem run_takes_blocks_marked :
    let mark (id : String) : Event := .registered ⟨id, id, none, .test⟩
    let test := SuiteNode.test ⟨"t", none, none⟩ (some [.tick 1, .fire (mark "body")])
    let inner := SuiteNode.group false ⟨"c", none, none⟩
      ⟨some [.abort none], some [.fire (mark "inner")]⟩ [test]
    let left := SuiteNode.group false ⟨"s", none, some "later"⟩ .none [test]
    let engine := SuiteNode.group true ⟨"e", none, none⟩
      ⟨none, some [.fire (mark "outer")]⟩ [inner, test, left]
    let quiet := SuiteNode.group true ⟨"q", none, none⟩ .none [.test ⟨"t", none, none⟩ none]
    let o : Writer.Settings := ⟨.ofString "out", none, [], false, none⟩
    let s := Session.fresh (.bare (.fixed .epoch)) o [.silent, .recorder]
    let s' := Session.fresh (.bare (.fixed .epoch)) o [.console, .writer]
    let i : Identifier := ⟨"e", "e", none, .engine⟩
    let c : Identifier := ⟨"e:c", "c", some "e", .container⟩
    let t : Identifier := ⟨"e:t", "t", some "e", .test⟩
    let gaveUp := ExecutionResult.aborted (.ofThrown (.make .testAborted [.text ""] true))
    ∃ d d', Discovery.ofForest [engine] = .ok d ∧ Discovery.ofForest [quiet] = .ok d' ∧
      (Session.run ⟨1, by decide⟩ [quiet]).perform s' = (runRecursively d' [quiet]).perform s' ∧
      (∃ after, (Session.run ⟨1, by decide⟩ [engine]).perform s = (.ok (), after) ∧
        after.heard.toList = [.planStarted (.ofList 1 d.identifiers), .started i, .started c,
          mark "inner", .finished c gaveUp, .started t, mark "body", .finished t .successful,
          .skipped ⟨"e:s", "s", some "e", .container⟩ (some "later"), mark "outer",
          .finished i .successful, .planFinished (some (.ofList 1 d.identifiers))]) ∧
      ((blockAll none [engine]).filter fun step => step.identifier = t) = test.own (some "e") := by
  intro mark test inner left engine quiet o s s' i c t gaveUp
  obtain ⟨d, hd⟩ : ∃ d, Discovery.ofForest [engine] = .ok d := ⟨_, rfl⟩
  obtain ⟨d', hd'⟩ : ∃ d, Discovery.ofForest [quiet] = .ok d := ⟨_, rfl⟩
  have hone : (⟨1, by decide⟩ : Runner).workers = 1 := rfl
  have hmute : MuteForest [quiet] := by
    intro entry hentry body hbody
    have hcode : ∀ entry ∈ listingAll none [quiet], entry.2.code = [] := by
      simp [quiet, listingAll, listing, code, Hooks.none]
    rw [hcode entry hentry] at hbody
    cases hbody
  have hrecording : s.Recording := ⟨by decide, by decide⟩
  have hcalm : CalmForest [engine] := by decide
  have hclock : s.surroundings.clock.CanRead (readingsAll (blockAll none [engine])) :=
    (Clock.fixed_reliable .epoch).neverFails.canRead _
  obtain ⟨hquiet, -, -⟩ := run_takes_blocks hd' hone
  obtain ⟨-, hrecorded, hplaced⟩ := run_takes_blocks hd hone
  obtain ⟨-, after, hrun, hheard, -⟩ := hrecorded s hrecording hcalm hclock
  have hsteps : heardAll (blockAll none [engine]) = [.started i, .started c, mark "inner",
      .finished c gaveUp, .started t, mark "body", .finished t .successful,
      .skipped ⟨"e:s", "s", some "e", .container⟩ (some "later"), mark "outer",
      .finished i .successful] := by rfl
  have hlisted : (t, test) ∈ listingAll none [engine] := .tail _ (.tail _ (.tail _ (.head _)))
  have hstarted : Step.tell (.started t) ∈ blockAll none [engine] :=
    .tail _ (.tail _ (.tail _ (.tail _ (.tail _ (.tail _ (.head _))))))
  refine ⟨d, d', hd, hd', hquiet s' (settled_fresh _ _ _) hmute, ⟨after, hrun, ?_⟩, ?_⟩
  · rw [hheard, hsteps]
    rfl
  · rcases (hplaced t test hlisted).2 with hown | hnone
    · exact hown
    · exact absurd (decide_eq_true rfl) (List.filter_eq_nil_iff.1 hnone _ hstarted)

end Run

end Session

end TestRun
