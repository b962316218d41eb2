import TestRun.Proofs.Suite.Reporting
set_option autoImplicit false

namespace TestRun

open TestRun.Tree (Call)
open Writer (Settings)
open Files (Path)

namespace SuiteNode

def code : SuiteNode → List Body
  | test _ body? => body?.toList
  | group _ _ hooks _ => hooks.before?.toList ++ hooks.after?.toList

section Code

variable {label : Label} {isEngine : Bool} {hooks : Hooks} {children : List SuiteNode}
variable {body? : Option Body} {body : Body}

theorem mem_code_of_body (h : body? = some body) : body ∈ (test label body?).code :=
  Option.mem_toList.2 h

theorem mem_code_of_before (h : hooks.before? = some body) :
    body ∈ (group isEngine label hooks children).code :=
  List.mem_append_left _ (Option.mem_toList.2 h)

theorem mem_code_of_after (h : hooks.after? = some body) :
    body ∈ (group isEngine label hooks children).code :=
  List.mem_append_right _ (Option.mem_toList.2 h)

end Code

end SuiteNode

/-- No hook and no body of a forest announces events or raises an interrupt. -/
def PlainForest (forest : List SuiteNode) : Prop :=
  ∀ entry ∈ SuiteNode.listingAll none forest, ∀ body ∈ entry.2.code, body.IsPlain

instance : DecidablePred PlainForest :=
  fun forest => inferInstanceAs (Decidable
    (∀ entry ∈ SuiteNode.listingAll none forest, ∀ body ∈ entry.2.code, body.IsPlain))

theorem ExecutionResult.status_after (f? : Option Fault) :
    (ExecutionResult.after f?).status = .successful ↔ f? = none := by
  cases f? with
  | none => exact ⟨fun _ => rfl, fun _ => rfl⟩
  | some f =>
    have hne : (ExecutionResult.after (some f)).status ≠ .successful := by
      change (if f.isAbort then ExecutionResult.aborted f.cause
        else ExecutionResult.failed f.cause).status ≠ _
      cases f.isAbort <;> intro h <;> cases h
    exact ⟨fun h => absurd h hne, nofun⟩

namespace Session

open SuiteNode

variable {o : Settings} {directory? : Option Path} {p : Plan} {aware : Bool}
variable {log : List Call} {s : Session} {forest : List SuiteNode}

theorem perform_of_play_singleton {m : Moment} {s' : Session}
    (h : (play [m]).perform s = (.ok (), s')) : m.act.perform s = (.ok (), s') := by
  unfold play at h
  rw [Act.perform_forM_cons, Act.perform_bind] at h
  rcases hm : m.act.perform s with ⟨f | _, s₁⟩ <;> rw [hm] at h
  · cases h
  · exact h

theorem Follows.call (h : s.Follows o directory? p aware log) {c : Call}
    (hc : c.identifier.id ∈ p.ids) :
    ∃ s', (deliver c.event).perform s = (.ok (), s') ∧
      Played o directory? p aware log [.call c] s s' := by
  have hms : ∀ d ∈ callsOf [.call c], d.identifier.id ∈ p.ids := by
    intro d hd
    obtain rfl := List.mem_singleton.1 hd
    exact hc
  obtain ⟨s', hplayed⟩ := h.play hms
  exact ⟨s', perform_of_play_singleton hplayed.perform_eq, hplayed⟩

theorem Follows.invoke_mute (h : s.Follows o directory? p aware log) {body? : Option Body}
    (hmute : ∀ body, body? = some body → ∀ e, .fire e ∉ body) :
    ∃ s', (invoke body?).perform s = (Body.outcome body?, s') ∧
      Played o directory? p aware log (Moment.reads (Body.readingsOf body?)) s s' := by
  have hms : ∀ d ∈ callsOf (Moment.reads (Body.readingsOf body?)), d.identifier.id ∈ p.ids := by
    rw [callsOf_reads]
    exact nofun
  obtain ⟨s₁, hplayed⟩ := h.play hms
  obtain ⟨s', hinvoke, hread⟩ := perform_invoke_mute hmute h.underway.clock
  have heq := hplayed.perform_eq
  rw [perform_play_reads, hread] at heq
  cases heq
  exact ⟨_, hinvoke, hplayed⟩

theorem Follows.invoke (h : s.Follows o directory? p aware log) {body? : Option Body}
    (hbody : ∀ body, body? = some body → body.IsPlain) :
    ∃ s', (invoke body?).perform s = (.ok (.after (Body.raised? body?)), s') ∧
      Played o directory? p aware log (Moment.reads (Body.readingsOf body?)) s s' := by
  obtain ⟨s', hinvoke, hplayed⟩ := h.invoke_mute fun body hb => (hbody body hb).mute
  rw [Body.outcome_eq_ok (Body.raised_not_interrupt hbody)] at hinvoke
  exact ⟨s', hinvoke, hplayed⟩

/-- What executing an identifier does if it follows a schedule of a node. -/
def Executes (o : Settings) (directory? : Option Path) (p : Plan) (aware : Bool)
    (act : Act Session Unit) (schedule : List Moment → Prop) : Prop :=
  ∀ s log, s.Follows o directory? p aware log →
    ∃ ms s', schedule ms ∧ act.perform s = (.ok (), s') ∧
      Played o directory? p aware log ms s s'

theorem eachChild_executes {parent? : Option String} {ns : List SuiteNode}
    {act : Identifier → Act Session Unit} (workers : Bool)
    (h : ∀ m ∈ ns, Executes o directory? p aware (act (m.identifier parent?)) (Runs parent? m)) :
    Executes o directory? p aware (eachChild workers act (ns.map (identifier · parent?)) none)
      (RunsAll parent? ns) := by
  induction ns with
  | nil =>
    intro s log hs
    exact ⟨[], s, .nil, rfl, hs.play_nil⟩
  | cons n rest ih =>
    intro s log hs
    obtain ⟨xs, s₁, hxs, hact, hplayed₁⟩ := h n List.mem_cons_self s log hs
    obtain ⟨ys, s₂, hys, hrest, hplayed₂⟩ :=
      ih (fun m hm => h m (List.mem_cons_of_mem _ hm)) s₁ _ hplayed₁.follows
    refine ⟨xs ++ ys, s₂, .cons hxs hys (Interleave.append xs ys), ?_, hplayed₁.append hplayed₂⟩
    rw [List.map_cons, eachChild]
    split
    · have hattempt : (act (n.identifier parent?)).attempt.perform s = (.ok (.ok ()), s₁) := by
        rw [Act.perform_attempt, hact]
      rw [Act.perform_bind_ok hattempt]
      exact hrest
    · rw [Act.perform_bind_ok hact]
      exact hrest

section Node

variable {nodes : Table String SuiteNode} {workers : Bool} {depth : Nat} {parent? : Option String}
variable {n : SuiteNode} {label : Label} {body? : Option Body} {isEngine : Bool} {hooks : Hooks}
variable {children : List SuiteNode}

theorem executes_skipped (hnode : nodes.get? (n.identifier parent?).id = some n)
    (hid : (n.identifier parent?).id ∈ p.ids) {reason : String}
    (hskip : n.label.skip? = some reason) :
    Executes o directory? p aware (execute nodes workers (depth + 1) (n.identifier parent?))
      (Runs parent? n) := by
  intro s log hs
  obtain ⟨s', hact, hplayed⟩ := hs.call (c := .skipped (n.identifier parent?) (some reason)) hid
  refine ⟨_, s', .skipped hskip, ?_, hplayed⟩
  rw [execute, hnode]
  dsimp only
  rw [hskip]
  exact hact

theorem executes_test
    (hnode : nodes.get? ((test label body?).identifier parent?).id = some (test label body?))
    (hid : ((test label body?).identifier parent?).id ∈ p.ids)
    (hskip : (test label body?).label.skip? = none)
    (hcode : ∀ body ∈ (test label body?).code, body.IsPlain) :
    Executes o directory? p aware
      (execute nodes workers (depth + 1) ((test label body?).identifier parent?))
      (Runs parent? (test label body?)) := by
  intro s log hs
  let i := (test label body?).identifier parent?
  have hbody : ∀ body, body? = some body → body.IsPlain :=
    fun body h => hcode body (mem_code_of_body h)
  obtain ⟨s₁, hstart, hplayed₁⟩ := hs.call (c := .started i) hid
  obtain ⟨s₂, hinvoke, hplayed₂⟩ := hplayed₁.follows.invoke hbody
  obtain ⟨s₃, hfinish, hplayed₃⟩ := hplayed₂.follows.call
    (c := .finished i (.after (Body.raised? body?))) hid
  refine ⟨_, s₃, .test hskip, ?_, hplayed₁.append (hplayed₂.append hplayed₃)⟩
  rw [execute, hnode]
  dsimp only
  rw [hskip]
  exact (Act.perform_bind_ok hstart _).trans ((Act.perform_bind_ok hinvoke _).trans hfinish)

theorem executes_blocked
    (hnode : nodes.get? ((group isEngine label hooks children).identifier parent?).id =
      some (group isEngine label hooks children))
    (hid : ((group isEngine label hooks children).identifier parent?).id ∈ p.ids)
    (hskip : (group isEngine label hooks children).label.skip? = none)
    (hcode : ∀ body ∈ (group isEngine label hooks children).code, body.IsPlain)
    {f : Fault} (hraised : Body.raised? hooks.before? = some f) :
    Executes o directory? p aware
      (execute nodes workers (depth + 1) ((group isEngine label hooks children).identifier parent?))
      (Runs parent? (group isEngine label hooks children)) := by
  intro s log hs
  let i := (group isEngine label hooks children).identifier parent?
  obtain ⟨s₁, hstart, hplayed₁⟩ := hs.call (c := .started i) hid
  obtain ⟨s₂, hsetup, hplayed₂⟩ := hplayed₁.follows.invoke
    fun body h => hcode body (mem_code_of_before h)
  obtain ⟨s₃, hteardown, hplayed₃⟩ := hplayed₂.follows.invoke
    fun body h => hcode body (mem_code_of_after h)
  obtain ⟨s₄, hfinish, hplayed₄⟩ := hplayed₃.follows.call
    (c := .finished i (.after (some f))) hid
  have hfailed : ¬ (ExecutionResult.after (some f)).status = .successful := by
    rw [ExecutionResult.status_after]
    exact nofun
  refine ⟨_, s₄, .blocked hskip hraised, ?_,
    hplayed₁.append (hplayed₂.append (hplayed₃.append hplayed₄))⟩
  rw [hraised] at hsetup
  rw [execute, hnode]
  dsimp only
  rw [hskip]
  refine (Act.perform_bind_ok hstart _).trans ((Act.perform_bind_ok hsetup _).trans ?_)
  rw [if_neg hfailed, Act.perform_bind_ok hteardown, if_neg hfailed]
  exact hfinish

theorem executes_group
    (hnode : nodes.get? ((group isEngine label hooks children).identifier parent?).id =
      some (group isEngine label hooks children))
    (hid : ((group isEngine label hooks children).identifier parent?).id ∈ p.ids)
    (hskip : (group isEngine label hooks children).label.skip? = none)
    (hcode : ∀ body ∈ (group isEngine label hooks children).code, body.IsPlain)
    (hraised : Body.raised? hooks.before? = none)
    (hchildren : p.children ((group isEngine label hooks children).uniqueId parent?) =
      children.map (identifier · (some ((group isEngine label hooks children).uniqueId parent?))))
    (hbelow : ∀ m ∈ children, Executes o directory? p aware
      (execute nodes workers depth
        (m.identifier (some ((group isEngine label hooks children).uniqueId parent?))))
      (Runs (some ((group isEngine label hooks children).uniqueId parent?)) m)) :
    Executes o directory? p aware
      (execute nodes workers (depth + 1) ((group isEngine label hooks children).identifier parent?))
      (Runs parent? (group isEngine label hooks children)) := by
  intro s log hs
  let i := (group isEngine label hooks children).identifier parent?
  obtain ⟨s₁, hstart, hplayed₁⟩ := hs.call (c := .started i) hid
  obtain ⟨s₂, hsetup, hplayed₂⟩ := hplayed₁.follows.invoke
    fun body h => hcode body (mem_code_of_before h)
  obtain ⟨inner, s₃, hinner, hchild, hplayed₃⟩ :=
    eachChild_executes workers hbelow s₂ _ hplayed₂.follows
  obtain ⟨s₄, hteardown, hplayed₄⟩ := hplayed₃.follows.invoke
    fun body h => hcode body (mem_code_of_after h)
  obtain ⟨s₅, hfinish, hplayed₅⟩ := hplayed₄.follows.call
    (c := .finished i (.after (Body.raised? hooks.after?))) hid
  have hplan : s₂.plan.children i.id = children.map (identifier · (some
      ((group isEngine label hooks children).uniqueId parent?))) := by
    rw [hplayed₂.follows.underway.holds.plan_eq]
    exact hchildren
  have hpassed : (ExecutionResult.after none).status = .successful := rfl
  refine ⟨_, s₅, .group hskip hraised hinner, ?_,
    hplayed₁.append (hplayed₂.append (hplayed₃.append (hplayed₄.append hplayed₅)))⟩
  rw [hraised] at hsetup
  rw [execute, hnode]
  dsimp only
  rw [hskip]
  refine (Act.perform_bind_ok hstart _).trans ((Act.perform_bind_ok hsetup _).trans ?_)
  rw [if_pos hpassed, Act.perform_get_bind, hplan, Act.perform_bind_ok hchild,
    Act.perform_bind_ok hteardown, if_pos hpassed]
  exact hfinish

end Node

theorem execute_executes {nodes : Table String SuiteNode} (workers : Bool)
    (hp : p.Lists forest) (hplain : PlainForest forest)
    (hnodes : ∀ i n, (i, n) ∈ listingAll none forest → nodes.get? i.id = some n)
    (n : SuiteNode) (parent? : Option String) (depth : Nat)
    (hlisted : ∀ entry ∈ n.listing parent?, entry ∈ listingAll none forest)
    (hdepth : (n.listing parent?).length ≤ depth) :
    Executes o directory? p aware (execute nodes workers depth (n.identifier parent?))
      (Runs parent? n) := by
  induction n using induct generalizing parent? depth with
  | step n ih =>
    rw [listing_eq, List.length_cons] at hdepth
    obtain ⟨depth, rfl⟩ : ∃ d, depth = d + 1 := ⟨depth - 1, by omega⟩
    have hmem : (n.identifier parent?, n) ∈ listingAll none forest := by
      apply hlisted
      rw [listing_eq]
      exact List.mem_cons_self
    have hnode := hnodes _ _ hmem
    have hid : (n.identifier parent?).id ∈ p.ids := List.mem_map_of_mem (hp.mem hmem)
    have hcode := hplain _ hmem
    cases hskip : n.label.skip? with
    | some reason => exact executes_skipped hnode hid hskip
    | none =>
      cases n with
      | test label body? => exact executes_test hnode hid hskip hcode
      | group isEngine label hooks children =>
        cases hraised : Body.raised? hooks.before? with
        | some f => exact executes_blocked hnode hid hskip hcode hraised
        | none =>
          refine executes_group hnode hid hskip hcode hraised (hp.children_eq hmem) fun m hm => ?_
          refine ih m hm _ depth (fun entry hentry => ?_) ?_
          · apply hlisted
            rw [listing_eq]
            exact List.mem_cons_of_mem _ (mem_listingAll.2 ⟨m, hm, hentry⟩)
          · exact Nat.le_trans (sublist_listing hm).length_le (Nat.le_of_succ_le_succ hdepth)

theorem forM_executes {es : List SuiteNode} {act : Identifier → Act Session Unit}
    (h : ∀ e ∈ es, Executes o directory? p aware (act (e.identifier none)) (Runs none e)) :
    Executes o directory? p aware ((es.map (identifier · none)).forM act) (RunsForest es) := by
  induction es with
  | nil =>
    intro s log hs
    exact ⟨[], s, .nil, rfl, hs.play_nil⟩
  | cons e rest ih =>
    intro s log hs
    obtain ⟨xs, s₁, hxs, hact, hplayed₁⟩ := h e List.mem_cons_self s log hs
    obtain ⟨ys, s₂, hys, hrest, hplayed₂⟩ :=
      ih (fun m hm => h m (List.mem_cons_of_mem _ hm)) s₁ _ hplayed₁.follows
    refine ⟨xs ++ ys, s₂, .cons hxs hys, ?_, hplayed₁.append hplayed₂⟩
    rw [List.map_cons, Act.perform_forM_cons, Act.perform_bind_ok hact]
    exact hrest

def openPlan (d : Discovery) : Act Session Unit := do
  modify fun s => s.newPlan d.identifiers
  let plan := (← get).plan
  around (Surroundings.debug ("Executing " ++ toString plan.roots.length ++ " engines, " ++
    toString plan.size ++ " nodes"))
  deliver (.planStarted plan)

def closePlan : Act Session Unit := do deliver (.planFinished (some (← get).plan))

def runAlong (d : Discovery) (ms : List Moment) : Act Session Unit := do
  openPlan d
  play ms
  closePlan

def builtAlong (d : Discovery) (ms : List Moment) (s : Session) : List EngineReport :=
  builtOver ms ((openPlan d).perform s).2

/-- The session can run a forest: its clock can be read, the writer is one of its listeners, and
finds its way on this host. A clock that lasts for the run does as well (`run_as_reliable`). -/
structure Ready (s : Session) (aware : Bool) : Prop where
  clock : s.surroundings.clock.Reliable aware
  fits : s.writer.settings.Fits s.surroundings.host
  one_writer : s.audience.count .writer = 1

def planText (p : Plan) : String :=
  "Executing " ++ toString p.roots.length ++ " engines, " ++ toString p.size ++ " nodes"

def planned (s : Session) (d : Discovery) : Session :=
  let p := Plan.ofList (s.plansMade + 1) d.identifiers
  { s with
    plan := p
    plansMade := s.plansMade + 1
    surroundings := { s.surroundings with log := s.surroundings.log.push ⟨.debug, planText p⟩ } }

theorem perform_openPlan_eq (d : Discovery) (s : Session) :
    (openPlan d).perform s =
      (deliver (.planStarted (.ofList (s.plansMade + 1) d.identifiers))).perform (s.planned d) := by
  have hdebug : (around (Surroundings.debug
      (planText (.ofList (s.plansMade + 1) d.identifiers)))).perform (s.newPlan d.identifiers) =
        (.ok (), s.planned d) := by
    unfold around
    rw [Act.perform_within, Surroundings.perform_debug]
    rfl
  unfold openPlan
  rw [Act.perform_modify_bind, Act.perform_get_bind]
  exact Act.perform_bind_ok hdebug _

theorem perform_openPlan {d : Discovery} (hd : Discovery.ofForest forest = .ok d)
    (hs : s.Ready aware) :
    let p := Plan.ofList (s.plansMade + 1) d.identifiers
    ∃ s₁ directory?, (openPlan d).perform s = (.ok (), s₁) ∧ p.Lists forest ∧
      s₁.Follows s.writer.settings directory? p aware [] ∧
      s₁.surroundings.host = s.surroundings.host := by
  intro p
  obtain ⟨s₁, directory?, hact, hfollows, -, hhost⟩ :=
    deliver_planStarted (s := s.planned d) (p := p) rfl hs.fits hs.clock hs.one_writer
  exact ⟨s₁, directory?, (perform_openPlan_eq d s).trans hact, Plan.ofList_lists hd _, hfollows,
    hhost⟩

theorem perform_runAlong {d : Discovery} (hd : Discovery.ofForest forest = .ok d)
    (hs : s.Ready aware) {ms : List Moment} (hms : RunsForest forest ms) :
    ∃ s' directory? p, (runAlong d ms).perform s = (.ok (), s') ∧ p.Lists forest ∧
      List.Forall₂ (ReportedBy p) forest (builtAlong d ms s) ∧
      s'.surroundings.disk = (builtAlong d ms s).foldl
        (Writer.store s.writer.settings.indent directory? s.surroundings.host.localOffset)
        ((openPlan d).perform s).2.surroundings.disk ∧
      ((openPlan d).perform s).2.plan = p := by
  obtain ⟨s₁, directory?, hopen, hp, hfollows, hhost⟩ := perform_openPlan hd hs
  obtain ⟨s₂, hplayed⟩ := hfollows.play (hms.id_mem_ids hp)
  have hended : ∀ root ∈ (Plan.ofList (s.plansMade + 1) d.identifiers).roots,
      Tree.endIn ([] ++ callsOf ms) root.id ≠ none := by
    intro root hroot
    rw [hp.roots_eq] at hroot
    obtain ⟨e, he, rfl⟩ := List.mem_map.1 hroot
    exact hms.ends he
  obtain ⟨s₃, hclose, -, hdisk⟩ := hplayed.follows.deliver_planFinished hended s₂.plan
  have hbuilt : builtAlong d ms s = builtOver ms s₁ := by
    unfold builtAlong
    rw [hopen]
  refine ⟨s₃, directory?, _, ?_, hp, ?_, ?_, ?_⟩
  · unfold runAlong closePlan
    rw [Act.perform_bind_ok hopen, Act.perform_bind_ok hplayed.perform_eq, Act.perform_get_bind]
    exact hclose
  · rw [hbuilt]
    have hfront : [] ++ forest <+: forest := List.prefix_rfl
    exact hms.reports hp hfront (fun _ hc => absurd hc List.not_mem_nil) hplayed.builds
  · rw [hbuilt, hdisk, hplayed.disk_eq, hhost, hopen]
  · rw [hopen]
    exact hfollows.underway.holds.plan_eq

/-- The runner runs a plain forest along one of its schedules, with any number of workers. -/
theorem perform_run {d : Discovery} (hd : Discovery.ofForest forest = .ok d) (hs : s.Ready aware)
    (hplain : PlainForest forest) (r : Runner) :
    ∃ ms, RunsForest forest ms ∧ (run r forest).perform s = (runAlong d ms).perform s := by
  let p := Plan.ofList (s.plansMade + 1) d.identifiers
  obtain ⟨s₁, directory?, hopen, hp, hfollows, -⟩ := perform_openPlan hd hs
  have hfinds := Discovery.finds_of_forest hd
  have hroots : ∀ e ∈ forest, Executes s.writer.settings directory? p aware
      (execute d.nodes r.isParallel (d.identifiers.length + 1) (e.identifier none))
      (Runs none e) := by
    intro e he
    refine execute_executes r.isParallel hp hplain hfinds.get?_mem e none _ ?_ ?_
    · exact fun entry hentry => mem_listingAll.2 ⟨e, he, hentry⟩
    · rw [hfinds.identifiers_eq, List.length_map]
      exact Nat.le_succ_of_le (sublist_listing he).length_le
  obtain ⟨ms, s₂, hms, hexecute, hplayed⟩ := forM_executes hroots s₁ [] hfollows
  refine ⟨ms, hms, ?_⟩
  unfold run
  rw [hd]
  have hrun : (runDiscovered d r.isParallel).perform s =
      (openPlan d >>= fun _ => get >>= fun s =>
        s.plan.roots.forM (execute d.nodes r.isParallel (d.identifiers.length + 1)) >>= fun _ =>
        closePlan).perform s := rfl
  change (runDiscovered d r.isParallel).perform s = _
  rw [hrun, Act.perform_bind_ok hopen, Act.perform_get_bind, hfollows.underway.holds.plan_eq,
    hp.roots_eq, Act.perform_bind_ok hexecute]
  unfold runAlong
  rw [Act.perform_bind_ok hopen, Act.perform_bind_ok hplayed.perform_eq]

end Session

end TestRun
