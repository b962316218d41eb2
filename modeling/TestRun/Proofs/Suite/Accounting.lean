import TestRun.Proofs.Listener.Pacing
import TestRun.Proofs.Suite.Counting
import TestRun.Proofs.Suite.Recording
set_option autoImplicit false

namespace TestRun

open Time
open TestRun.Tree (Call endIn startsIn readingAfter ticks)
open Writer (BuildsAll)
open Files (Path)

def StillForest (forest : List SuiteNode) : Prop :=
  ∀ entry ∈ SuiteNode.listingAll none forest, ∀ body ∈ entry.2.code, body.readings = []

instance : DecidablePred StillForest :=
  fun forest => inferInstanceAs (Decidable
    (∀ entry ∈ SuiteNode.listingAll none forest, ∀ body ∈ entry.2.code, body.readings = []))

namespace Step

def IsQuiet : Step → Prop
  | tell _ => True
  | run _ body? => ∀ body, body? = some body → body.IsPlain ∧ body.readings = []

variable {steps : List Step}

theorem momentsAll_of_quiet (h : ∀ step ∈ steps, step.IsQuiet) :
    momentsAll steps = (steps.filterMap call?).map Moment.call := by
  induction steps with
  | nil => rfl
  | cons step rest ih =>
    rw [momentsAll_cons, ih fun x hx => h x (List.mem_cons_of_mem step hx)]
    cases step with
    | tell c => rfl
    | run i body? =>
      have hreads : Body.readingsOf body? = [] := by
        cases body? with
        | none => rfl
        | some body => exact (h _ List.mem_cons_self body rfl).2
      rw [moments, hreads]
      rfl

end Step

/-- The times of the report on an engine that follows others in its forest, given the calls of a run
and the step of the clock. -/
structure EngineReport.Accounts (r : EngineReport) (step : Nat) (calls : List Call)
    (before : List SuiteNode) (e : SuiteNode) : Prop where
  id_eq : r.id = e.uniqueId none
  time_eq : r.time = step * ((before ++ [e]).map (SuiteNode.readings calls)).sum
  times_eq : r.testcases.map (fun c => (c.id, c.time)) =
    (e.nodesBelow.filter Identifier.isTest).map fun i =>
      (i.id, if startsIn calls i.id then (step : Int) else 0)

namespace SuiteNode

variable {forest : List SuiteNode}

theorem isQuiet_of_block (hplain : PlainForest forest) (hstill : StillForest forest) {step : Step}
    (h : step ∈ blockAll none forest) : step.IsQuiet := by
  cases step with
  | tell c => trivial
  | run i body? =>
    rintro body rfl
    obtain ⟨e, he, hrun⟩ := mem_blockAll.1 h
    obtain ⟨g, hg, hcode⟩ := mem_code_of_block hrun
    have hlisted := mem_listingAll.2 ⟨e, he, hg⟩
    exact ⟨hplain _ hlisted body hcode, hstill _ hlisted body hcode⟩

section Place

variable {p : Plan} {aware : Bool} {clock : Clock} {before after : List SuiteNode} {e : SuiteNode}
  {r : EngineReport}

theorem ends_toldAll (hnodup : ((identifiersInAll none (before ++ e :: after)).map (·.id)).Nodup) :
    ∃ first c, toldAll none (before ++ [e]) = first ++ [c] ∧ Call.ends (e.uniqueId none) c = true ∧
      first.any (Call.ends (e.uniqueId none)) = false := by
  obtain ⟨first, c, htold, -, hends, hfirst⟩ := told_ends none e
  have hearlier : (toldAll none before).any (Call.ends (e.uniqueId none)) = false := by
    refine List.any_eq_false.2 fun d hd hd' => ?_
    have hself : e.identifier none ∈ e.identifiersIn none := by
      rw [identifiersIn_eq]
      exact List.mem_cons_self
    exact (unheard_elsewhere hnodup).1 d hd _ hself (Call.id_of_ends hd')
  refine ⟨toldAll none before ++ first, c, ?_, hends, ?_⟩
  · rw [toldAll_append, toldAll_cons, toldAll_nil, List.append_nil, htold, List.append_assoc]
  · rw [List.any_append, hearlier, hfirst]
    rfl

theorem ticks_lt (hp : p.Lists forest) {earlier later : List Call} {c : Call}
    (h : toldAll none forest = earlier ++ c :: later) :
    ticks p [] earlier < ticks p [] (toldAll none forest) := by
  rcases List.eq_nil_or_concat' forest with rfl | ⟨es, e, rfl⟩
  · rw [toldAll_nil] at h
    exact absurd h.symm (List.append_ne_nil_of_right_ne_nil _ (List.cons_ne_nil _ _))
  · obtain ⟨first, z, hlast, hends, hfirst⟩ := ends_toldAll hp.nodup
    obtain hnil | ⟨middle, y, hrest⟩ := List.eq_nil_or_concat' (c :: later)
    · cases hnil
    · rw [hrest, ← List.append_assoc, hlast] at h
      obtain ⟨hfront, hz⟩ := List.append_inj' h rfl
      cases hz
      have hbusy : Tree.isIdle p ([] ++ first) z = false := (Tree.isIdle_of_ends hends).trans hfirst
      rw [hlast, Tree.ticks_concat_of_busy hbusy, hfront, Tree.ticks_append]
      omega

theorem builtAt_of_builtAmong (hp : p.Lists (before ++ e :: after))
    (h : r.BuiltAmong p aware clock (toldAll none (before ++ e :: after)))
    (hid : r.id = e.uniqueId none) :
    ∃ first c, toldAll none (before ++ [e]) = first ++ [c] ∧ r.BuiltAt p aware clock first c := by
  obtain ⟨earlier, d, later, hcalls, hbuilt⟩ := h
  obtain ⟨first, c, hlast, hends, hfirst⟩ := ends_toldAll hp.nodup
  have hd : d.identifier.id = e.uniqueId none := hbuilt.id_eq.symm.trans hid
  obtain ⟨hending, -, hnone⟩ := hbuilt.closes
  have hdends : Call.ends (e.uniqueId none) d = true :=
    Bool.and_eq_true_iff.2 ⟨beq_iff_eq.2 hd, hending⟩
  have hearlier : earlier.any (Call.ends (e.uniqueId none)) = false := by
    rw [Tree.any_ends, ← hd, hnone]
    rfl
  have hsplit : toldAll none (before ++ e :: after) = first ++ c :: toldAll none after := by
    rw [List.append_cons, toldAll_append, hlast, List.append_assoc]
    rfl
  -- both calls are the first that end the engine
  have hsame : earlier = first := by
    rw [← Tree.before_eq hearlier hdends later, ← hcalls, hsplit, Tree.before_eq hfirst hends]
  rw [hcalls, hsame] at hsplit
  cases List.append_cancel_left hsplit
  exact ⟨first, d, hlast, hsame ▸ hbuilt⟩

variable {start : Instant} {step : Nat} {t : Tree} {startedAt : Instant}

theorem spent_eq (hp : p.Lists (before ++ e :: after))
    (h : t.Stamped p (.stepping start step) (toldAll none (before ++ [e])))
    (hr : Tree.Reflects p (some startedAt) (toldAll none (before ++ [e])) t) (ht : t.Timed aware)
    {i : Identifier} (hi : i ∈ e.nodesBelow) (htest : i.isTest = true) (m : Int) :
    t.spent i.id m =
      if startsIn (toldAll none (before ++ e :: after)) i.id then (step : Int) else 0 := by
  have he : e ∈ before ++ e :: after := List.mem_append_right _ List.mem_cons_self
  have hroot := not_root_below hp he hi
  have hin := mem_identifiersIn_of_below hi
  have hsub : (identifiersInAll none (before ++ [e])).Sublist
      (identifiersInAll none (before ++ e :: after)) := by
    rw [List.append_cons before e after, identifiersInAll_append none (before ++ [e])]
    exact List.sublist_append_left _ _
  have hnodup := (hsub.map (·.id)).nodup hp.nodup
  have hsame : startsIn (toldAll none (before ++ e :: after)) i.id =
      startsIn (toldAll none (before ++ [e])) i.id := by
    rw [Tree.startsIn_eq, Tree.startsIn_eq, any_toldAll hp.nodup hin fun c => Call.id_of_starts,
      any_toldAll hnodup hin fun c => Call.id_of_starts]
  obtain ⟨⟨j, g⟩, hlisting, rfl⟩ := List.mem_map.1 hin
  obtain ⟨q, hj, -⟩ := listing_of_mem hlisting
  have hkind : g.kind = .test := by
    rw [show g.kind = j.kind from hj ▸ rfl]
    exact of_decide_eq_true htest
  have hlisted : (j, g) ∈ listingAll none (before ++ [e]) :=
    mem_listingAll.2 ⟨e, List.mem_append_right _ (List.mem_singleton_self e), hlisting⟩
  rw [hsame]
  rcases told_test hnodup hlisted hkind with hunstarted | ⟨earlier, c, later, hall, hc, hother⟩
  · rw [hunstarted, if_neg Bool.false_ne_true]
    exact hr.spent_of_unstarted hroot hunstarted m
  · have hstarted : startsIn (toldAll none (before ++ [e])) j.id = true := by
      rw [hall]
      exact List.any_eq_true.2 ⟨_, List.mem_append_right _ List.mem_cons_self, Call.starts_self j⟩
    rw [hstarted, if_pos rfl]
    exact h.spent_of_started hr ht hroot hall hc hother m

theorem accounts_of_builtAt (hp : p.Lists (before ++ e :: after)) {first : List Call} {c : Call}
    (hlast : toldAll none (before ++ [e]) = first ++ [c])
    (h : r.BuiltAt p aware (.stepping start step) first c) (hid : r.id = e.uniqueId none) :
    r.Accounts step (toldAll none (before ++ e :: after)) before e := by
  obtain ⟨run, now, hreflects, hstamped, hfirst, hnow, hkind, hreport⟩ := h.exists_run
  have hbusy : Tree.isIdle p ([] ++ first) c = false := by
    obtain ⟨hending, -, hnone⟩ := h.closes
    obtain ⟨ending, he⟩ := Option.isSome_iff_exists.1 hending
    rw [Tree.isIdle_of_ending he, List.nil_append, hnone]
    rfl
  -- the reading for the end of the engine is the last of those that are counted
  have hticks : ticks p [] first + 1 =
      ((before ++ [e]).map (readings (toldAll none (before ++ e :: after)))).sum := by
    rw [← ticks_front hp (List.append_cons before e after), hlast, Tree.ticks_concat_of_busy hbusy]
  have hlo : run.startedAt.moment = start.moment := by
    simpa using (Clock.moment_of_stepping (k := 0) hfirst).1
  have hhi : now.moment = start.moment + step * ((1 + ticks p [] first : Nat) : Int) :=
    (Clock.moment_of_stepping hnow).1
  rw [Nat.add_comm, hticks] at hhi
  have hle : run.startedAt.moment ≤ now.moment := by
    rw [hlo, hhi]
    exact Int.le_add_of_nonneg_right (Int.mul_nonneg (Int.natCast_nonneg _) (Int.natCast_nonneg _))
  obtain ⟨htime, htimes⟩ := Writer.Run.measures_of_report hreflects.timed hreflects.startedAt_kind
    hkind hle hreport
  refine ⟨hid, ?_, ?_⟩
  · rw [htime, hlo, hhi]
    exact add_sub_cancel_left _ _
  · have hrows := congrArg (List.map Prod.fst) (Writer.Run.report_eq_ok hreport).2.1
    have he : e ∈ before ++ e :: after := List.mem_append_right _ List.mem_cons_self
    rw [List.map_map, List.map_map, hreflects.plan_eq, hid, testsUnder_eq hp he] at hrows
    rw [← hlast] at hstamped hreflects
    calc r.testcases.map (fun c => (c.id, c.time))
      _ = r.testcases.map fun c => (c.id, run.tree.spent c.id now.moment) :=
          List.map_congr_left fun c hc => by rw [htimes c hc]
      _ = (r.testcases.map (·.id)).map fun id => (id, run.tree.spent id now.moment) := by
          rw [List.map_map]
          rfl
      _ = ((e.nodesBelow.filter Identifier.isTest).map (·.id)).map fun id =>
            (id, run.tree.spent id now.moment) := congrArg _ hrows
      _ = _ := by
          rw [List.map_map]
          refine List.map_congr_left fun i hi => ?_
          obtain ⟨hbelow, htest⟩ := List.mem_filter.1 hi
          exact congrArg _ (spent_eq hp hstamped hreflects.reflects hreflects.timed hbelow htest _)

end Place

end SuiteNode

namespace Session

open SuiteNode Step

variable {s s₁ : Session} {d : Discovery} {p : Plan} {forest : List SuiteNode} {steps : List Step}

theorem perform_invoke_quiet {body? : Option Body}
    (h : ∀ body, body? = some body → body.IsPlain ∧ body.readings = []) (s : Session) :
    (invoke body?).perform s = (.ok (.after (Body.raised? body?)), s) := by
  cases body? with
  | none => rfl
  | some body =>
    obtain ⟨hplain, hreadings⟩ := h body rfl
    have hfire : ∀ e, .fire e ∈ body → ∀ s : Session, True →
        (deliver e).perform s = (.ok (), s.past [e] 0) := fun e he => absurd he (hplain.mute e)
    have hclock : s.surroundings.clock.CanRead body.readings.sum := by
      rw [hreadings]
      exact fun k hk => absurd hk (Nat.not_lt_zero k)
    obtain ⟨answer, hrun, hfault, hvalue⟩ :=
      perform_body_past (P := fun _ => True) (fun _ _ _ _ => trivial) hfire trivial hclock
    rw [hreadings, List.sum_nil, Body.fired_of_mute hplain.mute, past_nil] at hrun
    have hquiet {f : Fault} (hf : Body.raised? (some body) = some f) : f.isInterrupt = false :=
      hplain.not_interrupt hf
    rw [perform_invoke_of_run hrun hfault hvalue, Body.outcome_eq_ok hquiet]

theorem perform_takeAll_quiet (h : ∀ step ∈ steps, step.IsQuiet) (s : Session) :
    (takeAll steps).perform s =
      (play ((steps.filterMap Step.call?).map Moment.call)).perform s := by
  induction steps generalizing s with
  | nil => rfl
  | cons step rest ih =>
    have hrest := ih fun x hx => h x (List.mem_cons_of_mem step hx)
    rw [perform_takeAll_cons, Act.perform_bind]
    cases step with
    | tell c =>
      have hcons : (Step.tell c :: rest).filterMap Step.call? =
          c :: rest.filterMap Step.call? := rfl
      unfold play at hrest ⊢
      rw [hcons, List.map_cons, Act.perform_forM_cons, Act.perform_bind,
        show (Moment.call c).act = (Step.tell c).act from rfl]
      rcases (Step.tell c).act.perform s with ⟨_ | _, s'⟩
      · rfl
      · exact hrest s'
    | run i body? =>
      have hact : (Step.run i body?).act.perform s = (.ok (), s) := by
        rw [perform_act_run, perform_invoke_quiet (h _ List.mem_cons_self)]
        rfl
      rw [hact]
      exact hrest s

theorem run_eq_runAlong (hd : Discovery.ofForest forest = .ok d) (hp : p.Lists forest)
    (hplain : PlainForest forest) (hstill : StillForest forest)
    (hopen : (openPlan d).perform s = (.ok (), s₁)) (hholds : s₁.Holds p) {r : Runner}
    (hr : r.workers = 1) :
    (run r forest).perform s = (runAlong d ((toldAll none forest).map Moment.call)).perform s := by
  have hmute : MuteForest forest := fun entry hentry body hbody e he =>
    (hplain entry hentry body hbody).mute e he
  have hsteady : Steady (fun s => s.Holds p) p forest := steady_holds hmute
  have hforesees : Foresees (fun s => s.Holds p) forest := by
    intro entry hentry body hbody s result s' _ hact
    have hquiet : ∀ other, some body = some other → other.IsPlain ∧ other.readings = [] := by
      rintro other ⟨⟩
      exact ⟨hplain entry hentry body hbody, hstill entry hentry body hbody⟩
    rw [perform_invoke_quiet hquiet] at hact
    cases hact
    rfl
  have hlisted (e : SuiteNode) (he : e ∈ forest) (entry : Identifier × SuiteNode)
      (hentry : entry ∈ e.listing none) : entry ∈ listingAll none forest :=
    mem_listingAll.2 ⟨e, he, hentry⟩
  have hforest := recurseAll_agrees fun e he =>
    ⟨hsteady.recurse_agrees hp hforesees e none (hlisted e he),
      hsteady.keeps_block hp (hlisted e he)⟩
  have hopened : ((openPlan d).perform s).2.Holds p := by
    rw [hopen]
    exact hholds
  rw [hsteady.run_eq hd hp hopened hr]
  unfold runRecursively runAlong
  rw [Act.perform_bind_ok hopen, Act.perform_bind_ok hopen, Act.perform_bind, Act.perform_bind,
    hforest s₁ hholds, perform_takeAll_quiet fun step hstep => isQuiet_of_block hplain hstill hstep]
  rfl

variable {o : Writer.Settings} {directory? : Option Path} {aware : Bool} {clock : Clock}
  {log calls : List Call}

def Answers (p : Plan) (aware : Bool) (clock : Clock) (log calls : List Call) : Prop :=
  ∀ earlier c later, calls = earlier ++ c :: later →
    ∃ now, readingAfter p clock (log ++ earlier) = .ok now ∧ now.offset.isSome = aware

theorem Answers.tail {c : Call} (h : Answers p aware clock log (c :: calls)) :
    Answers p aware clock (log ++ [c]) calls := by
  rintro earlier d later rfl
  obtain ⟨now, hread, hnow⟩ := h (c :: earlier) d later rfl
  rw [List.append_cons] at hread
  exact ⟨now, hread, hnow⟩

theorem Paces.tells (h : s.Paces o directory? p aware clock log)
    (hids : ∀ c ∈ calls, c.identifier.id ∈ p.ids) (hclock : Answers p aware clock log calls) :
    ∃ s', (play (calls.map Moment.call)).perform s = (.ok (), s') ∧
      s'.Paces o directory? p aware clock (log ++ calls) ∧
      s'.surroundings.host = s.surroundings.host ∧
      s'.surroundings.disk = (builtOver (calls.map Moment.call) s).foldl
        (Writer.store o.indent directory? s.surroundings.host.localOffset) s.surroundings.disk ∧
      BuildsAll p log calls (builtOver (calls.map Moment.call) s) ∧
      ∀ r ∈ builtOver (calls.map Moment.call) s, r.BuiltAmong p aware clock (log ++ calls) := by
  induction calls generalizing s log with
  | nil =>
    refine ⟨s, rfl, ?_, rfl, rfl, .nil, List.forall_mem_nil _⟩
    rw [List.append_nil]
    exact h
  | cons c calls ih =>
    obtain ⟨now, hread, hnow⟩ := hclock [] c calls rfl
    rw [List.append_nil] at hread
    obtain ⟨s₁, hact, hpaces₁, hhost₁, hdisk₁, hbuilds₁, hreports₁⟩ :=
      h.deliver_call (hids c List.mem_cons_self) hread hnow
    obtain ⟨s₂, hrest, hpaces₂, hhost₂, hdisk₂, hbuilds₂, hreports₂⟩ :=
      ih hpaces₁ (fun d hd => hids d (List.mem_cons_of_mem c hd)) hclock.tail
    have hbuilt : builtOver ((c :: calls).map Moment.call) s =
        built c.event s ++ builtOver (calls.map Moment.call) s₁ := by
      rw [List.map_cons, builtOver, show (Moment.call c).act.perform s = (.ok (), s₁) from hact]
      rfl
    rw [List.append_assoc, List.singleton_append] at hpaces₂ hreports₂
    refine ⟨s₂, ?_, hpaces₂, hhost₂.trans hhost₁, ?_, ?_, ?_⟩
    · unfold play at hrest ⊢
      rw [List.map_cons, Act.perform_forM_cons,
        Act.perform_bind_ok (show (Moment.call c).act.perform s = (.ok (), s₁) from hact)]
      exact hrest
    · rw [hbuilt, List.foldl_append, ← hdisk₁, ← hhost₁]
      exact hdisk₂
    · rw [hbuilt]
      exact .cons hbuilds₁ hbuilds₂
    · rw [hbuilt]
      intro r hr
      rcases List.mem_append.1 hr with hr | hr
      · exact ⟨log, c, calls, rfl, hreports₁ r hr⟩
      · exact hreports₂ r hr

theorem callsOf_map_call (calls : List Call) : callsOf (calls.map Moment.call) = calls := by
  unfold callsOf
  rw [List.filterMap_map]
  exact List.filterMap_some

theorem runsForest_told (hplain : PlainForest forest) (hstill : StillForest forest) :
    RunsForest forest ((toldAll none forest).map Moment.call) := by
  rw [toldAll, ← momentsAll_of_quiet fun step hstep => isQuiet_of_block hplain hstill hstep]
  exact runsForest_blocks forest

theorem answers_of_canRead (hp : p.Lists forest) {start : Instant} {step : Nat}
    (h : (Clock.stepping start step).CanRead
      (1 + (forest.map (readings (toldAll none forest))).sum)) :
    Answers p start.offset.isSome (.stepping start step) [] (toldAll none forest) := by
  intro earlier c later hcalls
  have hlt := ticks_lt hp hcalls
  rw [ticks_front hp (List.append_nil forest).symm] at hlt
  obtain ⟨now, hread⟩ := h (1 + ticks p [] earlier) (Nat.add_lt_add_left hlt 1)
  exact ⟨now, hread, (Clock.moment_of_stepping hread).2⟩

theorem run_in_pace (hd : Discovery.ofForest forest = .ok d) {r : Runner} (hr : r.workers = 1)
    (hplain : PlainForest forest) (hstill : StillForest forest) (hs : s.Alone)
    (hfits : s.writer.settings.Fits s.surroundings.host) {start : Instant} {step : Nat}
    (hclock : s.surroundings.clock = .stepping start step)
    (hrange : s.surroundings.clock.CanRead
      (1 + (forest.map (readings (toldAll none forest))).sum)) :
    let calls := toldAll none forest
    let reports := builtAlong d (calls.map Moment.call) s
    let opened := s.writer.settings.opened s.surroundings.disk
    ∃ s' p, p.Lists forest ∧ (run r forest).perform s = (.ok (), s') ∧
      (runAlong d (calls.map Moment.call)).perform s = (.ok (), s') ∧
      s'.surroundings.clock = s.surroundings.clock.after (1 + (forest.map (readings calls)).sum) ∧
      s'.surroundings.disk = reports.foldl (Writer.store s.writer.settings.indent opened.1
        s.surroundings.host.localOffset) opened.2 ∧
      List.Forall₂ (ReportedBy p) forest reports ∧
      ∀ report ∈ reports,
        report.BuiltAmong p start.offset.isSome (.stepping start step) calls := by
  intro calls reports opened
  let p := Plan.ofList (s.plansMade + 1) d.identifiers
  have hp : p.Lists forest := Plan.ofList_lists hd _
  have hms := runsForest_told hplain hstill
  obtain ⟨first, hfirst⟩ := hrange 0 (by omega)
  have hplanned : (s.planned d).Alone := ⟨hs.one_writer, hs.own_clock⟩
  obtain ⟨s₁, hact, hpaces₁, hhost₁, hdisk₁⟩ :=
    hplanned.deliver_planStarted (p := p) rfl hfits hfirst
  have hkind : first.offset.isSome = start.offset.isSome := by
    rw [hclock] at hfirst
    exact (Clock.moment_of_stepping (k := 0) hfirst).2
  have hbegun : (s.planned d).surroundings.clock = .stepping start step := hclock
  rw [hkind, hbegun] at hpaces₁
  rw [hclock] at hrange ⊢
  have hopen : (openPlan d).perform s = (.ok (), s₁) := (perform_openPlan_eq d s).trans hact
  have hids : ∀ c ∈ calls, c.identifier.id ∈ p.ids := by
    intro c hc
    exact hms.id_mem_ids hp c (by rwa [callsOf_map_call])
  obtain ⟨s₂, hplay, hpaces₂, hhost₂, hdisk₂, hbuilds, hamong⟩ :=
    hpaces₁.tells hids (answers_of_canRead hp hrange)
  have hended : ∀ root ∈ p.roots, endIn ([] ++ calls) root.id ≠ none := by
    intro root hroot
    rw [hp.roots_eq] at hroot
    obtain ⟨e, he, rfl⟩ := List.mem_map.1 hroot
    have hends := hms.ends he
    rw [callsOf_map_call] at hends
    exact hends
  obtain ⟨s₃, hclose, hclock₃, hdisk₃⟩ := hpaces₂.deliver_planFinished hended s₂.plan
  have hbuilt : reports = builtOver (calls.map Moment.call) s₁ := by
    unfold reports builtAlong
    rw [hopen]
  have hrunAlong : (runAlong d (calls.map Moment.call)).perform s = (.ok (), s₃) := by
    unfold runAlong closePlan
    rw [Act.perform_bind_ok hopen, Act.perform_bind_ok hplay, Act.perform_get_bind]
    exact hclose
  rw [hbuilt]
  refine ⟨s₃, p, hp, ?_, hrunAlong, ?_, ?_, ?_, hamong⟩
  · rw [run_eq_runAlong hd hp hplain hstill hopen hpaces₁.holds hr]
    exact hrunAlong
  · rw [hclock₃, hpaces₂.writer.clock_eq, List.nil_append,
      ticks_front hp (List.append_nil forest).symm]
  · rw [hdisk₃, hdisk₂, hhost₁, hdisk₁]
    rfl
  · have hfront : [] ++ forest <+: forest := List.prefix_rfl
    refine hms.reports hp hfront (fun _ hc => absurd hc List.not_mem_nil) ?_
    rw [callsOf_map_call]
    exact hbuilds

/-- In such a run all times are accounted for. A test that was started took one step and any other
none. An engine took two steps for each node that was started below it and below the engines before
it, one for each node that was skipped there, and one for each of these engines. -/
theorem times_in_steps (hd : Discovery.ofForest forest = .ok d) {r : Runner} (hr : r.workers = 1)
    (hplain : PlainForest forest) (hstill : StillForest forest) (hs : s.Alone)
    (hfits : s.writer.settings.Fits s.surroundings.host) {start : Instant} {step : Nat}
    (hclock : s.surroundings.clock = .stepping start step)
    (hrange : s.surroundings.clock.CanRead
      (1 + (forest.map (readings (toldAll none forest))).sum)) :
    let calls := toldAll none forest
    let reports := builtAlong d (calls.map Moment.call) s
    let opened := s.writer.settings.opened s.surroundings.disk
    ∃ s', (run r forest).perform s = (.ok (), s') ∧
      (runAlong d (calls.map Moment.call)).perform s = (.ok (), s') ∧
      s'.surroundings.clock = s.surroundings.clock.after (1 + (forest.map (readings calls)).sum) ∧
      s'.surroundings.disk = reports.foldl (Writer.store s.writer.settings.indent opened.1
        s.surroundings.host.localOffset) opened.2 ∧
      reports.length = forest.length ∧
      ∀ before e after, forest = before ++ e :: after →
        ∃ report, reports[before.length]? = some report ∧ report.Accounts step calls before e := by
  intro calls reports opened
  obtain ⟨s', p, hp, hrun, hrunAlong, hlater, hdisk, hreported, hamong⟩ :=
    run_in_pace hd hr hplain hstill hs hfits hclock hrange
  refine ⟨s', hrun, hrunAlong, hlater, hdisk, hreported.length_eq.symm, ?_⟩
  rintro before e after rfl
  have hids := congrArg (·[before.length]?) (ids_of_reported hreported)
  rw [List.map_append, List.getElem?_append_right (by rw [List.length_map]), List.length_map,
    Nat.sub_self, List.map_cons, List.getElem?_cons_zero, List.getElem?_map,
    Option.map_eq_some_iff] at hids
  obtain ⟨report, hreport, hid⟩ := hids
  obtain ⟨first, c, hlast, hbuilt⟩ :=
    builtAt_of_builtAmong hp (hamong report (List.mem_of_getElem? hreport)) hid
  exact ⟨report, hreport, accounts_of_builtAt hp hlast hbuilt hid⟩

/-- Two engines. Of the first, one test fails, one is below a container that is marked skipped, and
one below a container whose setup gives up. -/
theorem times_in_steps_of_two :
    let boom := Thrown.make .assertionError [.text "boom"] true
    let failing := SuiteNode.test ⟨"t", none, none⟩ (some [.raise boom])
    let left := SuiteNode.group false ⟨"s", none, some "later"⟩ .none [.test ⟨"u", none, none⟩ none]
    let blocked := SuiteNode.group false ⟨"c", none, none⟩ ⟨some [.abort none], none⟩
      [.test ⟨"v", none, none⟩ none]
    let engine := SuiteNode.group true ⟨"e", none, none⟩ .none [failing, left, blocked]
    let other := SuiteNode.group true ⟨"f", none, none⟩ .none [.test ⟨"t", none, none⟩ none]
    let s := Session.fresh (.bare (.stepping .epoch 7)) ⟨.ofString "out", none, [], false, none⟩
      [.recorder, .writer, .silent]
    (PlainForest [engine, other] ∧ StillForest [engine, other] ∧ s.Alone ∧
      s.writer.settings.Fits s.surroundings.host ∧ s.surroundings.clock.CanRead 10) ∧
    ∃ d s' first second, Discovery.ofForest [engine, other] = .ok d ∧
      (run ⟨1, by decide⟩ [engine, other]).perform s = (.ok (), s') ∧
      s'.surroundings.clock = (Clock.stepping .epoch 7).after 10 ∧
      builtAlong d ((toldAll none [engine, other]).map Moment.call) s = [first, second] ∧
      first.time = 42 ∧ first.testcases.map (fun c => (c.id, c.time)) =
        [("e:t", 7), ("e:s:u", 0), ("e:c:v", 0)] ∧
      second.time = 63 ∧ second.testcases.map (fun c => (c.id, c.time)) = [("f:t", 7)] := by
  intro boom failing left blocked engine other s
  obtain ⟨d, hd⟩ : ∃ d, Discovery.ofForest [engine, other] = .ok d := by
    have hok : (Discovery.ofForest [engine, other]).isOk = true := by decide +kernel
    cases hd : Discovery.ofForest [engine, other] with
    | ok d => exact ⟨d, rfl⟩
    | error e =>
      rw [hd] at hok
      cases hok
  have hplain : PlainForest [engine, other] := by decide
  have hstill : StillForest [engine, other] := by decide
  have halone : s.Alone := ⟨by decide, by decide⟩
  have hfits : s.writer.settings.Fits s.surroundings.host := ⟨⟨_, rfl⟩, ⟨_, rfl⟩, by decide⟩
  let calls := toldAll none [engine, other]
  have hengine : readings calls engine = 6 := by decide +kernel
  have hother : readings calls other = 3 := by decide +kernel
  have hten : s.surroundings.clock.CanRead 10 := Clock.canRead_of_le (by decide)
  have hrange : s.surroundings.clock.CanRead (1 + ([engine, other].map (readings calls)).sum) := by
    rw [List.map_cons, List.map_cons, hengine, hother]
    exact hten
  obtain ⟨s', hrun, -, hclock, -, hlength, hreports⟩ :=
    times_in_steps hd (r := ⟨1, by decide⟩) rfl hplain hstill halone hfits rfl hrange
  obtain ⟨first, hfirst, -, htime₁, htimes₁⟩ := hreports [] engine [other] rfl
  obtain ⟨second, hsecond, -, htime₂, htimes₂⟩ := hreports [engine] other [] rfl
  refine ⟨⟨hplain, hstill, halone, hfits, hten⟩, d, s', first, second, hd, hrun,
    ?_, ?_, ?_, ?_, ?_, ?_⟩
  · rw [hclock, List.map_cons, List.map_cons, hengine, hother]
    rfl
  · generalize builtAlong d (calls.map Moment.call) s = reports at hlength hfirst hsecond ⊢
    obtain ⟨a, b, rfl⟩ := List.length_eq_two.1 hlength
    cases hfirst
    cases hsecond
    rfl
  · rw [htime₁, List.nil_append, List.map_singleton, hengine]
    rfl
  · rw [htimes₁]
    decide +kernel
  · rw [htime₂, List.singleton_append, List.map_cons, List.map_singleton, hengine, hother]
    rfl
  · rw [htimes₂]
    decide +kernel

end Session

end TestRun
