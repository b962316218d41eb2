import TestRun.Proofs.Listener.Timing
import TestRun.Proofs.Report.Times
import TestRun.Proofs.Suite.Recursion
set_option autoImplicit false

namespace TestRun

open TestRun.Tree (Call openIn Solo)

def Plan.testIds (p : Plan) : List String := (p.identifiers.filter (·.isTest)).map (·.id)

theorem Plan.isTest_of_mem_testIds {p : Plan} {i : Identifier} (hi : i ∈ p.identifiers)
    (h : i.id ∈ p.testIds) : i.isTest = true := by
  obtain ⟨j, hj, hid⟩ := List.mem_map.1 h
  obtain ⟨hmem, htest⟩ := List.mem_filter.1 hj
  exact eq_of_id_eq hmem hi hid ▸ htest

/-- The calls are on identifiers of the plan, of which no two tests were ever open together; and if
a test is open now, it is the one whose turn it is. -/
structure InTurn (p : Plan) (turn? : Option String) (log : List Call) : Prop where
  held : ∀ c ∈ log, c.identifier ∈ p.identifiers
  solo : Solo p.testIds log
  turn : ∀ a ∈ p.testIds, openIn log a = true → turn? = some a

namespace InTurn

variable {p : Plan} {turn? next? : Option String} {log : List Call} {c : Call} {i : Identifier}

theorem nil (p : Plan) : InTurn p none [] := by
  refine ⟨List.forall_mem_nil _, fun earlier hearlier => ?_, fun a _ hopen => nomatch hopen⟩
  obtain rfl := List.prefix_nil.1 hearlier
  exact fun a _ b _ hopen => nomatch hopen

theorem concat (h : InTurn p turn? log) (hc : c.identifier ∈ p.identifiers)
    (hturn : ∀ a ∈ p.testIds, openIn (log ++ [c]) a = true → next? = some a) :
    InTurn p next? (log ++ [c]) := by
  refine ⟨fun d hd => ?_, h.solo.concat hturn, hturn⟩
  rcases List.mem_append.1 hd with hd | hd
  · exact h.held d hd
  · exact List.mem_singleton.1 hd ▸ hc

theorem starts (h : InTurn p none log) (hi : i ∈ p.identifiers) :
    InTurn p (some i.id) (log ++ [.started i]) := by
  refine h.concat hi fun a ha hopen => ?_
  rcases Tree.openIn_of_concat hopen with hbefore | ⟨rfl, -⟩
  · exact nomatch h.turn a ha hbefore
  · rfl

theorem finishes (h : InTurn p (some i.id) log) (hi : i ∈ p.identifiers)
    (result : ExecutionResult) : InTurn p none (log ++ [.finished i result]) := by
  refine h.concat hi fun a ha hopen => ?_
  rcases Tree.openIn_of_concat hopen with hbefore | ⟨-, hstarts⟩
  · obtain rfl := Option.some.inj (h.turn a ha hbefore)
    have hshut : openIn (log ++ [.finished i result]) i.id = false := Tree.openIn_concat_ending rfl
    exact absurd hopen (ne_true_of_eq_false hshut)
  · cases hstarts

theorem passes (h : InTurn p turn? log) (hc : c.identifier ∈ p.identifiers)
    (hstart : c.isStart = true → c.identifier.isTest = false) : InTurn p turn? (log ++ [c]) := by
  refine h.concat hc fun a ha hopen => ?_
  rcases Tree.openIn_of_concat hopen with hbefore | ⟨rfl, hstarts⟩
  · exact h.turn a ha hbefore
  · have htest := Plan.isTest_of_mem_testIds hc ha
    rw [hstart hstarts] at htest
    cases htest

end InTurn

namespace Session

open SuiteNode Act

variable {forest : List SuiteNode} {p : Plan} {s : Session}

def Ear (audience : List Seat) (heard : Array Event) (s : Session) : Prop :=
  s.audience = audience ∧ s.heard = heard

theorem inward_ear (audience : List Seat) (heard : Array Event) : Inward (Ear audience heard) :=
  fun _ _ hs => hs

theorem keeps_ear_hearAt {seat : Seat} (hseat : seat ≠ .recorder) (e : Event)
    (audience : List Seat) (heard : Array Event) : Keeps (Ear audience heard) (hearAt e seat) := by
  intro s hs
  cases seat with
  | recorder => exact absurd rfl hseat
  | silent => exact hs
  | writer =>
    rcases hact : (Writer.hear e).perform (s.writer, s.surroundings) with ⟨answer, w, x⟩
    rw [hearAt, perform_hearWriter hact]
    cases w.run? <;> exact hs
  | console =>
    rcases hact : (Console.hear e).perform (s.console, s.surroundings) with ⟨answer, con, x⟩
    rw [hearAt, perform_hearConsole hact]
    cases con.tree? <;> exact hs

theorem carries_hearRecorder {e : Event} (he : e ≠ .planFinished none) (audience : List Seat)
    (heard : Array Event) (E : Session → Prop) :
    Carries (Ear audience heard) (hearAt e .recorder) (Ear audience (heard.push e)) E := by
  rintro s ⟨haudience, rfl⟩
  rcases e with q | (_ | q) | i | i | ⟨i, reason?⟩ | ⟨i, result⟩ <;>
    first | exact absurd rfl he | exact ⟨haudience, rfl⟩

theorem carries_hearEach {e : Event} (he : e ≠ .planFinished none) {seats : List Seat}
    (hone : seats.count .recorder = 1) (audience : List Seat) (heard : Array Event) :
    Carries (Ear audience heard) (seats.forM (hearAt e)) (Ear audience (heard.push e))
      fun s => s.Ear audience heard ∨ s.Ear audience (heard.push e) := by
  obtain ⟨before, after, rfl, hbefore, hafter⟩ := split_audience hone
  have hothers (others : List Seat) (hnone : .recorder ∉ others) (heard : Array Event) :
      Carries (Ear audience heard) (others.forM (hearAt e)) (Ear audience heard)
        (Ear audience heard) :=
    (keeps_forM fun seat hmem => keeps_ear_hearAt (fun heq => hnone (heq ▸ hmem)) e _ _).carries
  exact carries_append ((hothers before hbefore heard).weaken fun _ => .inl)
    ((carries_hearRecorder he audience heard _).bind fun _ =>
      (hothers after hafter (heard.push e)).weaken fun _ => .inr)

theorem carries_deliver {e : Event} (he : e ≠ .planFinished none) {audience : List Seat}
    (hone : audience.count .recorder = 1) (heard : Array Event) :
    Carries (Ear audience heard) (deliver e) (Ear audience (heard.push e))
      fun s => s.Ear audience heard ∨ s.Ear audience (heard.push e) :=
  fun s hs => carries_hearEach he (hs.1 ▸ hone) audience heard s hs

theorem ear_openPlan {t : Session} {d : Discovery} (hone : s.audience.count .recorder = 1)
    (hopen : (openPlan d).perform s = (.ok (), t)) :
    t.Ear s.audience (s.heard.push (.planStarted (.ofList (s.plansMade + 1) d.identifiers))) := by
  rw [perform_openPlan_eq] at hopen
  let p := Plan.ofList (s.plansMade + 1) d.identifiers
  have hne : Event.planStarted p ≠ .planFinished none := nofun
  exact (carries_deliver hne hone s.heard).of_ok (s := s.planned d) ⟨rfl, rfl⟩ hopen

theorem ear_closePlan {t : Session} {audience : List Seat} {heard : Array Event}
    (hone : audience.count .recorder = 1) (hs : s.Ear audience heard)
    (hclose : closePlan.perform s = (.ok (), t)) :
    t.Ear audience (heard.push (.planFinished (some s.plan))) := by
  have hne : Event.planFinished (some s.plan) ≠ .planFinished none := nofun
  exact (carries_deliver hne hone heard).of_ok hs hclose

def Hears (before : List Event) (Q : List Call → Prop) (s : Session) : Prop :=
  s.audience.count .recorder = 1 ∧
    ∃ log, s.heard.toList = before ++ log.map (·.event) ∧ Q log

theorem inward_hears (before : List Event) (Q : List Call → Prop) : Inward (Hears before Q) :=
  fun _ _ hs => hs

variable {before : List Event} {Q Q' : List Call → Prop}

theorem Ear.hears {audience : List Seat} {heard : Array Event} (hs : s.Ear audience heard)
    (hone : audience.count .recorder = 1) {log : List Call}
    (hheard : heard.toList = before ++ log.map (·.event)) (hlog : Q log) : s.Hears before Q :=
  ⟨hs.1 ▸ hone, log, hs.2 ▸ hheard, hlog⟩

theorem carries_tell (c : Call) (h : ∀ log, Q log → Q' (log ++ [c])) :
    Carries (Hears before Q) (deliver c.event) (Hears before Q')
      (Hears before fun log => Q log ∨ Q' log) := by
  rintro s ⟨hone, log, hheard, hlog⟩
  have hne : c.event ≠ .planFinished none := by cases c <;> exact nofun
  have hpushed : (s.heard.push c.event).toList = before ++ (log ++ [c]).map (·.event) := by
    rw [Array.toList_push, hheard, List.map_append, List.append_assoc]
    rfl
  have hs' := carries_deliver hne hone s.heard s ⟨rfl, rfl⟩
  rcases hact : (deliver c.event).perform s with ⟨_ | _, s'⟩ <;> rw [hact] at hs'
  · rcases hs' with hs' | hs'
    · exact hs'.hears hone hheard (.inl hlog)
    · exact hs'.hears hone hpushed (.inr (h log hlog))
  · exact hs'.hears hone hpushed (h log hlog)

theorem keeps_invoke_hears {body? : Option Body}
    (hmute : ∀ body, body? = some body → ∀ e, Action.fire e ∉ body) :
    Keeps (Hears before Q) (invoke body?) := by
  cases body? with
  | none => exact keeps_pure _
  | some body =>
    exact keeps_invoke (inward_hears before Q) fun e he => absurd he (hmute body rfl e)

abbrev Idle (before : List Event) (p : Plan) : Session → Prop := Hears before (InTurn p none)

abbrev Told (before : List Event) (p : Plan) : Session → Prop :=
  Hears before fun log => ∃ turn?, InTurn p turn? log

theorem Hears.told {turn? next? : Option String}
    (h : s.Hears before fun log => InTurn p turn? log ∨ InTurn p next? log) : s.Told before p := by
  obtain ⟨hone, log, hheard, hlog⟩ := h
  exact ⟨hone, log, hheard, hlog.elim (⟨_, ·⟩) (⟨_, ·⟩)⟩

theorem carries_pass {turn? : Option String} {c : Call} (hc : c.identifier ∈ p.identifiers)
    (hstart : c.isStart = true → c.identifier.isTest = false) :
    Carries (Hears before (InTurn p turn?)) (deliver c.event) (Hears before (InTurn p turn?))
      (Told before p) :=
  (carries_tell c fun _ hlog => hlog.passes hc hstart).weaken fun _ => Hears.told

theorem carries_invoke {turn? : Option String} {body? : Option Body}
    (hmute : ∀ body, body? = some body → ∀ e, Action.fire e ∉ body) :
    Carries (Hears before (InTurn p turn?)) (invoke body?) (Hears before (InTurn p turn?))
      (Told before p) :=
  (keeps_invoke_hears hmute).carries.weaken fun _ h => ⟨h.1, h.2.imp fun _ h => ⟨h.1, _, h.2⟩⟩

theorem carries_recurseAll {parent? : Option String} {ns : List SuiteNode}
    (h : ∀ m ∈ ns, Carries (Idle before p) (m.recurse parent?) (Idle before p) (Told before p)) :
    Carries (Idle before p) (recurseAll parent? ns) (Idle before p) (Told before p) := by
  induction ns with
  | nil =>
    rw [recurseAll]
    exact carries_pure ()
  | cons n rest ih =>
    rw [recurseAll]
    exact (h n List.mem_cons_self).bind fun _ => ih fun m hm => h m (List.mem_cons_of_mem n hm)

theorem carries_recurse_test (hp : p.Lists forest) (hmute : MuteForest forest) {label : Label}
    {body? : Option Body} {parent? : Option String}
    (hmem : ((test label body?).identifier parent?, test label body?) ∈ listingAll none forest)
    (hskip : label.skip? = none) :
    Carries (Idle before p) ((test label body?).recurse parent?) (Idle before p)
      (Told before p) := by
  have hheld := hp.mem hmem
  rw [recurse_test hskip]
  refine Carries.bind ((carries_tell (.started _) fun _ hlog => hlog.starts hheld).weaken
    fun _ => Hears.told) fun _ => ?_
  refine (carries_invoke fun body hbody => hmute _ hmem body (mem_code_of_body hbody)).bind
    fun result => ?_
  exact (carries_tell (.finished _ result) fun _ hlog => hlog.finishes hheld result).weaken
    fun _ => Hears.told

theorem carries_recurse_group (hp : p.Lists forest) (hmute : MuteForest forest) {isEngine : Bool}
    {label : Label} {hooks : Hooks} {children : List SuiteNode} {parent? : Option String}
    {i : Identifier} (hi : (group isEngine label hooks children).identifier parent? = i)
    (hmem : (i, group isEngine label hooks children) ∈ listingAll none forest)
    (hskip : label.skip? = none)
    (hbelow : Carries (Idle before p) (recurseAll (some i.id) children) (Idle before p)
      (Told before p)) :
    Carries (Idle before p) ((group isEngine label hooks children).recurse parent?) (Idle before p)
      (Told before p) := by
  have hheld := hp.mem hmem
  have hgroup : i.isTest = false := by
    rw [← hi]
    cases isEngine <;> rfl
  have hbefore := fun body hbody => hmute _ hmem body (mem_code_of_before hbody)
  have hafter := fun body hbody => hmute _ hmem body (mem_code_of_after hbody)
  have hend (which : ExecutionResult → ExecutionResult) : Carries (Idle before p) (do
      let after ← Session.invoke hooks.after?
      deliver (.finished i (which after))) (Idle before p) (Told before p) :=
    (carries_invoke hafter).bind fun after =>
      carries_pass (c := .finished i (which after)) hheld nofun
  rw [recurse_group hskip, hi]
  dsimp only
  refine (carries_pass (c := .started i) hheld fun _ => hgroup).bind fun _ =>
    (carries_invoke hbefore).bind fun before => ?_
  split
  · exact hbelow.bind fun _ => hend id
  · exact hend fun _ => before

theorem carries_recurse (hp : p.Lists forest) (hmute : MuteForest forest) (n : SuiteNode)
    (parent? : Option String)
    (hlisted : ∀ entry ∈ n.listing parent?, entry ∈ listingAll none forest) :
    Carries (Idle before p) (n.recurse parent?) (Idle before p) (Told before p) := by
  induction n using induct generalizing parent? with
  | step n ih =>
    rw [listing_eq] at hlisted
    have hmem := hlisted _ List.mem_cons_self
    cases hskip : n.label.skip? with
    | some reason =>
      rw [recurse_skipped hskip]
      exact carries_pass (c := .skipped _ (some reason)) (hp.mem hmem) nofun
    | none =>
      cases n with
      | test label body? => exact carries_recurse_test hp hmute hmem hskip
      | group isEngine label hooks children =>
        refine carries_recurse_group hp hmute rfl hmem hskip (carries_recurseAll fun m hm => ?_)
        exact ih m hm _ fun entry hentry =>
          hlisted entry (List.mem_cons_of_mem _ (mem_listingAll.2 ⟨m, hm, hentry⟩))

theorem carries_forest (hp : p.Lists forest) (hmute : MuteForest forest) :
    Carries (Idle before p) (recurseAll none forest) (Idle before p) (Told before p) :=
  carries_recurseAll fun n hn => carries_recurse hp hmute n none fun _ hentry =>
    mem_listingAll.2 ⟨n, hn, hentry⟩

/-- All that a recorder heard since is a run on a plan, or what there was of it. -/
def Overhears (before : List Event) (p : Plan) (s : Session) : Prop :=
  ∃ log q, (∃ turn?, InTurn p turn? log) ∧ ∃ es, s.heard.toList = before ++ es ∧
    es <+: .planStarted p :: (log.map (·.event) ++ [.planFinished (some q)])

theorem Hears.overhears (h : s.Told (before ++ [.planStarted p]) p) : s.Overhears before p := by
  obtain ⟨-, log, hheard, hlog⟩ := h
  refine ⟨log, p, hlog, .planStarted p :: log.map (·.event), ?_, ?_⟩
  · rw [hheard, List.append_assoc]
    rfl
  · exact List.cons_prefix_cons.2 ⟨rfl, List.prefix_append _ _⟩

theorem carries_openPlan (hone : s.audience.count .recorder = 1) (d : Discovery)
    (hplan : p = .ofList (s.plansMade + 1) d.identifiers) :
    Carries (· = s) (openPlan d) (Idle (s.heard.toList ++ [.planStarted p]) p)
      (Overhears s.heard.toList p) := by
  have hpushed : (s.heard.push (.planStarted p)).toList =
      (s.heard.toList ++ [.planStarted p]) ++ [].map Call.event := by
    rw [Array.toList_push, List.map_nil, List.append_nil]
  have hstarted (t : Session) (ht : t.Ear s.audience (s.heard.push (.planStarted p))) :
      t.Idle (s.heard.toList ++ [.planStarted p]) p := ht.hears hone hpushed (.nil p)
  have hbroken (t : Session) (ht : t.Ear s.audience s.heard ∨
      t.Ear s.audience (s.heard.push (.planStarted p))) : t.Overhears s.heard.toList p := by
    rcases ht with ht | ht
    · exact ⟨[], p, ⟨none, .nil p⟩, [], by rw [ht.2, List.append_nil], List.nil_prefix⟩
    · exact Hears.overhears ⟨(hstarted t ht).1, (hstarted t ht).2.imp fun _ h => ⟨h.1, none, h.2⟩⟩
  have hne : Event.planStarted p ≠ .planFinished none := nofun
  have hannounce := (carries_deliver hne hone s.heard).mono hstarted hbroken
  intro t ht
  obtain rfl : s = t := ht.symm
  rw [perform_openPlan_eq, ← hplan]
  exact hannounce (s.planned d) ⟨rfl, rfl⟩

theorem carries_closePlan : Carries (Idle (before ++ [.planStarted p]) p) closePlan
    (Overhears before p) (Overhears before p) := by
  rintro s ⟨hone, log, hheard, hlog⟩
  let e : Event := .planFinished (some s.plan)
  have hne : Event.planFinished (some s.plan) ≠ .planFinished none := fun h => nomatch h
  have hstopped (t : Session) (ht : t.Ear s.audience s.heard) : t.Overhears before p :=
    Hears.overhears ⟨ht.1 ▸ hone, log, ht.2 ▸ hheard, none, hlog⟩
  have hclosed (t : Session) (ht : t.Ear s.audience (s.heard.push e)) : t.Overhears before p := by
    refine ⟨log, s.plan, ⟨none, hlog⟩, _, ?_, List.prefix_rfl⟩
    rw [ht.2, Array.toList_push, hheard, List.append_assoc, List.append_assoc]
    rfl
  exact ((carries_deliver hne hone s.heard).mono hclosed fun t ht =>
    ht.elim (hstopped t) (hclosed t)) s ⟨rfl, rfl⟩

theorem overhears_run (hone : s.audience.count .recorder = 1) (hs : s.Settled)
    (hmute : MuteForest forest) {r : Runner} (hr : r.workers = 1) :
    ∃ p, ((run r forest).perform s).2.Overhears s.heard.toList p := by
  cases hd : Discovery.ofForest forest with
  | error f =>
    refine ⟨s.plan, [], s.plan, ⟨none, .nil _⟩, [], ?_, List.nil_prefix⟩
    rw [run, hd, List.append_nil]
    rfl
  | ok d =>
    refine ⟨.ofList (s.plansMade + 1) d.identifiers, ?_⟩
    have hp := Plan.ofList_lists hd (s.plansMade + 1)
    rw [run_eq_runRecursively hd hmute hr hs]
    have hwhole := (carries_openPlan hone d rfl).bind fun _ =>
      ((carries_forest hp hmute).weaken fun _ => Hears.overhears).bind fun _ => carries_closePlan
    exact hwhole.after rfl

theorem Overhears.calls_before {pre rest : List Event} {e : Event} (h : s.Overhears before p)
    (hheard : s.heard.toList = before ++ (pre ++ e :: rest)) :
    e = .planStarted p ∨ ∃ calls : List Call, pre = .planStarted p :: calls.map (·.event) ∧
      Solo p.testIds calls ∧ ∀ c ∈ calls ++ e.call?.toList, c.identifier ∈ p.identifiers := by
  obtain ⟨log, q, ⟨turn?, hlog⟩, es, hes, hprefix⟩ := h
  obtain rfl := List.append_cancel_left (hheard.symm.trans hes)
  have hupto : pre ++ [e] <+: .planStarted p :: (log.map (·.event) ++ [.planFinished (some q)]) :=
    (List.prefix_append_right_inj pre).2 (List.prefix_append [e] rest) |>.trans hprefix
  cases pre with
  | nil => exact .inl (List.cons_prefix_cons.1 hupto).1
  | cons e₀ pre =>
    right
    obtain ⟨rfl, hpre⟩ := List.cons_prefix_cons.1 hupto
    rcases List.prefix_concat_iff.1 hpre with hlast | hinner
    · obtain ⟨rfl, hend⟩ := List.append_inj' hlast rfl
      obtain rfl := List.singleton_inj.1 hend
      exact ⟨log, rfl, hlog.solo, fun c hc => hlog.held c (by simpa [Event.call?] using hc)⟩
    · obtain ⟨told, htold, hmap⟩ := List.prefix_map_iff.1 hinner
      obtain ⟨calls, last, rfl, rfl, hlast⟩ := List.map_eq_append_iff.1 hmap.symm
      obtain ⟨c, rfl, rfl⟩ := List.map_eq_singleton_iff.1 hlast
      refine ⟨calls, rfl, hlog.solo.earlier ((List.prefix_append calls [c]).trans htold), ?_⟩
      rw [call?_event]
      exact fun d hd => hlog.held d (htold.subset hd)

end Session

namespace EngineReport

variable {r : EngineReport} {p : Plan} {root : Identifier}

theorem Lists.ids (h : r.Lists p root) :
    (r.testcases.map (·.id)).Nodup ∧ r.testcases.map (·.id) ⊆ p.testIds ∧
      ∀ top ∈ p.roots, top.id ∉ r.testcases.map (·.id) := by
  obtain ⟨tests, htests, hrows⟩ := h.exists_tests
  have hids : r.testcases.map (·.id) = tests.map (·.id) := by
    have := congrArg (List.map Prod.fst) hrows
    rwa [List.map_map, List.map_map] at this
  rw [hids]
  refine ⟨htests.nodup, fun id hid => ?_, fun top htop hid => ?_⟩
  · obtain ⟨t, ht, rfl⟩ := List.mem_map.1 hid
    obtain ⟨hheld, htest, -⟩ := (htests.mem_iff t).1 ht
    exact List.mem_map_of_mem (List.mem_filter.2 ⟨hheld, htest⟩)
  · obtain ⟨t, ht, heq⟩ := List.mem_map.1 hid
    obtain ⟨hheld, -, habove⟩ := (htests.mem_iff t).1 ht
    obtain ⟨hroot, htop⟩ := List.mem_filter.1 htop
    obtain rfl := Plan.eq_of_id_eq hheld hroot heq
    obtain ⟨a, hparent, -⟩ := Relation.TransGen.head'_iff.1 habove
    rw [Plan.IsParent, Plan.parent?_of_isRoot _ htop] at hparent
    cases hparent

end EngineReport

namespace Writer

open Time Xml

theorem Watch.Traced.span_of_calls {h : Watch} {o : Settings} {host : Host} {aware : Bool} {n : Nat}
    {history : List Event} {p : Plan} {calls : List Call}
    (ht : h.Traced o host aware (spanOf (history ++ .planStarted p :: calls.map (·.event))) n)
    {y : Epoch} (hy : h.epoch? = some y) : y.toSpan = ⟨p, calls, false⟩ := by
  have hspan := (ht.span_of_epoch hy).2
  rw [spanOf, List.foldl_append, List.foldl_cons, Span.hear, foldl_hear_calls _ rfl] at hspan
  exact (Option.some.inj hspan).symm

/-- The times of a report that is built in a run of a runner with one worker add up to no more than
the time of the report. -/
theorem sum_times_le {o : Settings} {x : Surroundings} {aware : Bool}
    {history pre rest : List Event} (hx : x.clock.Lasts aware ((history ++ pre).length + 1))
    (horder : x.clock.NeverGoesBack) {e : Event} {r : EngineReport}
    (hr : r ∈ (watch o x (history ++ pre)).built e)
    {s : Session} {p : Plan} {before : List Event} (hs : s.Overhears before p)
    (hheard : s.heard.toList = before ++ (pre ++ e :: rest)) :
    (r.testcases.map (·.time)).sum ≤ r.time := by
  have ht := Watch.traced_watch o hx
  have htimely := Watch.timely_watch o hx horder
  rcases hs.calls_before hheard with rfl | ⟨calls, rfl, hsolo, hheld⟩
  · rw [Watch.built, built_planStarted] at hr
    cases hr
  obtain ⟨y, t, lo, hi, hy, hmeasures, -, hshares⟩ := ht.measures htimely hr
  obtain ⟨y', -, -, root, hy', -, -, -, -, hlists⟩ := ht.sound.built_lists hr
  obtain rfl := Option.some.inj (hy.symm.trans hy')
  have hspan := ht.span_of_calls hy
  rw [Span.planWith, hspan, Tree.planAfter_of_held hheld] at hlists
  rw [hspan] at hshares
  obtain ⟨hnodup, htests, hroots⟩ := hlists.ids
  have hsum := hshares _ hnodup hroots (hsolo.subset htests)
  have htimes : r.testcases.map (·.time) = (r.testcases.map (·.id)).map (t.spent · hi) := by
    rw [List.map_map]
    exact List.map_congr_left fun c hc => hmeasures.times_eq c hc
  rw [htimes, hmeasures.time_eq]
  exact hsum

/-- With a clock that lasts for the events and never goes back, no test of a report takes less time
than none or more than the whole report, in the report as in its document. And if it is a runner
with one worker from which the writer hears, all tests of a report together take no more than
that. -/
theorem times_consistent (o : Settings) {x : Surroundings} {aware : Bool}
    (events : List Event) (hx : x.clock.Lasts aware (events.length + 1))
    (horder : x.clock.NeverGoesBack) (e : Event) {r : EngineReport}
    (hr : r ∈ (watch o x events).built e) :
    (∀ c ∈ r.testcases, 0 ≤ c.time ∧ c.time ≤ r.time) ∧
    (∀ timestamp, (r.item timestamp).TimesFit) ∧
    (∀ indent localOffset, r.render indent localOffset =
      (timestampText localOffset r.timestamp).map fun timestamp =>
        documentText indent (r.item timestamp)) ∧
    ∀ (s : Session) (runner : Runner) (forest : List SuiteNode) (history pre rest : List Event),
      s.audience.count .recorder = 1 → s.Settled → runner.workers = 1 → MuteForest forest →
      ((Session.run runner forest).perform s).2.heard.toList =
        s.heard.toList ++ (pre ++ e :: rest) →
      events = history ++ pre →
        (r.testcases.map (·.time)).sum ≤ r.time ∧ ∀ timestamp, (r.item timestamp).TimesAdd := by
  have hbounds : ∀ c ∈ r.testcases, 0 ≤ c.time ∧ c.time ≤ r.time := by
    intro c hc
    obtain ⟨y, t, lo, hi, -, hmeasures, hclocked, -⟩ :=
      (Watch.traced_watch o hx).measures (Watch.timely_watch o hx horder) hr
    rw [hmeasures.times_eq c hc, hmeasures.time_eq]
    exact ⟨t.spent_nonneg c.id hi, hclocked.spent_le c.id⟩
  refine ⟨hbounds, EngineReport.timesFit_item fun c hc => (hbounds c hc).2,
    fun indent localOffset => ?_, ?_⟩
  · unfold EngineReport.render
    cases timestampText localOffset r.timestamp <;> rfl
  · rintro s runner forest history pre rest hone hsettled hserial hmute hheard rfl
    obtain ⟨p, hs⟩ := Session.overhears_run hone hsettled hmute hserial
    have hsum := sum_times_le hx horder hr hs hheard
    exact ⟨hsum, EngineReport.timesAdd_item (fun c hc => (hbounds c hc).1) hsum⟩

/-- Two tests take 2500 and 999 microseconds of the 6000 that their engine takes, and the document
shows no time at all for the second. -/
theorem times_consistent_truncated :
    let boom := Thrown.make .assertionError [] true
    let engine := SuiteNode.group true ⟨"e", none, none⟩ .none
      [.test ⟨"t", none, none⟩ none, .test ⟨"u", none, none⟩ (some [.raise boom])]
    let i : Identifier := ⟨"e", "e", none, .engine⟩
    let t : Identifier := ⟨"e:t", "t", some "e", .test⟩
    let u : Identifier := ⟨"e:u", "u", some "e", .test⟩
    let o : Settings := ⟨.ofString "out", none, [], false, none⟩
    let s := Session.fresh (.bare (.fixed .epoch)) o [.silent, .recorder]
    let stop (m : Fin 6001) : Instant := ⟨m, some 0, by simp [lowest], by simp [highest]; omega⟩
    let x := Surroundings.bare
      (.listed (stop 0) [stop 1000, stop 3500, stop 4000, stop 4999, stop 6000])
    let events : List Event := [.planStarted (.ofList 1 [i, t, u]), .started i, .started t,
      .finished t .successful, .started u, .finished u (.failed (.ofThrown boom))]
    let e : Event := .finished i .successful
    ∃ rest r, (watch o x events).built e = [r] ∧
      ((Session.run ⟨1, by decide⟩ [engine]).perform s).2.heard.toList = events ++ e :: rest ∧
      r.time = 6000 ∧ r.testcases.map (·.time) = [2500, 999] ∧
      (∀ timestamp, (r.item timestamp).TimesFit) ∧ ∀ timestamp, (r.item timestamp).TimesAdd := by
  intro boom engine i t u o s stop x events e
  have hclock : x.clock.Lasts true 7 :=
    ⟨(Clock.listed_neverFails _ _).canRead 7, Clock.listed_oneKind (by decide)⟩
  have horder : x.clock.NeverGoesBack := Clock.listed_neverGoesBack (by decide)
  have hmute : MuteForest [engine] := by
    intro entry hentry body hbody f hf
    have hcode : ∀ entry ∈ SuiteNode.listingAll none [engine], ∀ body ∈ entry.2.code,
        body = [.raise boom] := by
      simp [engine, SuiteNode.listingAll, SuiteNode.listing, SuiteNode.code, Hooks.none]
    rw [hcode entry hentry body hbody, List.mem_singleton] at hf
    cases hf
  have hheard : ((Session.run ⟨1, by decide⟩ [engine]).perform s).2.heard.toList =
      s.heard.toList ++ (events ++ e :: [.planFinished (some (.ofList 1 [i, t, u]))]) := by
    rfl
  have hbuilt : ((watch o x events).built e).map (fun r => (r.time, r.testcases.map (·.time))) =
      [(6000, [2500, 999])] := by cbv
  obtain ⟨r, hr, htimes⟩ := List.map_eq_singleton_iff.1 hbuilt
  obtain ⟨htime, hcases⟩ := Prod.mk.inj htimes
  have hmem : r ∈ (watch o x events).built e := by
    rw [hr]
    exact List.mem_singleton_self r
  obtain ⟨-, hfit, -, hshare⟩ := times_consistent o events hclock horder e hmem
  obtain ⟨-, hadd⟩ := hshare s ⟨1, by decide⟩ [engine] [] events _ (by decide)
    (Session.settled_fresh _ _ _) rfl hmute hheard rfl
  exact ⟨_, r, hr, hheard, htime, hcases, hfit, hadd⟩

end Writer

end TestRun
