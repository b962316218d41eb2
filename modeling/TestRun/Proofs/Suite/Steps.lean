import TestRun.Proofs.Suite.Blocks
import TestRun.Proofs.Suite.Sharing
set_option autoImplicit false

/-!
# Taking steps

With one worker, a forest whose code announces nothing is executed by taking the steps of its
blocks, whatever that code raises. As long as nothing interrupts them, steps can be taken to the
end; they are moments of a schedule, and the recorder hears just what they tell.
-/

namespace TestRun

open TestRun.Tree (Call)
open Writer (Settings)
open Files (Path)
open Session (deliver invoke)

namespace Act

variable {σ α β : Type} {P : σ → Prop}

theorem Agrees.trans {act act' act'' : Act σ α} (h : Agrees P act act') (h' : Agrees P act' act'') :
    Agrees P act act'' := fun s hs => (h s hs).trans (h' s hs)

theorem Agrees.bind_answer {act : Act σ α} {a : α}
    (h : ∀ s b s', P s → act.perform s = (.ok b, s') → b = a) (hkeeps : Keeps P act)
    {next : α → Act σ β} {next' : Act σ β} (hnext : Agrees P (next a) next') :
    Agrees P (act >>= next) (act >>= fun _ => next') := by
  intro s hs
  have hs' := hkeeps s hs
  rw [perform_bind, perform_bind]
  rcases hact : act.perform s with ⟨f | b, s'⟩
  · rfl
  · rw [hact] at hs'
    obtain rfl := h s b s' hs hact
    exact hnext s' hs'

end Act

theorem Body.fired_of_mute {body : Body} (hmute : ∀ e, .fire e ∉ body) : body.fired = [] := by
  induction body with
  | nil => rfl
  | cons action rest ih =>
    have hrest : ∀ e, .fire e ∉ rest := fun e he => hmute e (List.mem_cons_of_mem _ he)
    cases action with
    | fire e => exact absurd List.mem_cons_self (hmute e)
    | tick times => exact ih hrest
    | assume condition message? => rw [Body.fired, ih hrest, ite_self]
    | raise t | abort reason? | giveBack value => rfl

namespace Step

def act : Step → Act Session Unit
  | tell c => deliver c.event
  | run _ body? => do let _ ← invoke body?

def takeAll (steps : List Step) : Act Session Unit := steps.forM act

theorem perform_takeAll_cons (step : Step) (rest : List Step) (s : Session) :
    (takeAll (step :: rest)).perform s = (step.act >>= fun _ => takeAll rest).perform s :=
  Act.perform_forM_cons act step rest s

theorem perform_takeAll_append (steps rest : List Step) (s : Session) :
    (takeAll (steps ++ rest)).perform s = (takeAll steps >>= fun _ => takeAll rest).perform s :=
  Act.perform_forM_append act steps rest s

theorem perform_act_run (i : Identifier) (body? : Option Body) (s : Session) :
    (run i body?).act.perform s =
      (((invoke body?).perform s).1.map fun _ => (), ((invoke body?).perform s).2) := by
  have hbind : (run i body?).act.perform s = (invoke body? >>= fun _ => pure ()).perform s := rfl
  rw [hbind, Act.perform_bind]
  rcases (invoke body?).perform s with ⟨_ | _, _⟩ <;> rfl

def IsMute : Step → Prop
  | tell _ => True
  | run _ body? => ∀ body, body? = some body → ∀ e, .fire e ∉ body

theorem heard_of_mute {i : Identifier} {body? : Option Body} (hmute : (run i body?).IsMute) :
    (run i body?).heard = [] := by
  cases body? with
  | none => rfl
  | some body => exact Body.fired_of_mute (hmute body rfl)

theorem mem_heardAll {steps : List Step} (hmute : ∀ step ∈ steps, step.IsMute) {e : Event} :
    e ∈ heardAll steps ↔ ∃ c, .tell c ∈ steps ∧ c.event = e := by
  constructor
  · intro he
    obtain ⟨step, hstep, he⟩ := List.mem_flatMap.1 he
    cases step with
    | tell c => exact ⟨c, hstep, (List.mem_singleton.1 he).symm⟩
    | run i body? =>
      rw [heard_of_mute (hmute _ hstep)] at he
      cases he
  · rintro ⟨c, hc, rfl⟩
    exact List.mem_flatMap.2 ⟨_, hc, List.mem_singleton_self _⟩

def Completes : Step → Prop
  | tell _ => True
  | run _ body? => ∀ f, Body.raised? body? = some f → f.isInterrupt = false

def moments : Step → List Moment
  | tell c => [.call c]
  | run _ body? => Moment.reads (Body.readingsOf body?)

def momentsAll (steps : List Step) : List Moment := steps.flatMap moments

theorem momentsAll_cons (step : Step) (rest : List Step) :
    momentsAll (step :: rest) = step.moments ++ momentsAll rest := rfl

theorem momentsAll_append (xs ys : List Step) :
    momentsAll (xs ++ ys) = momentsAll xs ++ momentsAll ys := List.flatMap_append

theorem mem_callsOf_momentsAll {steps : List Step} {c : Call} :
    c ∈ callsOf (momentsAll steps) ↔ .tell c ∈ steps := by
  induction steps with
  | nil => exact iff_of_false List.not_mem_nil List.not_mem_nil
  | cons step rest ih =>
    rw [momentsAll_cons, callsOf_append, List.mem_append, ih, List.mem_cons]
    cases step with
    | tell d =>
      rw [show callsOf (tell d).moments = [d] from rfl, List.mem_singleton, Step.tell.injEq]
    | run i body? =>
      rw [show callsOf (run i body?).moments = [] from callsOf_reads _]
      simp

end Step

namespace SuiteNode

open Step

variable {parent? : Option String} {n : SuiteNode}

theorem mem_code_of_block {i : Identifier} {body : Body}
    (h : .run i (some body) ∈ n.block parent?) :
    ∃ g, (i, g) ∈ n.listing parent? ∧ body ∈ g.code := by
  induction n using induct generalizing parent? with
  | step n ih =>
    rw [listing_eq]
    cases hskip : n.label.skip? with
    | some reason =>
      rw [block_skipped hskip, List.mem_singleton] at h
      cases h
    | none =>
      cases n with
      | test label body? =>
        rw [block_test (show label.skip? = none from hskip)] at h
        simp only [List.mem_cons, reduceCtorEq, Step.run.injEq, List.not_mem_nil, or_false,
          false_or] at h
        obtain ⟨rfl, hbody⟩ := h
        exact ⟨_, List.mem_cons_self, mem_code_of_body hbody.symm⟩
      | group isEngine label hooks children =>
        rw [block_group (show label.skip? = none from hskip)] at h
        simp only [List.mem_append, List.mem_cons, reduceCtorEq, Step.run.injEq, List.not_mem_nil,
          or_false, false_or] at h
        rcases h with (⟨rfl, hbody⟩ | h) | ⟨rfl, hbody⟩
        · exact ⟨_, List.mem_cons_self, mem_code_of_before hbody.symm⟩
        · split at h
          · obtain ⟨m, hm, hstep⟩ := mem_blockAll.1 h
            obtain ⟨g, hg, hcode⟩ := ih m hm hstep
            exact ⟨g, List.mem_cons_of_mem _ (mem_listingAll.2 ⟨m, hm, hg⟩), hcode⟩
          · cases h
        · exact ⟨_, List.mem_cons_self, mem_code_of_after hbody.symm⟩

theorem isMute_of_block {forest : List SuiteNode} (hmute : MuteForest forest) {step : Step}
    (h : step ∈ blockAll none forest) : step.IsMute := by
  cases step with
  | tell c => trivial
  | run i body? =>
    rintro body rfl
    obtain ⟨e, he, hrun⟩ := mem_blockAll.1 h
    obtain ⟨g, hg, hcode⟩ := mem_code_of_block hrun
    exact hmute _ (mem_listingAll.2 ⟨e, he, hg⟩) body hcode

theorem completes_of_block {forest : List SuiteNode} (hplain : PlainForest forest) {step : Step}
    (h : step ∈ blockAll none forest) : step.Completes := by
  cases step with
  | tell c => trivial
  | run i body? =>
    refine fun f hf => Body.raised_not_interrupt ?_ hf
    rintro body rfl
    obtain ⟨e, he, hrun⟩ := mem_blockAll.1 h
    obtain ⟨g, hg, hcode⟩ := mem_code_of_block hrun
    exact hplain _ (mem_listingAll.2 ⟨e, he, hg⟩) body hcode

theorem runs_blockAll {ns : List SuiteNode}
    (h : ∀ m ∈ ns, Runs parent? m (momentsAll (m.block parent?))) :
    RunsAll parent? ns (momentsAll (blockAll parent? ns)) := by
  induction ns with
  | nil =>
    rw [blockAll]
    exact .nil
  | cons n rest ih =>
    rw [blockAll, momentsAll_append]
    exact .cons (h n List.mem_cons_self) (ih fun m hm => h m (List.mem_cons_of_mem n hm))
      (Interleave.append _ _)

theorem runs_block (n : SuiteNode) (parent? : Option String) :
    Runs parent? n (momentsAll (n.block parent?)) := by
  induction n using induct generalizing parent? with
  | step n ih =>
    cases hskip : n.label.skip? with
    | some reason =>
      rw [block_skipped hskip]
      exact .skipped hskip
    | none =>
      cases n with
      | test label body? =>
        rw [block_test (show label.skip? = none from hskip)]
        exact .test hskip
      | group isEngine label hooks children =>
        have hskip : label.skip? = none := hskip
        cases hraised : Body.raised? hooks.before? with
        | some f =>
          rw [block_blocked hskip hraised]
          exact .blocked hskip hraised
        | none =>
          have hinner := runs_blockAll fun m (hm : m ∈ children) => ih m hm
            (some ((group isEngine label hooks children).identifier parent?).id)
          have hruns : Runs parent? (group isEngine label hooks children) _ :=
            .group hskip hraised hinner
          rw [block_open hskip hraised]
          dsimp only
          rw [momentsAll_cons, momentsAll_cons, momentsAll_append]
          exact hruns

theorem runsForest_blocks (forest : List SuiteNode) :
    RunsForest forest (momentsAll (blockAll none forest)) := by
  induction forest with
  | nil =>
    rw [blockAll]
    exact .nil
  | cons e rest ih =>
    rw [blockAll, momentsAll_append]
    exact .cons (runs_block e none) ih

end SuiteNode

namespace Session

open SuiteNode Step Act

variable {P : Session → Prop} {p : Plan} {forest : List SuiteNode} {parent? : Option String}
  {n : SuiteNode}

/-- What the code of a forest comes to, unless it is interrupted, can be read off it. -/
def Foresees (P : Session → Prop) (forest : List SuiteNode) : Prop :=
  ∀ entry ∈ listingAll none forest, ∀ body ∈ entry.2.code, ∀ s result s', P s →
    (Session.invoke (some body)).perform s = (.ok result, s') → result = .after body.fault?

theorem Foresees.invoke (h : Foresees P forest) {i : Identifier} {g : SuiteNode}
    (hmem : (i, g) ∈ listingAll none forest) {body? : Option Body}
    (hcode : ∀ body, body? = some body → body ∈ g.code) {s s' : Session} {result : ExecutionResult}
    (hs : P s) (hact : (Session.invoke body?).perform s = (.ok result, s')) :
    result = .after (Body.raised? body?) := by
  cases body? with
  | none =>
    cases hact
    rfl
  | some body => exact h _ hmem body (hcode body rfl) s result s' hs hact

theorem Steady.keeps_step (h : Steady P p forest) (hp : p.Lists forest)
    (hlisted : ∀ entry ∈ n.listing parent?, entry ∈ listingAll none forest) {step : Step}
    (hstep : step ∈ n.block parent?) : Keeps P step.act := by
  cases step with
  | tell c =>
    obtain ⟨⟨i, g⟩, hmem, hi⟩ := List.mem_map.1 (identifier_mem_of_block hstep)
    exact h.tell hp (hlisted _ hmem) c hi.symm
  | run i body? =>
    cases body? with
    | none => exact keeps_pure ()
    | some body =>
      obtain ⟨g, hg, hcode⟩ := mem_code_of_block hstep
      exact (h.invoke _ (hlisted _ hg) body hcode).bind fun _ => keeps_pure ()

theorem Steady.keeps_block (h : Steady P p forest) (hp : p.Lists forest)
    (hlisted : ∀ entry ∈ n.listing parent?, entry ∈ listingAll none forest) :
    Keeps P (takeAll (n.block parent?)) :=
  keeps_forM fun _ hstep => h.keeps_step hp hlisted hstep

section Rows

variable {act : Act Session Unit} {xs ys : List Step}

theorem agrees_tell {c : Call} (hkeeps : Keeps P (deliver c.event))
    (h : Agrees P act (takeAll xs)) :
    Agrees P (deliver c.event >>= fun _ => act) (takeAll (.tell c :: xs)) :=
  (Agrees.refl (deliver c.event)).bind hkeeps fun _ => h

theorem agrees_tell_last (c : Call) : Agrees P (deliver c.event) (takeAll [.tell c]) := by
  intro s _
  rw [perform_takeAll_cons, perform_bind]
  rcases hact : (Step.tell c).act.perform s with ⟨_ | _, _⟩ <;> exact hact

theorem agrees_run (i : Identifier) {body? : Option Body}
    {next : ExecutionResult → Act Session Unit}
    (hknown : ∀ s result s', P s → (invoke body?).perform s = (.ok result, s') →
      result = .after (Body.raised? body?))
    (hkeeps : Keeps P (invoke body?))
    (h : Agrees P (next (.after (Body.raised? body?))) (takeAll xs)) :
    Agrees P (invoke body? >>= next) (takeAll (.run i body? :: xs)) := by
  refine (Agrees.bind_answer hknown hkeeps h).trans fun s _ => ?_
  rw [perform_takeAll_cons, perform_bind, perform_bind, perform_act_run]
  rcases (invoke body?).perform s with ⟨_ | _, _⟩ <;> rfl

theorem agrees_append (h : Agrees P act (takeAll xs)) (hkeeps : Keeps P (takeAll xs))
    {act' : Act Session Unit} (h' : Agrees P act' (takeAll ys)) :
    Agrees P (act >>= fun _ => act') (takeAll (xs ++ ys)) :=
  (h.bind (h.keeps hkeeps) fun _ => h').trans fun s _ => (perform_takeAll_append xs ys s).symm

end Rows

theorem recurseAll_agrees {ns : List SuiteNode}
    (h : ∀ m ∈ ns, Agrees P (m.recurse parent?) (takeAll (m.block parent?)) ∧
      Keeps P (takeAll (m.block parent?))) :
    Agrees P (recurseAll parent? ns) (takeAll (blockAll parent? ns)) := by
  induction ns with
  | nil =>
    rw [recurseAll, blockAll]
    exact .refl _
  | cons n rest ih =>
    obtain ⟨hagrees, hkeeps⟩ := h n List.mem_cons_self
    rw [recurseAll, blockAll]
    exact agrees_append hagrees hkeeps (ih fun m hm => h m (List.mem_cons_of_mem n hm))

theorem Steady.test_agrees (h : Steady P p forest) (hp : p.Lists forest)
    (hforesees : Foresees P forest) {label : Label} {body? : Option Body}
    (hmem : ((test label body?).identifier parent?, test label body?) ∈ listingAll none forest)
    (hskip : label.skip? = none) :
    Agrees P ((test label body?).recurse parent?) (takeAll ((test label body?).block parent?)) := by
  let i := (test label body?).identifier parent?
  have hcode (body : Body) (hb : body? = some body) : body ∈ (test label body?).code :=
    mem_code_of_body hb
  have hlast := agrees_tell_last (P := P) (.finished i (.after (Body.raised? body?)))
  rw [recurse_test hskip, block_test hskip]
  exact agrees_tell (c := .started i) (h.tell hp hmem (.started i) rfl)
    (agrees_run i (fun _ _ _ => hforesees.invoke hmem hcode) (h.invoke_hook hmem hcode) hlast)

theorem Steady.group_agrees (h : Steady P p forest) (hp : p.Lists forest)
    (hforesees : Foresees P forest) {isEngine : Bool} {label : Label} {hooks : Hooks}
    {children : List SuiteNode} {i : Identifier}
    (hi : (group isEngine label hooks children).identifier parent? = i)
    (hmem : (i, group isEngine label hooks children) ∈ listingAll none forest)
    (hskip : label.skip? = none)
    (hbelow : Agrees P (recurseAll (some i.id) children) (takeAll (blockAll (some i.id) children)))
    (hkept : Keeps P (takeAll (blockAll (some i.id) children))) :
    Agrees P ((group isEngine label hooks children).recurse parent?)
      (takeAll ((group isEngine label hooks children).block parent?)) := by
  have hbefore (body : Body) (hb : hooks.before? = some body) :
      body ∈ (group isEngine label hooks children).code := mem_code_of_before hb
  have hafter (body : Body) (hb : hooks.after? = some body) :
      body ∈ (group isEngine label hooks children).code := mem_code_of_after hb
  have hfirst {next : ExecutionResult → Act Session Unit} {rest : List Step}
      (hnext : Agrees P (next (.after (Body.raised? hooks.before?))) (takeAll rest)) :
      Agrees P (Session.deliver (.started i) >>= fun _ => Session.invoke hooks.before? >>= next)
        (takeAll (.tell (.started i) :: .run i hooks.before? :: rest)) :=
    agrees_tell (c := .started i) (h.tell hp hmem (.started i) rfl)
      (agrees_run i (fun _ _ _ => hforesees.invoke hmem hbefore) (h.invoke_hook hmem hbefore) hnext)
  have hend (which : ExecutionResult → ExecutionResult) : Agrees P (do
      let after ← Session.invoke hooks.after?
      Session.deliver (.finished i (which after)))
      (takeAll [.run i hooks.after?,
        .tell (.finished i (which (.after (Body.raised? hooks.after?))))]) :=
    agrees_run i (fun _ _ _ => hforesees.invoke hmem hafter) (h.invoke_hook hmem hafter)
      (agrees_tell_last (.finished i (which (.after (Body.raised? hooks.after?)))))
  rw [recurse_group hskip]
  cases hraised : Body.raised? hooks.before? with
  | some f =>
    have hfailed : ¬ (ExecutionResult.after (some f)).status = .successful := by
      rw [ExecutionResult.status_after]
      exact nofun
    rw [block_blocked hskip hraised, hi]
    refine hfirst ?_
    rw [hraised, if_neg hfailed]
    simp only [if_neg hfailed]
    exact hend fun _ => .after (some f)
  | none =>
    rw [block_open hskip hraised, hi]
    refine hfirst ?_
    rw [hraised, if_pos (show (ExecutionResult.after none).status = .successful from rfl)]
    exact agrees_append hbelow hkept (hend id)

theorem Steady.recurse_agrees (h : Steady P p forest) (hp : p.Lists forest)
    (hforesees : Foresees P forest) (n : SuiteNode) (parent? : Option String)
    (hlisted : ∀ entry ∈ n.listing parent?, entry ∈ listingAll none forest) :
    Agrees P (n.recurse parent?) (takeAll (n.block parent?)) := by
  induction n using induct generalizing parent? with
  | step n ih =>
    have hlisted' := hlisted
    rw [listing_eq] at hlisted'
    have hmem := hlisted' _ List.mem_cons_self
    cases hskip : n.label.skip? with
    | some reason =>
      rw [recurse_skipped hskip, block_skipped hskip]
      exact agrees_tell_last (.skipped _ (some reason))
    | none =>
      cases n with
      | test label body? => exact h.test_agrees hp hforesees hmem hskip
      | group isEngine label hooks children =>
        let i := (group isEngine label hooks children).identifier parent?
        have hbelow (m : SuiteNode) (hm : m ∈ children) (entry : Identifier × SuiteNode)
            (hentry : entry ∈ m.listing (some i.id)) : entry ∈ listingAll none forest :=
          hlisted' entry (List.mem_cons_of_mem _ (mem_listingAll.2 ⟨m, hm, hentry⟩))
        refine h.group_agrees hp hforesees rfl hmem hskip
          (recurseAll_agrees fun m hm => ⟨ih m hm _ (hbelow m hm), h.keeps_block hp (hbelow m hm)⟩)
          (keeps_forM fun step hstep => ?_)
        obtain ⟨m, hm, hstep⟩ := mem_blockAll.1 hstep
        exact h.keeps_step hp (hbelow m hm) hstep

variable {o : Settings} {directory? : Option Path} {aware : Bool} {log : List Call}
  {s s₁ s₂ : Session} {steps : List Step} {d : Discovery}

theorem Follows.takes_step (h : s.Follows o directory? p aware log) {step : Step}
    (hid : step.identifier.id ∈ p.ids) (hmute : step.IsMute) (hcompletes : step.Completes) :
    ∃ s', step.act.perform s = (.ok (), s') ∧
      Played o directory? p aware log step.moments s s' := by
  cases step with
  | tell c => exact h.call hid
  | run i body? =>
    obtain ⟨s', hinvoke, hplayed⟩ := h.invoke_mute hmute
    refine ⟨s', ?_, hplayed⟩
    rw [perform_act_run, hinvoke, Body.outcome_eq_ok fun {f} hf => hcompletes f hf]
    rfl

theorem Follows.takes (h : s.Follows o directory? p aware log)
    (hids : ∀ step ∈ steps, step.identifier.id ∈ p.ids) (hmute : ∀ step ∈ steps, step.IsMute)
    (hcompletes : ∀ step ∈ steps, step.Completes) :
    ∃ s', (takeAll steps).perform s = (.ok (), s') ∧
      Played o directory? p aware log (momentsAll steps) s s' := by
  induction steps generalizing s log with
  | nil => exact ⟨s, rfl, h.play_nil⟩
  | cons step rest ih =>
    obtain ⟨s₁, hact, hplayed₁⟩ := h.takes_step (hids step List.mem_cons_self)
      (hmute step List.mem_cons_self) (hcompletes step List.mem_cons_self)
    obtain ⟨s₂, hrest, hplayed₂⟩ := ih hplayed₁.follows
      (fun x hx => hids x (List.mem_cons_of_mem step hx))
      (fun x hx => hmute x (List.mem_cons_of_mem step hx))
      (fun x hx => hcompletes x (List.mem_cons_of_mem step hx))
    refine ⟨s₂, ?_, hplayed₁.append hplayed₂⟩
    rw [perform_takeAll_cons, perform_bind_ok hact]
    exact hrest

theorem Follows.takes_blocks (h : s.Follows o directory? p aware log) (hp : p.Lists forest)
    (hmute : MuteForest forest) (hcompletes : ∀ step ∈ blockAll none forest, step.Completes)
    (hsteps : steps ⊆ blockAll none forest) :
    ∃ s', (takeAll steps).perform s = (.ok (), s') ∧
      Played o directory? p aware log (momentsAll steps) s s' := by
  refine h.takes (fun step hstep => ?_) (fun step hstep => isMute_of_block hmute (hsteps hstep))
    fun step hstep => hcompletes step (hsteps hstep)
  obtain ⟨e, he, hblock⟩ := mem_blockAll.1 (hsteps hstep)
  rw [Plan.ids, show p.identifiers = _ from hp]
  exact List.mem_map_of_mem (mem_identifiersInAll.2 ⟨e, he, identifier_mem_of_block hblock⟩)

theorem keeps_run_ear {i : Identifier} {body? : Option Body} (hmute : (Step.run i body?).IsMute)
    (audience : List Seat) (heard : Array Event) :
    Keeps (Ear audience heard) (Step.run i body?).act := by
  cases body? with
  | none => exact keeps_pure ()
  | some body =>
    exact (keeps_invoke (inward_ear audience heard) fun e he =>
      absurd he (hmute body rfl e)).bind fun _ => keeps_pure ()

theorem carries_step {step : Step} (hmute : step.IsMute) {audience : List Seat}
    (hone : audience.count .recorder = 1) (heard : Array Event) :
    Carries (Ear audience heard) step.act (Ear audience (heard ++ step.heard.toArray))
      fun _ => True := by
  cases step with
  | tell c =>
    have hne : c.event ≠ .planFinished none := by cases c <;> exact nofun
    have hpush : heard ++ [c.event].toArray = heard.push c.event := Array.push_eq_append.symm
    change Carries _ (deliver c.event) (Ear audience (heard ++ [c.event].toArray)) _
    rw [hpush]
    exact (carries_deliver hne hone heard).weaken fun _ _ => trivial
  | run i body? =>
    rw [heard_of_mute hmute, Array.append_empty]
    exact (keeps_run_ear hmute audience heard).carries.weaken fun _ _ => trivial

theorem carries_takeAll (hmute : ∀ step ∈ steps, step.IsMute) {audience : List Seat}
    (hone : audience.count .recorder = 1) (heard : Array Event) :
    Carries (Ear audience heard) (takeAll steps) (Ear audience (heard ++ (heardAll steps).toArray))
      fun _ => True := by
  induction steps generalizing heard with
  | nil =>
    rw [show heardAll [] = [] from rfl, Array.append_empty]
    exact carries_pure ()
  | cons step rest ih =>
    have hrest := ih (fun x hx => hmute x (List.mem_cons_of_mem step hx))
      (heard ++ step.heard.toArray)
    have hall : heard ++ step.heard.toArray ++ (heardAll rest).toArray =
        heard ++ (heardAll (step :: rest)).toArray := by
      rw [Array.append_assoc, show heardAll (step :: rest) = step.heard ++ heardAll rest from rfl,
        ← List.append_toArray]
    rw [hall] at hrest
    exact (carries_step (hmute step List.mem_cons_self) hone heard).bind fun _ => hrest

/-- An interrupt breaks off a step. It leaves files and records as they were. -/
theorem Follows.breaks_off (h : s.Follows o directory? p aware log) (i : Identifier) {body : Body}
    (hmute : (Step.run i (some body)).IsMute) {f : Fault} (hfault : body.fault? = some f)
    (hinterrupt : f.isInterrupt = true) :
    ∃ s', (Step.run i (some body)).act.perform s = (.error f, s') ∧
      s'.surroundings.disk = s.surroundings.disk ∧ s'.heard = s.heard := by
  obtain ⟨s', hinvoke, hplayed⟩ := h.invoke_mute hmute
  have houtcome : Body.outcome (some body) = .error f := by
    unfold Body.outcome
    rw [show Body.raised? (some body) = some f from hfault]
    exact if_pos hinterrupt
  have hact : (Step.run i (some body)).act.perform s = (.error f, s') := by
    rw [perform_act_run, hinvoke, houtcome]
    rfl
  have hbuilt := hplayed.builds
  rw [callsOf_reads] at hbuilt
  have hkept := keeps_run_ear hmute s.audience s.heard s ⟨rfl, rfl⟩
  rw [hact] at hkept
  refine ⟨s', hact, ?_, hkept.2⟩
  rw [hplayed.disk_eq, hbuilt.eq_nil (List.forall_mem_nil _)]
  rfl

theorem takeAll_breaks_off {step : Step} {f : Fault}
    (htaken : (takeAll steps).perform s = (.ok (), s₁))
    (hact : step.act.perform s₁ = (.error f, s₂)) (rest : List Step) :
    (takeAll (steps ++ step :: rest)).perform s = (.error f, s₂) := by
  rw [perform_takeAll_append, perform_bind_ok htaken, perform_takeAll_cons, perform_bind_error hact]

def Following (o : Settings) (directory? : Option Path) (p : Plan) (aware : Bool) (s : Session) :
    Prop := ∃ log, s.Follows o directory? p aware log

theorem steady_following (hmute : MuteForest forest) :
    Steady (Following o directory? p aware) p forest := by
  refine ⟨?_, ?_, ?_⟩
  · rintro s ⟨log, hs⟩
    exact hs.underway.holds.plan_eq
  · rintro c hc s ⟨log, hs⟩
    obtain ⟨s', hact, hfollows, -⟩ := hs.deliver_call hc
    rw [hact]
    exact ⟨_, hfollows⟩
  · rintro entry hentry body hbody s ⟨log, hs⟩
    have hbody' : ∀ other, some body = some other → ∀ e, .fire e ∉ other := by
      rintro other ⟨⟩
      exact hmute entry hentry body hbody
    obtain ⟨s', hact, hplayed⟩ := hs.invoke_mute hbody'
    rw [hact]
    exact ⟨_, hplayed.follows⟩

theorem foresees_following (hmute : MuteForest forest) :
    Foresees (Following o directory? p aware) forest := by
  rintro entry hentry body hbody s result s' ⟨log, hs⟩ hact
  have hbody' : ∀ other, some body = some other → ∀ e, .fire e ∉ other := by
    rintro other ⟨⟩
    exact hmute entry hentry body hbody
  obtain ⟨s₁, hinvoke, -⟩ := hs.invoke_mute hbody'
  have houtcome : Body.outcome (some body) = .ok result :=
    congrArg Prod.fst (hinvoke.symm.trans hact)
  unfold Body.outcome at houtcome
  change _ = ExecutionResult.after (Body.raised? (some body))
  cases hraised : Body.raised? (some body) with
  | none =>
    rw [hraised] at houtcome
    exact (Except.ok.inj houtcome).symm
  | some f =>
    rw [hraised] at houtcome
    dsimp only at houtcome
    split at houtcome
    · cases houtcome
    · exact (Except.ok.inj houtcome).symm

def runSteps (d : Discovery) (steps : List Step) : Act Session Unit := do
  openPlan d
  takeAll steps
  closePlan

theorem Ready.run_eq (hs : s.Ready aware) (hd : Discovery.ofForest forest = .ok d)
    (hmute : MuteForest forest) {r : Runner} (hr : r.workers = 1) :
    (Session.run r forest).perform s = (runSteps d (blockAll none forest)).perform s := by
  let p := Plan.ofList (s.plansMade + 1) d.identifiers
  obtain ⟨s₁, directory?, hopen, hp, hfollows, -⟩ := perform_openPlan hd hs
  let P := Following s.writer.settings directory? p aware
  have hsteady : Steady P p forest := steady_following hmute
  have hopened : P ((openPlan d).perform s).2 := by
    rw [hopen]
    exact ⟨[], hfollows⟩
  have hlisted (e : SuiteNode) (he : e ∈ forest) (entry : Identifier × SuiteNode)
      (hentry : entry ∈ e.listing none) : entry ∈ listingAll none forest :=
    mem_listingAll.2 ⟨e, he, hentry⟩
  have hforest : Agrees P (recurseAll none forest) (takeAll (blockAll none forest)) :=
    recurseAll_agrees fun e he => ⟨hsteady.recurse_agrees hp (foresees_following hmute) e none
      (hlisted e he), hsteady.keeps_block hp (hlisted e he)⟩
  rw [hsteady.run_eq hd hp hopened hr]
  unfold runRecursively runSteps
  rw [perform_bind_ok hopen, perform_bind_ok hopen, perform_bind, perform_bind,
    hforest s₁ ⟨[], hfollows⟩]

end Session

end TestRun
