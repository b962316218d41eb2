import TestRun.Proofs.Listener.Holding
import TestRun.Proofs.Suite.Running
set_option autoImplicit false

/-!
# Execution by recursion

A forest can be executed by recursion on its nodes alone, with no table of nodes and no plan to take
children from. A runner with one worker does the same, as long as the plan at hand stays what it
was discovered to be.
-/

namespace TestRun

open TestRun.Tree (Call)
open Session (deliver invoke)

namespace SuiteNode

mutual

def recurse (parent? : Option String) : SuiteNode → Act Session Unit
  | test label body? =>
    let i := (test label body?).identifier parent?
    match label.skip? with
    | some reason => deliver (.skipped i (some reason))
    | none => do
      deliver (.started i)
      let result ← invoke body?
      deliver (.finished i result)
  | group isEngine label hooks children =>
    let i := (group isEngine label hooks children).identifier parent?
    match label.skip? with
    | some reason => deliver (.skipped i (some reason))
    | none => do
      deliver (.started i)
      let before ← invoke hooks.before?
      if before.status = .successful then recurseAll (some i.id) children
      let after ← invoke hooks.after?
      deliver (.finished i (if before.status = .successful then after else before))

def recurseAll (parent? : Option String) : List SuiteNode → Act Session Unit
  | [] => pure ()
  | n :: rest => do
    recurse parent? n
    recurseAll parent? rest

end

theorem recurse_skipped {n : SuiteNode} {reason : String} (h : n.label.skip? = some reason)
    (parent? : Option String) :
    n.recurse parent? = deliver (.skipped (n.identifier parent?) (some reason)) := by
  cases n with
  | test label body? =>
    rw [recurse]
    simp only [show label.skip? = some reason from h]
  | group isEngine label hooks children =>
    rw [recurse]
    simp only [show label.skip? = some reason from h]

theorem recurse_test {label : Label} (h : label.skip? = none) (body? : Option Body)
    (parent? : Option String) :
    (test label body?).recurse parent? = (do
      deliver (.started ((test label body?).identifier parent?))
      let result ← invoke body?
      deliver (.finished ((test label body?).identifier parent?) result)) := by
  rw [recurse]
  simp only [h]

theorem recurse_group {label : Label} (h : label.skip? = none) (isEngine : Bool) (hooks : Hooks)
    (children : List SuiteNode) (parent? : Option String) :
    (group isEngine label hooks children).recurse parent? = (do
      let i := (group isEngine label hooks children).identifier parent?
      deliver (.started i)
      let before ← invoke hooks.before?
      if before.status = .successful then recurseAll (some i.id) children
      let after ← invoke hooks.after?
      deliver (.finished i (if before.status = .successful then after else before))) := by
  rw [recurse]
  simp only [h]

end SuiteNode

namespace Act

variable {σ α β : Type} {P : σ → Prop}

def Agrees (P : σ → Prop) (act act' : Act σ α) : Prop :=
  ∀ s, P s → act.perform s = act'.perform s

theorem Agrees.refl (act : Act σ α) : Agrees P act act := fun _ _ => rfl

theorem Agrees.bind {act act' : Act σ α} (h : Agrees P act act') (hkeeps : Keeps P act)
    {next next' : α → Act σ β} (hnext : ∀ a, Agrees P (next a) (next' a)) :
    Agrees P (act >>= next) (act' >>= next') := by
  intro s hs
  have hs' := hkeeps s hs
  rw [perform_bind, perform_bind, ← h s hs]
  rcases hact : act.perform s with ⟨f | a, s'⟩
  · rfl
  · rw [hact] at hs'
    exact hnext a s' hs'

theorem Agrees.keeps {act act' : Act σ α} (h : Agrees P act act') (hkeeps : Keeps P act') :
    Keeps P act := by
  intro s hs
  rw [h s hs]
  exact hkeeps s hs

end Act

namespace Session

open SuiteNode Act

/-- What a run on a plan with the code of a forest keeps of a session, the plan itself included. -/
structure Steady (P : Session → Prop) (p : Plan) (forest : List SuiteNode) : Prop where
  plan_eq : ∀ s, P s → s.plan = p
  deliver : ∀ c : Call, c.identifier.id ∈ p.ids → Keeps P (deliver c.event)
  invoke : ∀ entry ∈ listingAll none forest, ∀ body ∈ entry.2.code, Keeps P (invoke (some body))

variable {P : Session → Prop} {p : Plan} {forest : List SuiteNode}

theorem Steady.tell (h : Steady P p forest) (hp : p.Lists forest) {i : Identifier} {n : SuiteNode}
    (hmem : (i, n) ∈ listingAll none forest) (c : Call) (hc : c.identifier = i) :
    Keeps P (Session.deliver c.event) :=
  h.deliver c (hc ▸ List.mem_map_of_mem (hp.mem hmem))

theorem Steady.invoke_hook (h : Steady P p forest) {i : Identifier} {n : SuiteNode}
    (hmem : (i, n) ∈ listingAll none forest) {body? : Option Body}
    (hcode : ∀ body, body? = some body → body ∈ n.code) : Keeps P (Session.invoke body?) := by
  cases body? with
  | none => exact keeps_pure _
  | some body => exact h.invoke _ hmem body (hcode body rfl)

theorem eachChild_serial (act : Identifier → Act Session Unit) (is : List Identifier) :
    eachChild false act is none = is.forM act := by
  induction is with
  | nil => rfl
  | cons i is ih =>
    rw [eachChild, ih]
    rfl

theorem forM_agrees {parent? : Option String} {act : Identifier → Act Session Unit}
    {ns : List SuiteNode}
    (h : ∀ m ∈ ns, Agrees P (act (m.identifier parent?)) (m.recurse parent?) ∧
      Keeps P (m.recurse parent?)) :
    Agrees P ((ns.map (identifier · parent?)).forM act) (recurseAll parent? ns) ∧
      Keeps P (recurseAll parent? ns) := by
  induction ns with
  | nil =>
    rw [recurseAll]
    exact ⟨.refl _, keeps_pure _⟩
  | cons n rest ih =>
    obtain ⟨hagrees, hkeeps⟩ := h n List.mem_cons_self
    obtain ⟨hrest, hrest'⟩ := ih fun m hm => h m (List.mem_cons_of_mem n hm)
    rw [recurseAll, List.map_cons]
    exact ⟨hagrees.bind (hagrees.keeps hkeeps) fun _ => hrest, hkeeps.bind fun _ => hrest'⟩

theorem Steady.execute_test (h : Steady P p forest) (hp : p.Lists forest) {label : Label}
    {body? : Option Body} {parent? : Option String} {nodes : Table String SuiteNode}
    (hmem : ((test label body?).identifier parent?, test label body?) ∈ listingAll none forest)
    (hget : nodes.get? ((test label body?).identifier parent?).id = some (test label body?))
    (hskip : label.skip? = none) (depth : Nat) :
    Agrees P (execute nodes false (depth + 1) ((test label body?).identifier parent?))
        ((test label body?).recurse parent?) ∧
      Keeps P ((test label body?).recurse parent?) := by
  have hbody : Keeps P (Session.invoke body?) :=
    h.invoke_hook hmem fun _ => mem_code_of_body
  rw [execute, hget, recurse_test hskip]
  dsimp only
  rw [show (test label body?).label.skip? = none from hskip]
  exact ⟨.refl _, (h.tell hp hmem (.started _) rfl).bind fun _ =>
    hbody.bind fun result => h.tell hp hmem (.finished _ result) rfl⟩

theorem Steady.execute_group (h : Steady P p forest) (hp : p.Lists forest) {isEngine : Bool}
    {label : Label} {hooks : Hooks} {children : List SuiteNode} {i : Identifier}
    {parent? : Option String} (hi : (group isEngine label hooks children).identifier parent? = i)
    (hmem : (i, group isEngine label hooks children) ∈ listingAll none forest)
    {nodes : Table String SuiteNode}
    (hget : nodes.get? i.id = some (group isEngine label hooks children))
    (hskip : label.skip? = none) {depth : Nat}
    (hbelow : ∀ m ∈ children,
      Agrees P (execute nodes false depth (m.identifier (some i.id))) (m.recurse (some i.id)) ∧
        Keeps P (m.recurse (some i.id))) :
    Agrees P (execute nodes false (depth + 1) i)
        ((group isEngine label hooks children).recurse parent?) ∧
      Keeps P ((group isEngine label hooks children).recurse parent?) := by
  have hstart : Keeps P (Session.deliver (.started i)) := h.tell hp hmem (.started i) rfl
  have hbefore : Keeps P (Session.invoke hooks.before?) :=
    h.invoke_hook hmem fun _ => mem_code_of_before
  have hafter : Keeps P (Session.invoke hooks.after?) :=
    h.invoke_hook hmem fun _ => mem_code_of_after
  have hend (which : ExecutionResult → ExecutionResult) : Keeps P (do
      let after ← Session.invoke hooks.after?
      Session.deliver (.finished i (which after))) :=
    hafter.bind fun after => h.tell hp hmem (.finished i (which after)) rfl
  obtain ⟨hchildren, hkept⟩ := forM_agrees hbelow
  rw [execute, hget, recurse_group hskip, hi]
  dsimp only
  rw [show (group isEngine label hooks children).label.skip? = none from hskip]
  constructor
  · refine (Agrees.refl _).bind hstart fun _ => (Agrees.refl _).bind hbefore fun before => ?_
    split
    · intro s hs
      have hplan : s.plan.children i.id = children.map (identifier · (some i.id)) := by
        rw [h.plan_eq s hs]
        exact hp.children_eq hmem
      rw [perform_get_bind, hplan, eachChild_serial]
      exact (hchildren.bind (hchildren.keeps hkept) fun _ => .refl _) s hs
    · exact .refl _
  · refine hstart.bind fun _ => hbefore.bind fun before => ?_
    split
    · exact hkept.bind fun _ => hend id
    · exact hend fun _ => before

theorem Steady.execute_agrees (h : Steady P p forest) (hp : p.Lists forest)
    {nodes : Table String SuiteNode}
    (hnodes : ∀ i n, (i, n) ∈ listingAll none forest → nodes.get? i.id = some n)
    (n : SuiteNode) (parent? : Option String) (depth : Nat)
    (hlisted : ∀ entry ∈ n.listing parent?, entry ∈ listingAll none forest)
    (hdepth : (n.listing parent?).length ≤ depth) :
    Agrees P (execute nodes false depth (n.identifier parent?)) (n.recurse parent?) ∧
      Keeps P (n.recurse parent?) := by
  induction n using induct generalizing parent? depth with
  | step n ih =>
    rw [listing_eq, List.length_cons] at hdepth
    obtain ⟨depth, rfl⟩ : ∃ d, depth = d + 1 := ⟨depth - 1, by omega⟩
    have hmem : (n.identifier parent?, n) ∈ listingAll none forest := by
      apply hlisted
      rw [listing_eq]
      exact List.mem_cons_self
    have hget := hnodes _ _ hmem
    cases hskip : n.label.skip? with
    | some reason =>
      rw [execute, hget, recurse_skipped hskip]
      dsimp only
      rw [hskip]
      exact ⟨.refl _, h.tell hp hmem (.skipped _ (some reason)) rfl⟩
    | none =>
      cases n with
      | test label body? => exact h.execute_test hp hmem hget hskip depth
      | group isEngine label hooks children =>
        refine h.execute_group hp rfl hmem hget hskip fun m hm => ?_
        refine ih m hm _ depth (fun entry hentry => ?_) ?_
        · apply hlisted
          rw [listing_eq]
          exact List.mem_cons_of_mem _ (mem_listingAll.2 ⟨m, hm, hentry⟩)
        · exact Nat.le_trans (sublist_listing hm).length_le (Nat.le_of_succ_le_succ hdepth)

def runRecursively (d : Discovery) (forest : List SuiteNode) : Act Session Unit := do
  openPlan d
  recurseAll none forest
  closePlan

theorem Steady.run_eq {s : Session} {d : Discovery} (hd : Discovery.ofForest forest = .ok d)
    (h : Steady P p forest) (hp : p.Lists forest) (hopen : P ((openPlan d).perform s).2)
    {r : Runner} (hr : r.workers = 1) :
    (run r forest).perform s = (runRecursively d forest).perform s := by
  have hfinds := Discovery.finds_of_forest hd
  have hroots : ∀ e ∈ forest,
      Agrees P (execute d.nodes false (d.identifiers.length + 1) (e.identifier none))
        (e.recurse none) ∧ Keeps P (e.recurse none) := by
    intro e he
    refine h.execute_agrees hp hfinds.get?_mem e none _ ?_ ?_
    · exact fun entry hentry => mem_listingAll.2 ⟨e, he, hentry⟩
    · rw [hfinds.identifiers_eq, List.length_map]
      exact Nat.le_succ_of_le (sublist_listing he).length_le
  obtain ⟨hforest, hkept⟩ := forM_agrees hroots
  have hserial : r.isParallel = false := by
    unfold Runner.isParallel
    rw [hr]
    rfl
  unfold run runRecursively
  rw [hd, hserial]
  have hrun : (runDiscovered d false).perform s =
      (openPlan d >>= fun _ => get >>= fun s =>
        s.plan.roots.forM (execute d.nodes false (d.identifiers.length + 1)) >>= fun _ =>
        closePlan).perform s := rfl
  change (runDiscovered d false).perform s = _
  rw [hrun]
  rcases hact : (openPlan d).perform s with ⟨f | _, s₁⟩
  · rw [perform_bind_error hact, perform_bind_error hact]
  · rw [hact] at hopen
    rw [perform_bind_ok hact, perform_bind_ok hact, perform_get_bind, h.plan_eq s₁ hopen,
      hp.roots_eq]
    exact hforest.bind (hforest.keeps hkept) (fun _ => .refl closePlan) s₁ hopen

/-- The property does not depend on what surrounds the session. -/
def Inward (P : Session → Prop) : Prop := ∀ s x, P s → P { s with surroundings := x }

theorem Inward.keeps_around {α : Type} (h : Inward P) (act : Act Surroundings α) :
    Keeps P (around act) := fun s hs => h s _ hs

theorem keeps_action (h : Inward P) {action : Action}
    (hfire : ∀ e, action = .fire e → Keeps P (deliver e)) : Keeps P action.run := by
  cases action with
  | tick times => exact (h.keeps_around _).bind fun _ => keeps_pure _
  | raise t | abort reason? | giveBack value => exact fun _ hs => hs
  | assume condition message? =>
    rw [Action.run]
    split
    · exact keeps_pure _
    · exact fun _ hs => hs
  | fire e => exact (hfire e rfl).bind fun _ => keeps_pure _

theorem keeps_body (h : Inward P) {body : Body}
    (hfire : ∀ e, .fire e ∈ body → Keeps P (deliver e)) : Keeps P (Body.run body) := by
  induction body with
  | nil => exact keeps_pure _
  | cons action rest ih =>
    have hrest := ih fun e he => hfire e (List.mem_cons_of_mem action he)
    have haction : Keeps P action.run :=
      keeps_action h fun e he => hfire e (he ▸ List.mem_cons_self)
    unfold Body.run
    refine haction.bind fun value? => ?_
    cases value? with
    | some value => exact keeps_pure _
    | none => exact hrest

theorem keeps_invoke (h : Inward P) {body : Body}
    (hfire : ∀ e, .fire e ∈ body → Keeps P (deliver e)) : Keeps P (invoke (some body)) := by
  have hattempt : Keeps P (Body.run body).attempt := keeps_body h hfire
  refine hattempt.bind fun answer => ?_
  cases answer with
  | ok value => exact keeps_pure _
  | error f =>
    dsimp only
    split
    · exact fun _ hs => hs
    · split <;> exact keeps_pure _

end Session

def MuteForest (forest : List SuiteNode) : Prop :=
  ∀ entry ∈ SuiteNode.listingAll none forest, ∀ body ∈ entry.2.code, ∀ e, Action.fire e ∉ body

namespace Session

open SuiteNode Act

variable {p : Plan} {forest : List SuiteNode} {s : Session}

theorem inward_holds (p : Plan) : Inward fun s => s.Holds p :=
  fun _ _ hs => ⟨hs.plan_eq, hs.writer, hs.console⟩

theorem steady_holds (hmute : MuteForest forest) : Steady (fun s => s.Holds p) p forest := by
  refine ⟨fun s hs => hs.plan_eq, fun c hc => keeps_deliver (concerns_call.2 hc), ?_⟩
  intro entry hentry body hbody
  exact keeps_invoke (inward_holds p) fun e he => absurd he (hmute entry hentry body hbody e)

structure Settled (s : Session) : Prop where
  writer : ∀ run, s.writer.run? = some run → run.tree.plan.serial ≤ s.plansMade
  console : ∀ tree, s.console.tree? = some tree → tree.plan.serial ≤ s.plansMade

theorem settled_fresh (x : Surroundings) (o : Writer.Settings) (audience : List Seat) :
    (fresh x o audience).Settled := by
  constructor
  · intro run hrun
    cases hrun
  · intro tree htree
    cases htree

theorem Settled.planned_holds (h : s.Settled) (d : Discovery) :
    (s.planned d).Holds (.ofList (s.plansMade + 1) d.identifiers) := by
  have hapart (t : Tree) (ht : t.plan.serial ≤ s.plansMade) :
      regrow (.ofList (s.plansMade + 1) d.identifiers) t = t := by
    rw [regrow_eq_iff, Plan.serial_ofList]
    omega
  exact ⟨rfl, fun run hrun => hapart _ (h.writer run hrun),
    fun tree htree => hapart _ (h.console tree htree)⟩

theorem Settled.openPlan_holds (h : s.Settled) (d : Discovery) :
    ((openPlan d).perform s).2.Holds (.ofList (s.plansMade + 1) d.identifiers) := by
  let p := Plan.ofList (s.plansMade + 1) d.identifiers
  have hstarted : Keeps (fun s => s.Holds p) (deliver (.planStarted p)) := keeps_deliver rfl
  rw [perform_openPlan_eq]
  exact hstarted _ (h.planned_holds d)

/-- Whoever listens, whatever the clock does and whatever faults there are, a runner with one worker
does what recursion on the forest does. -/
theorem run_eq_runRecursively {d : Discovery} (hd : Discovery.ofForest forest = .ok d)
    (hmute : MuteForest forest) {r : Runner} (hr : r.workers = 1) (hs : s.Settled) :
    (run r forest).perform s = (runRecursively d forest).perform s :=
  (steady_holds hmute).run_eq hd (Plan.ofList_lists hd _) (hs.openPlan_holds d) hr

end Session

end TestRun
