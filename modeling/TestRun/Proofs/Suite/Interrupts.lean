import TestRun.Proofs.Listener.Containment
import TestRun.Proofs.Suite.Dating
import TestRun.Proofs.Suite.Holes
import TestRun.Proofs.Suite.Steps
set_option autoImplicit false

namespace TestRun

open TestRun.Tree (Call endIn)
open Writer (Closes fileLocation CanFile)
open Files (Path Disk)
open Time (Instant timestampText)

namespace Hole

open SuiteNode Step

def allAhead (left : List SuiteNode) (hole : Hole) : List Step :=
  blockAll none left ++ hole.ahead none

def allBehind (hole : Hole) (right : List SuiteNode) : List Step :=
  hole.behind none ++ blockAll none right

variable {left right : List SuiteNode} {hole : Hole} {p : Plan}

theorem blockAll_fill (h : hole.IsReached) (body? : Option Body) (left right : List SuiteNode) :
    ∃ rest, blockAll none (left ++ hole.fill body? :: right) =
        hole.allAhead left ++ .run (hole.owner none) body? :: rest ∧
      (Body.raised? body? = none → rest = hole.allBehind right) := by
  obtain ⟨rest, hblock, hrest⟩ := hole.block_fill h body? none
  refine ⟨rest ++ blockAll none right, ?_, fun hnone => ?_⟩
  · rw [blockAll_append, blockAll, hblock]
    unfold allAhead
    simp only [List.append_assoc, List.cons_append]
  · rw [hrest hnone]
    rfl

variable {body? : Option Body} {c : Call}

theorem not_closes_ahead {forest : List SuiteNode} (hp : p.Lists forest) (h : hole.IsReached)
    (hmem : hole.fill body? ∈ forest) (hc : c ∈ callsOf (momentsAll (hole.ahead none)))
    (log : List Call) : ¬ Closes p log c := by
  have htell := mem_callsOf_momentsAll.1 hc
  have hat := identifier_mem_of_ahead h body? htell
  rw [identifiersIn_eq] at hat
  rcases List.mem_cons.1 hat with hself | hbelow
  · have hnodup : ((hole.fill body?).identifiersIn none).Nodup :=
      (sublist_of_mem hmem).nodup (hp.nodup.of_map _)
    have hchain : c.identifier ∈ hole.chain none := by
      rw [show c.identifier = _ from hself, identifier_fill]
      exact hole.identifier_mem_chain none
    have hending : c.ending? = none := by
      by_contra hends
      exact hole.unended_ahead h hnodup hends rfl hchain htell
    exact Writer.not_closes_of_ending hending
  · exact not_closes_of_below hp hmem hbelow log

theorem ended_allAhead (hole : Hole) {e : SuiteNode} (he : e ∈ left) :
    ∃ c, .tell c ∈ hole.allAhead left ∧ c.identifier = e.identifier none ∧ c.ending? ≠ none := by
  obtain ⟨c, hc, hends⟩ := e.exists_end none
  exact ⟨c, List.mem_append_left _ (mem_blockAll.2 ⟨e, he, hc⟩), hends⟩

theorem unended_allAhead (hp : p.Lists (left ++ hole.fill body? :: right)) (h : hole.IsReached)
    (hends : c.ending? ≠ none) (hc : c.identifier ∈ hole.chain none) :
    .tell c ∉ hole.allAhead left := by
  have hnodup := hp.nodup.of_map _
  have hmem : hole.fill body? ∈ left ++ hole.fill body? :: right :=
    List.mem_append_right _ List.mem_cons_self
  intro hstep
  rcases List.mem_append.1 hstep with hstep | hstep
  · exact untold_blockAll rfl (not_mem_left hnodup (hole.chain_subset body? none hc)) hstep
  · exact hole.unended_ahead h ((sublist_of_mem hmem).nodup hnodup) hends rfl hc hstep

theorem untold_allAhead (hp : p.Lists (left ++ hole.fill body? :: right)) (h : hole.IsReached)
    (hc : c.identifier ∈ identifiersInAll none right) : .tell c ∉ hole.allAhead left := by
  have hnodup := hp.nodup.of_map _
  rw [identifiersInAll_append, identifiersInAll_cons, ← List.append_assoc,
    List.nodup_append] at hnodup
  intro hstep
  refine hnodup.2.2 c.identifier (List.mem_append.2 ?_) c.identifier hc rfl
  rcases List.mem_append.1 hstep with hstep | hstep
  · obtain ⟨m, hm, hblock⟩ := mem_blockAll.1 hstep
    exact .inl (mem_identifiersInAll.2 ⟨m, hm, identifier_mem_of_block hblock⟩)
  · exact .inr (identifier_mem_of_ahead h body? hstep)

end Hole

def Event.Ends (i : Identifier) : Event → Prop
  | .finished j _ | .skipped j _ => j = i
  | _ => False

theorem Tree.Call.event_ends {c : Call} {i : Identifier} :
    c.event.Ends i ↔ c.identifier = i ∧ c.ending? ≠ none := by
  cases c with
  | register j | started j => exact ⟨nofun, fun h => absurd rfl h.2⟩
  | skipped j reason? | finished j result => exact ⟨fun h => ⟨h, nofun⟩, fun h => h.1⟩

namespace Writer

open SuiteNode

/-- The disk of a run that was broken off after some engines were done, and the disk of the whole
run: in the reports directory, there are the reports on these engines, and they are the same. -/
structure LeavesReports (p : Plan) (now : Instant) (o : Settings) (localOffset : Int) (path : Path)
    (made : Disk) (done rest : List SuiteNode) (broken whole : Disk) : Prop where
  other : ∀ l, (∀ e ∈ done, l ≠ fileLocation path (e.uniqueId none)) → broken.get? l = made.get? l
  absent : ∀ e ∈ rest, broken.get? (fileLocation path (e.uniqueId none)) =
    made.get? (fileLocation path (e.uniqueId none))
  same : ∀ e ∈ done, whole.get? (fileLocation path (e.uniqueId none)) =
    broken.get? (fileLocation path (e.uniqueId none))
  documents : ∀ e ∈ done, ∃ r, ReportedBy p e r ∧ r.timestamp = now ∧
    ∀ timestamp, timestampText localOffset now = .ok timestamp →
      CanFile path made (e.uniqueId none) →
      broken.read (path.child (reportFileName (e.uniqueId none))) =
          .ok (Xml.documentText o.indent (r.item timestamp)).toUTF8 ∧
        whole.read (path.child (reportFileName (e.uniqueId none))) =
          .ok (Xml.documentText o.indent (r.item timestamp)).toUTF8

theorem leavesReports {p : Plan} {now : Instant} {path : Path} {made : Disk}
    {done rest : List SuiteNode} {reports later : List EngineReport}
    (hp : p.Lists (done ++ rest)) (hmade : made.Reaches path)
    (hreports : List.Forall₂ (ReportedBy p) done reports)
    (hlater : List.Forall₂ (ReportedBy p) rest later) (hnow : ∀ r ∈ reports, r.timestamp = now)
    (o : Settings) (localOffset : Int) :
    LeavesReports p now o localOffset path made done rest
      (reports.foldl (store o.indent (some path) localOffset) made)
      (later.foldl (store o.indent (some path) localOffset)
        (reports.foldl (store o.indent (some path) localOffset) made)) := by
  have hids := ids_of_reported hreports
  have hnodup : (reports.map (·.id) ++ later.map (·.id)).Nodup := by
    have hroots := nodup_roots p
    rw [hp.roots_eq, List.map_map] at hroots
    rw [hids, ids_of_reported hlater, ← List.map_append]
    exact hroots
  obtain ⟨hfirst, -, hapart⟩ := List.nodup_append.1 hnodup
  rw [← List.map_append] at hnodup
  have hother : ∀ r ∈ reports, ∀ r' ∈ later, r.id ≠ r'.id := fun r hr r' hr' =>
    hapart _ (List.mem_map_of_mem hr) _ (List.mem_map_of_mem hr')
  refine ⟨fun l hl => ?_, fun e he => ?_, fun e he => ?_, fun e he => ?_⟩
  · refine foldl_store_get?_of_forall_ne (fun r hr hfile => ?_) o.indent localOffset made
    have hid : r.id ∈ done.map (uniqueId · none) := hids ▸ List.mem_map_of_mem hr
    obtain ⟨e, he, heq⟩ := List.mem_map.1 hid
    exact hl e he (heq.symm ▸ hfile)
  · obtain ⟨r', hr', hreported⟩ := exists_reported hlater he
    rw [← hreported.id_eq]
    exact foldl_store_get?_of_forall_ne (fun r hr hfile =>
      hother r hr r' hr' (fileLocation_injective path hfile).symm) o.indent localOffset made
  · obtain ⟨r, hr, hreported⟩ := exists_reported hreports he
    rw [← hreported.id_eq]
    exact foldl_store_get?_of_forall_ne (fun r' hr' hfile =>
      hother r hr r' hr' (fileLocation_injective path hfile)) o.indent localOffset _
  · obtain ⟨r, hr, hreported⟩ := exists_reported hreports he
    refine ⟨r, hreported, hnow r hr, fun timestamp htime hfile => ?_⟩
    rw [← hnow r hr] at htime
    rw [← hreported.id_eq] at hfile ⊢
    refine ⟨read_document hmade hfirst hr htime hfile o.indent, ?_⟩
    rw [← List.foldl_append]
    exact read_document hmade hnodup (List.mem_append_left _ hr) htime hfile o.indent

end Writer

namespace Session

open SuiteNode Step Act

/-- Two forests that differ in one hook or body, and announce nothing. The run of the first one
comes to this code and is interrupted by it; nothing interrupts the run of the other one. -/
structure BreaksOff (left : List SuiteNode) (hole : Hole) (right : List SuiteNode)
    (body body' : Body) (f : Fault) : Prop where
  mute : MuteForest (left ++ hole.fill (some body) :: right)
  mute' : MuteForest (left ++ hole.fill (some body') :: right)
  reached : hole.IsReached
  fault : body.fault? = some f
  interrupt : f.isInterrupt = true
  succeeds : body'.fault? = none
  completes : ∀ step ∈ blockAll none (left ++ hole.fill (some body') :: right),
    step.Completes

variable {left right : List SuiteNode} {hole : Hole} {body body' : Body} {f : Fault} {p : Plan}
  {o : Writer.Settings} {directory? : Option Path} {aware : Bool} {s s' s₁ s₂ : Session}
  {d d' : Discovery}

section Rows

variable (h : BreaksOff left hole right body body' f)

include h

theorem BreaksOff.blocks :
    blockAll none (left ++ hole.fill (some body') :: right) =
      hole.allAhead left ++ .run (hole.owner none) (some body') :: hole.allBehind right := by
  obtain ⟨rest, hrow, hrest⟩ := Hole.blockAll_fill h.reached (some body') left right
  rw [hrow, hrest h.succeeds]

theorem BreaksOff.ahead_subset :
    hole.allAhead left ⊆ blockAll none (left ++ hole.fill (some body') :: right) := by
  rw [h.blocks]
  exact List.subset_append_left _ _

theorem BreaksOff.behind_subset : .run (hole.owner none) (some body') :: hole.allBehind right ⊆
    blockAll none (left ++ hole.fill (some body') :: right) := by
  rw [h.blocks]
  exact List.subset_append_right _ _

theorem BreaksOff.takes_ahead (hp : p.Lists (left ++ hole.fill (some body') :: right))
    (hs : s.Follows o directory? p aware []) :
    ∃ s', (takeAll (hole.allAhead left)).perform s = (.ok (), s') ∧
      Played o directory? p aware [] (momentsAll (hole.allAhead left)) s s' ∧
      List.Forall₂ (ReportedBy p) left (builtOver (momentsAll (hole.allAhead left)) s) := by
  have hsubset : blockAll none left ++ hole.ahead none ⊆ _ := h.ahead_subset
  rw [List.append_subset] at hsubset
  obtain ⟨s₁, hact₁, hplayed₁⟩ := hs.takes_blocks hp h.mute' h.completes hsubset.1
  obtain ⟨s₂, hact₂, hplayed₂⟩ := hplayed₁.follows.takes_blocks hp h.mute' h.completes hsubset.2
  have hmem : hole.fill (some body') ∈ left ++ hole.fill (some body') :: right :=
    List.mem_append_right _ List.mem_cons_self
  have hnothing : builtOver (momentsAll (hole.ahead none)) s₁ = [] :=
    hplayed₂.builds.eq_nil fun c hc => Hole.not_closes_ahead hp h.reached hmem hc
  have hfront : [] ++ left <+: left ++ hole.fill (some body') :: right := List.prefix_append _ _
  have hreports := (runsForest_blocks left).reports hp hfront
    (fun _ hc => absurd hc List.not_mem_nil) hplayed₁.builds
  unfold Hole.allAhead
  refine ⟨s₂, ?_, ?_, ?_⟩
  · rw [perform_takeAll_append, perform_bind_ok hact₁]
    exact hact₂
  · rw [momentsAll_append]
    exact hplayed₁.append hplayed₂
  · rw [momentsAll_append, builtOver_append hplayed₁.perform_eq, hnothing, List.append_nil]
    exact hreports

theorem BreaksOff.takes_behind (hp : p.Lists (left ++ hole.fill (some body') :: right))
    (hs : Played o directory? p aware [] (momentsAll (hole.allAhead left)) s s₁)
    (hreports : List.Forall₂ (ReportedBy p) left (builtOver (momentsAll (hole.allAhead left)) s)) :
    let row := Step.run (hole.owner none) (some body') :: hole.allBehind right
    ∃ s₂ s' reports, (takeAll row).perform s₁ = (.ok (), s₂) ∧
      closePlan.perform s₂ = (.ok (), s') ∧ s₂.plan = p ∧
      List.Forall₂ (ReportedBy p) (hole.fill (some body') :: right) reports ∧
      s'.surroundings.disk = reports.foldl (Writer.store o.indent directory?
        s₁.surroundings.host.localOffset) s₁.surroundings.disk := by
  intro row
  let forest := left ++ hole.fill (some body') :: right
  obtain ⟨s₂, hact, hplayed⟩ := hs.follows.takes_blocks hp h.mute' h.completes h.behind_subset
  have hall := hs.append hplayed
  have hrow : momentsAll (hole.allAhead left) ++ momentsAll row =
      momentsAll (blockAll none forest) := by
    rw [← momentsAll_append, h.blocks]
  have hruns : RunsForest forest (momentsAll (hole.allAhead left) ++ momentsAll row) :=
    hrow ▸ runsForest_blocks forest
  have hfront : [] ++ forest <+: forest := List.prefix_rfl
  have hevery := hruns.reports hp hfront (fun _ hc => absurd hc List.not_mem_nil) hall.builds
  rw [builtOver_append hs.perform_eq] at hevery
  have hlater := List.forall₂_drop_append _ _ _ hevery
  rw [← hreports.length_eq, List.drop_left] at hlater
  have hended : ∀ root ∈ p.roots, endIn
      ([] ++ callsOf (momentsAll (hole.allAhead left) ++ momentsAll row)) root.id ≠ none := by
    intro root hroot
    rw [hp.roots_eq] at hroot
    obtain ⟨e, he, rfl⟩ := List.mem_map.1 hroot
    exact hruns.ends he
  obtain ⟨s₃, hclose, -, hdisk⟩ := hall.follows.deliver_planFinished hended s₂.plan
  refine ⟨s₂, s₃, _, hact, ?_, hplayed.follows.underway.holds.plan_eq, hlater, ?_⟩
  · unfold closePlan
    rw [perform_get_bind]
    exact hclose
  · rw [hdisk]
    exact hplayed.disk_eq

end Rows

/-- What a recorder hears of a run that is broken off, and of the whole run: the start of the plan
and the steps ahead, and then nothing more, or the steps behind and the end of the plan. -/
structure HearsUpTo (p : Plan) (ahead behind : List Step) (s broken whole : Session) : Prop where
  before : broken.heard.toList = s.heard.toList ++ .planStarted p :: heardAll ahead
  after : whole.heard.toList = broken.heard.toList ++ heardAll behind ++ [.planFinished (some p)]

theorem openPlan_congr (h : d'.identifiers = d.identifiers) : openPlan d' = openPlan d := by
  unfold openPlan
  rw [h]

theorem runSteps_breaks_off {steps : List Step} {step : Step} {s₀ : Session}
    (hopen : (openPlan d).perform s = (.ok (), s₀))
    (htaken : (takeAll steps).perform s₀ = (.ok (), s₁))
    (hact : step.act.perform s₁ = (.error f, s₂)) (rest : List Step) :
    (runSteps d (steps ++ step :: rest)).perform s = (.error f, s₂) := by
  unfold runSteps
  rw [perform_bind_ok hopen, perform_bind_error (takeAll_breaks_off htaken hact rest)]

theorem runSteps_completes {steps rest : List Step} {s₀ : Session}
    (hopen : (openPlan d).perform s = (.ok (), s₀))
    (htaken : (takeAll steps).perform s₀ = (.ok (), s₁))
    (hrest : (takeAll rest).perform s₁ = (.ok (), s₂))
    (hclose : closePlan.perform s₂ = (.ok (), s')) :
    (runSteps d (steps ++ rest)).perform s = (.ok (), s') := by
  have hall : (takeAll (steps ++ rest)).perform s₀ = (.ok (), s₂) := by
    rw [perform_takeAll_append, perform_bind_ok htaken]
    exact hrest
  unfold runSteps
  rw [perform_bind_ok hopen, perform_bind_ok hall]
  exact hclose

theorem Began.directory?_eq {now : Instant} {directory'? : Option Path} {log : List Call}
    (hs : s.Began now directory'?) (hfollows : s.Follows o directory? p aware log) :
    directory? = directory'? := by
  obtain ⟨run, hrun, -, rfl⟩ := hs
  obtain ⟨run', hwriter, -, rfl⟩ := hfollows.writer.exists_run
  rw [hwriter] at hrun
  cases hrun
  rfl

theorem BreaksOff.hears (h : BreaksOff left hole right body body' f) {s₀ s₂ broken : Session}
    (hone : s.audience.count .recorder = 1) (hopen : (openPlan d).perform s = (.ok (), s₀))
    (htaken : (takeAll (hole.allAhead left)).perform s₀ = (.ok (), s₁))
    (hbroken : broken.heard = s₁.heard)
    (hrest : (takeAll (.run (hole.owner none) (some body') :: hole.allBehind right)).perform s₁ =
      (.ok (), s₂))
    (hclose : closePlan.perform s₂ = (.ok (), s'))
    (hplan : s₂.plan = .ofList (s.plansMade + 1) d.identifiers) :
    HearsUpTo (.ofList (s.plansMade + 1) d.identifiers) (hole.allAhead left)
      (hole.allBehind right) s broken s' := by
  let row := Step.run (hole.owner none) (some body') :: hole.allBehind right
  have hmute : ∀ step ∈ hole.allAhead left ++ row, step.IsMute := by
    rw [← h.blocks]
    exact fun step hstep => isMute_of_block h.mute' hstep
  have hrow : heardAll row = heardAll (hole.allBehind right) := by
    have hnone := heard_of_mute (hmute _ (List.mem_append_right _ List.mem_cons_self))
    change (Step.run (hole.owner none) (some body')).heard ++ heardAll (hole.allBehind right) = _
    rw [hnone, List.nil_append]
  have hear₀ := ear_openPlan hone hopen
  have hear₁ := (carries_takeAll (fun step hstep => hmute step (List.mem_append_left _ hstep)) hone
    _).of_ok hear₀ htaken
  have hear₂ := (carries_takeAll (fun step hstep => hmute step (List.mem_append_right _ hstep)) hone
    _).of_ok hear₁ hrest
  have hear₃ := ear_closePlan hone hear₂ hclose
  constructor
  · rw [hbroken, hear₁.2]
    simp
  · rw [hear₃.2, hbroken, hear₁.2, hrow, hplan]
    simp

/-- How far a run has come, by its events, when it is broken off at a node: the plan has not ended,
nor has this node or one above it; some engines have ended, and the rest have not. -/
structure StopsAt (i : Identifier) (p : Plan) (events : List Event)
    (done rest : List SuiteNode) : Prop where
  plan : ∀ plan?, .planFinished plan? ∉ events
  nodes : ∀ e ∈ events, ∀ j ∈ i :: p.ancestors i, ¬ e.Ends j
  done : ∀ g ∈ done, ∃ e ∈ events, e.Ends (g.identifier none)
  rest : ∀ e ∈ events, ∀ g ∈ rest, ¬ e.Ends (g.identifier none)

theorem BreaksOff.stops (h : BreaksOff left hole right body body' f)
    (hp : p.Lists (left ++ hole.fill (some body') :: right)) :
    StopsAt (hole.owner none) p (heardAll (hole.allAhead left)) left
      (hole.fill (some body') :: right) := by
  have hmute : ∀ step ∈ hole.allAhead left, step.IsMute :=
    fun step hstep => isMute_of_block h.mute' (h.ahead_subset hstep)
  have hopen {c : Call} (hc : .tell c ∈ hole.allAhead left) {j : Identifier}
      (hj : j ∈ hole.chain none) (hends : c.event.Ends j) : False := by
    obtain ⟨rfl, hending⟩ := Tree.Call.event_ends.1 hends
    exact Hole.unended_allAhead hp h.reached hending hj hc
  refine ⟨fun plan? he => ?_, fun e he j hj hends => ?_, fun g hg => ?_, fun e he g hg hends => ?_⟩
  · obtain ⟨c, -, hc⟩ := (mem_heardAll hmute).1 he
    cases c <;> cases hc
  · obtain ⟨c, hc, rfl⟩ := (mem_heardAll hmute).1 he
    exact hopen hc ((Hole.mem_chain hp).2 hj) hends
  · obtain ⟨c, hc, hends⟩ := hole.ended_allAhead hg
    exact ⟨c.event, (mem_heardAll hmute).2 ⟨c, hc, rfl⟩, Tree.Call.event_ends.2 hends⟩
  · obtain ⟨c, hc, rfl⟩ := (mem_heardAll hmute).1 he
    rcases List.mem_cons.1 hg with rfl | hg
    · rw [hole.identifier_fill] at hends
      exact hopen hc (hole.identifier_mem_chain none) hends
    · obtain ⟨hid, -⟩ := Tree.Call.event_ends.1 hends
      refine Hole.untold_allAhead hp h.reached (mem_identifiersInAll.2 ⟨g, hg, ?_⟩) hc
      rw [hid, identifiersIn_eq]
      exact List.mem_cons_self

/-- An interrupt ends the run with it, and the run has done just what the whole run does up to the
code that was interrupted: it took the same steps, and the recorder heard the beginning of what it
hears otherwise. The reports on the engines that were done are in their files, as the whole run
leaves them, and no other file was touched. -/
theorem run_breaks_off (hd : Discovery.ofForest (left ++ hole.fill (some body) :: right) = .ok d)
    (h : BreaksOff left hole right body body' f) {r : Runner} (hr : r.workers = 1)
    (hs : s.Ready aware) {path : Path} (hpath : s.writer.settings.path? = some path) {made : Disk}
    (hmake : s.surroundings.disk.makeDirectories path = (.ok (), made)) :
    let ahead := hole.allAhead left
    let behind := hole.allBehind right
    let i := hole.owner none
    let p := Plan.ofList (s.plansMade + 1) d.identifiers
    ∃ now d' broken whole, s.surroundings.clock.read.1 = .ok now ∧
      Discovery.ofForest (left ++ hole.fill (some body') :: right) = .ok d' ∧
      d'.identifiers = d.identifiers ∧
      (run r (left ++ hole.fill (some body) :: right)).perform s = (.error f, broken) ∧
      (do openPlan d; takeAll (ahead ++ [Step.run i (some body)])).perform s = (.error f, broken) ∧
      (run r (left ++ hole.fill (some body') :: right)).perform s = (.ok (), whole) ∧
      (runSteps d' (ahead ++ .run i (some body') :: behind)).perform s = (.ok (), whole) ∧
      (s.audience.count .recorder = 1 → HearsUpTo p ahead behind s broken whole) ∧
      StopsAt i p (heardAll ahead) left (hole.fill (some body') :: right) ∧
      Writer.LeavesReports p now s.writer.settings s.surroundings.host.localOffset path made left
        (hole.fill (some body') :: right) broken.surroundings.disk whole.surroundings.disk := by
  intro ahead behind i p
  obtain ⟨now, hread, -⟩ := hs.clock.read
  obtain ⟨d', hd', hids⟩ := hole.ofForest_fill hd (some body')
  obtain ⟨rest, hblock, -⟩ := Hole.blockAll_fill h.reached (some body) left right
  have hsame : openPlan d' = openPlan d := openPlan_congr hids
  obtain ⟨s₀, directory?, hopen, hp, hfollows, hhost⟩ := perform_openPlan hd' hs
  rw [hids] at hp hfollows
  obtain ⟨hbegan, hdisk⟩ := openPlan_opened hs hread hopen
  rw [(Writer.opened_of_ok hpath hmake).1] at hbegan hdisk
  obtain rfl := hbegan.directory?_eq hfollows
  -- the steps ahead are taken with either forest, and there the two runs part
  obtain ⟨s₁, htaken, hplayed, hreports⟩ := h.takes_ahead hp hfollows
  have hmute : (Step.run i (some body)).IsMute := by
    apply isMute_of_block h.mute
    rw [hblock]
    exact List.mem_append_right _ List.mem_cons_self
  obtain ⟨broken, hact, hkept, hheard⟩ := hplayed.follows.breaks_off i hmute h.fault h.interrupt
  obtain ⟨s₂, whole, later, hrest, hclose, hplan, hlater, hwhole⟩ :=
    h.takes_behind hp hplayed hreports
  have hwhole' := runSteps_completes hopen htaken hrest hclose
  have hlog := hplayed.disk_eq
  rw [hhost, hdisk] at hlog
  rw [hplayed.host_eq, hhost, hlog] at hwhole
  refine ⟨now, d', broken, whole, congrArg Prod.fst hread, hd', hids, ?_, ?_, ?_, hwhole', ?_, ?_,
    ?_⟩
  · rw [hs.run_eq hd h.mute hr, hblock]
    exact runSteps_breaks_off (hsame ▸ hopen) htaken hact rest
  · rw [← hsame, perform_bind_ok hopen]
    exact takeAll_breaks_off htaken hact []
  · rw [hs.run_eq hd' h.mute' hr, h.blocks]
    exact hwhole'
  · intro hone
    exact h.hears hone (hsame ▸ hopen) htaken hheard hrest hclose hplan
  · exact h.stops hp
  · rw [hkept, hlog, hwhole]
    exact Writer.leavesReports hp (Writer.reaches_of_ok hmake) hreports hlater
      (fun r hr => timestamp_of_builtOver hbegan hr) s.writer.settings _

/-- The hook after a container is interrupted, between two engines and two tests. -/
theorem run_breaks_off_in_hook :
    let interrupt := Thrown.make { ThrownKind.builtin "KeyboardInterrupt" with interrupt := true }
      [] true
    let test (name : String) := SuiteNode.test ⟨name, none, none⟩ (some [.tick 1])
    let engine (name : String) := SuiteNode.group true ⟨name, none, none⟩ .none [test "t"]
    let inner := Hole.after false ⟨"c", none, none⟩ none [test "u"]
    let hole := Hole.child true ⟨"e", none, none⟩ .none [test "s"] inner [test "v"]
    let s := Session.fresh (.bare (.fixed .epoch)) ⟨.ofString "out", none, [], false, none⟩
      [.recorder, .writer]
    let path := Path.ofString "out"
    let forest := [engine "d"] ++ hole.fill (some [.tick 2, .raise interrupt]) :: [engine "f"]
    let forest' := [engine "d"] ++ hole.fill (some []) :: [engine "f"]
    let e : Identifier := ⟨"e", "e", none, .engine⟩
    let c : Identifier := ⟨"e:c", "c", some "e", .container⟩
    ∃ d broken whole, Discovery.ofForest forest = .ok d ∧
      BreaksOff [engine "d"] hole [engine "f"] [.tick 2, .raise interrupt] [] (.thrown interrupt) ∧
      s.Ready true ∧ s.writer.settings.path? = some path ∧
      (s.surroundings.disk.makeDirectories path).1 = .ok () ∧
      (run ⟨1, by decide⟩ forest).perform s = (.error (.thrown interrupt), broken) ∧
      (run ⟨1, by decide⟩ forest').perform s = (.ok (), whole) ∧
      broken.heard.toList.drop 5 = [.started e, .started ⟨"e:s", "s", some "e", .test⟩,
        .finished ⟨"e:s", "s", some "e", .test⟩ .successful, .started c,
        .started ⟨"e:c:u", "u", some "e:c", .test⟩,
        .finished ⟨"e:c:u", "u", some "e:c", .test⟩ .successful] ∧
      whole.heard.toList[broken.heard.toList.length]? = some (.finished c .successful) ∧
      (∃ text, broken.surroundings.disk.read (path.child "TEST-d.xml") = .ok text ∧
        whole.surroundings.disk.read (path.child "TEST-d.xml") = .ok text) ∧
      broken.surroundings.disk.get? (fileLocation path "e") = none ∧
      broken.surroundings.disk.get? (fileLocation path "f") = none := by
  intro interrupt test engine inner hole s path forest forest' e c
  have hbreaks : BreaksOff [engine "d"] hole [engine "f"] [.tick 2, .raise interrupt] []
      (.thrown interrupt) := by
    have hplain : PlainForest forest' := by decide
    refine ⟨?_, ?_, ⟨rfl, rfl, rfl⟩, rfl, rfl, rfl, fun step => completes_of_block hplain⟩
    · simp [MuteForest, listingAll, listing, engine, hole, inner, test, Hole.fill, code, Hooks.none]
    · simp [MuteForest, listingAll, listing, engine, hole, inner, test, Hole.fill, code, Hooks.none]
  have hready : s.Ready true :=
    ⟨Time.Clock.fixed_reliable .epoch, ⟨⟨_, rfl⟩, ⟨_, rfl⟩, by decide⟩, by decide⟩
  have hpath : s.writer.settings.path? = some path := rfl
  have hmake : s.surroundings.disk.makeDirectories path =
      (.ok (), ⟨[(["out"], .directory)], .lax⟩) := rfl
  obtain ⟨d, hd⟩ : ∃ d, Discovery.ofForest forest = .ok d := Discovery.exists_of_nodup (by decide)
  obtain ⟨now, d', broken, whole, hnow, -, -, hbroken, -, hwhole, -, hhears, -, hleaves⟩ :=
    run_breaks_off hd hbreaks (r := ⟨1, by decide⟩) rfl hready hpath hmake
  obtain ⟨hbefore, hafter⟩ := hhears rfl
  obtain ⟨report, -, -, hfiles⟩ := hleaves.documents (engine "d") List.mem_cons_self
  refine ⟨d, broken, whole, hd, hbreaks, hready, hpath, congrArg Prod.fst hmake, hbroken, hwhole,
    ?_, ?_, ?_, ?_, ?_⟩
  · rw [hbefore]
    rfl
  · rw [hafter, List.append_assoc, List.getElem?_append_right (Nat.le_refl _), Nat.sub_self]
    rfl
  · obtain rfl : now = .epoch := (Except.ok.inj hnow).symm
    have htime : Time.timestampText s.surroundings.host.localOffset .epoch =
        .ok "1970-01-01T00:00:00" := by cbv
    have hfile : Writer.CanFile path ⟨[(["out"], .directory)], .lax⟩ "d" :=
      ⟨⟨by decide, by decide, rfl⟩, by decide, fun _ => rfl, fun _ _ => rfl⟩
    exact ⟨_, hfiles _ htime hfile⟩
  · exact (hleaves.absent (hole.fill (some [])) List.mem_cons_self).trans (by cbv)
  · exact (hleaves.absent (engine "f") (List.mem_cons_of_mem _ List.mem_cons_self)).trans (by cbv)

end Session

end TestRun
