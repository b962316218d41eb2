import TestRun.Proofs.Host
import TestRun.Proofs.Listener.Delivery
import TestRun.Proofs.Listener.Watching
import TestRun.Proofs.Time.Stepping
set_option autoImplicit false

/-!
# Epochs

With a clock that lasts for them, the events alone tell when a run begins and when it ends, and
which reports are built in between: each root of the plan has one, when it ends first or, failing
that, when the plan ends. What the reports leave in the files and in the diagnostics is all that an
epoch leaves there.
-/

namespace TestRun

open TestRun.Tree (Call endIn planAfter)
open Files (Path Disk)

namespace Writer

def Span.hear (span? : Option Span) (e : Event) : Option Span :=
  match e with
  | .planStarted p => some ⟨p, [], false⟩
  | .planFinished _ => span?.map fun x => { x with closed := true }
  | e => span?.map fun x =>
    if x.closed then x else { x with calls := x.calls ++ e.call?.toList }

def spanOf (events : List Event) : Option Span := events.foldl Span.hear none

/-- The ids of the reports that are to be built at an event of a run: one at the first end of a
root, and those of all roots without an end at the end of the plan. -/
def Span.due (x : Span) : Event → List String
  | .planStarted _ => []
  | .planFinished _ =>
    (x.plan.roots.filter fun root => (endIn x.calls root.id).isNone).map (·.id)
  | e => e.call?.toList.flatMap (closedBy x.plan x.calls)

/-- There is one report for each root that has ended, or whose plan has. -/
structure Epoch.Accounted (x : Epoch) : Prop where
  nodup : (x.reports.map (·.id)).Nodup
  mem_iff : ∀ id, id ∈ x.reports.map (·.id) ↔
    id ∈ x.plan.roots.map (·.id) ∧ (x.closed = true ∨ endIn x.calls id ≠ none)

theorem mem_closedBy {p : Plan} {log : List Call} {c : Call} {id : String} :
    id ∈ closedBy p log c ↔
      c.ending?.isSome = true ∧ c.identifier.id = id ∧ id ∈ p.roots.map (·.id) ∧
        endIn log id = none := by
  unfold closedBy
  by_cases hc : Closes p log c
  · rw [if_pos hc, List.mem_singleton]
    obtain ⟨hend, hroot, hnone⟩ := hc
    constructor
    · rintro rfl
      exact ⟨hend, rfl, List.mem_map.2 hroot, hnone⟩
    · rintro ⟨-, rfl, -, -⟩
      rfl
  · rw [if_neg hc]
    refine iff_of_false List.not_mem_nil ?_
    rintro ⟨hend, rfl, hroot, hnone⟩
    exact hc ⟨hend, List.mem_map.1 hroot, hnone⟩

theorem endIn_concat_ne_none {log : List Call} {c : Call} {id : String} :
    endIn (log ++ [c]) id ≠ none ↔
      endIn log id ≠ none ∨ c.identifier.id = id ∧ c.ending?.isSome = true := by
  rw [Tree.endIn_concat, Ne, Option.or_eq_none_iff, not_and_or]
  by_cases hid : c.identifier.id = id
  · rw [if_pos hid]
    cases c.ending? <;> simp [hid]
  · rw [if_neg hid]
    simp [hid]

theorem Epoch.Accounted.add {x : Epoch} (h : x.Accounted) (hopen : x.closed = false)
    {calls : List Call} {closed : Bool} {reports : List EngineReport}
    (hnodup : (reports.map (·.id)).Nodup)
    (hmem : ∀ id, id ∈ reports.map (·.id) ↔ id ∈ x.plan.roots.map (·.id) ∧
      endIn x.calls id = none ∧ (closed = true ∨ endIn calls id ≠ none))
    (hcalls : ∀ id, endIn x.calls id ≠ none → endIn calls id ≠ none) :
    Epoch.Accounted ⟨⟨x.plan, calls, closed⟩, x.start, x.reports ++ reports⟩ := by
  have hbefore : ∀ id, id ∈ x.reports.map (·.id) ↔
      id ∈ x.plan.roots.map (·.id) ∧ endIn x.calls id ≠ none := by
    intro id
    rw [h.mem_iff, hopen]
    simp
  constructor
  · rw [List.map_append, List.nodup_append]
    refine ⟨h.nodup, hnodup, fun a ha b hb hab => ?_⟩
    subst hab
    exact ((hbefore a).1 ha).2 ((hmem a).1 hb).2.1
  · intro id
    rw [List.map_append, List.mem_append, hbefore, hmem]
    constructor
    · rintro (⟨hroot, hended⟩ | ⟨hroot, -, hdue⟩)
      · exact ⟨hroot, .inr (hcalls id hended)⟩
      · exact ⟨hroot, hdue⟩
    · rintro ⟨hroot, hdue⟩
      by_cases hended : endIn x.calls id = none
      · exact .inr ⟨hroot, hended, hdue⟩
      · exact .inl ⟨hroot, hended⟩

theorem due_call (x : Span) (c : Call) : x.due c.event = closedBy x.plan x.calls c := by
  have hflat : [c].flatMap (closedBy x.plan x.calls) = closedBy x.plan x.calls c :=
    List.flatMap_singleton ..
  cases c <;> exact hflat

theorem nodup_closedBy (p : Plan) (log : List Call) (c : Call) : (closedBy p log c).Nodup := by
  unfold closedBy
  split
  · exact List.nodup_singleton _
  · exact List.nodup_nil

theorem Epoch.Accounted.call {x : Epoch} (h : x.Accounted) (hopen : x.closed = false) {c : Call}
    {reports : List EngineReport} (hids : reports.map (·.id) = closedBy x.plan x.calls c) :
    Epoch.Accounted ⟨⟨x.plan, x.calls ++ [c], false⟩, x.start, x.reports ++ reports⟩ := by
  refine h.add hopen (hids ▸ nodup_closedBy ..) (fun id => ?_) (fun id hended => ?_)
  · rw [hids, mem_closedBy, endIn_concat_ne_none]
    constructor
    · rintro ⟨hend, rfl, hroot, hnone⟩
      exact ⟨hroot, hnone, .inr (.inr ⟨rfl, hend⟩)⟩
    · rintro ⟨hroot, hnone, hclosed | hended | ⟨hid, hend⟩⟩
      · cases hclosed
      · exact absurd hnone hended
      · exact ⟨hend, hid, hroot, hnone⟩
  · exact endIn_concat_ne_none.2 (.inl hended)

theorem Epoch.Accounted.finish {x : Epoch} (h : x.Accounted) (hopen : x.closed = false)
    {reports : List EngineReport} (hids : reports.map (·.id) =
      (x.plan.roots.filter fun root => (endIn x.calls root.id).isNone).map (·.id)) :
    Epoch.Accounted ⟨⟨x.plan, x.calls, true⟩, x.start, x.reports ++ reports⟩ := by
  have hnodup : (reports.map (·.id)).Nodup := by
    rw [hids]
    exact ((List.filter_sublist).map _).nodup (nodup_roots x.plan)
  refine h.add hopen hnodup (fun id => ?_) (fun id hended => hended)
  rw [hids, List.mem_map]
  constructor
  · rintro ⟨root, hroot, rfl⟩
    obtain ⟨hmem, hnone⟩ := List.mem_filter.1 hroot
    exact ⟨List.mem_map_of_mem hmem, Option.isNone_iff_eq_none.1 hnone, .inl rfl⟩
  · rintro ⟨hroot, hnone, -⟩
    obtain ⟨root, hmem, rfl⟩ := List.mem_map.1 hroot
    refine ⟨root, List.mem_filter.2 ⟨hmem, ?_⟩, rfl⟩
    rw [hnone]
    rfl

/-- What an epoch comes to while its writer is watched: each report that was due was built, and what
became of the directory and of the reports is all that the epoch did to files and diagnostics. -/
structure Epoch.Kept (x : Epoch) (h : Watch) (o : Settings) (host : Host) (aware : Bool) :
    Prop where
  traces : ∀ run, h.writer.run? = some run → run.Traces x.plan aware x.calls
  directory : ∀ run, h.writer.run? = some run → run.directory? = (o.opened x.start.disk).1
  accounted : x.Accounted
  disk_eq : h.surroundings.disk = x.reports.foldl
    (store o.indent (o.opened x.start.disk).1 host.localOffset) (o.opened x.start.disk).2
  sink_eq : h.surroundings.sink = x.start.sink ++ o.openingText x.start.disk ++
    troubles o.indent (o.opened x.start.disk).1 host.localOffset (o.opened x.start.disk).2 x.reports

/-- What is known of a writer that is watched with a clock that can still be read so often: the last
run is the one that the events tell of, provided that properties of the host can be read at all. -/
structure Watch.Traced (h : Watch) (o : Settings) (host : Host) (aware : Bool)
    (span? : Option Span) (readings : Nat) : Prop where
  sound : h.Sound
  settings_eq : h.writer.settings = o
  host_eq : h.surroundings.host = host
  clock : h.surroundings.clock.Lasts aware readings
  span_eq : h.epoch?.map (·.toSpan) = if host.isReadable then span? else none
  kept : ∀ x, h.epoch? = some x → x.Kept h o host aware

namespace Watch

variable {h : Watch} {o : Settings} {host : Host} {aware : Bool} {span? : Option Span} {n : Nat}

theorem Traced.lasts_one (ht : h.Traced o host aware span? (n + 1)) :
    h.surroundings.clock.Lasts aware 1 := ht.clock.of_le (Nat.le_add_left 1 n)

theorem Traced.keep (ht : h.Traced o host aware span? n) {x y : Epoch} {run run' : Run}
    (hx : h.epoch? = some x) (hrun : h.writer.run? = some run) {e : Event}
    (hnext : h.Continues e x run run') (hy : (h.hear e).epoch? = some y)
    (htraces : ∀ later, (h.hear e).writer.run? = some later → later.Traces y.plan aware y.calls)
    (haccounted : y.Accounted) : y.Kept (h.hear e) o host aware := by
  have hkept := ht.kept x hx
  have hdirectory := hkept.directory run hrun
  obtain rfl := Option.some.inj (hnext.epoch?_eq.symm.trans hy)
  refine ⟨htraces, fun later hlater => ?_, haccounted, ?_, ?_⟩
  · rcases hnext.run?_eq with hnone | hsome
    · exact absurd (hnone.symm.trans hlater) nofun
    · obtain rfl := Option.some.inj (hsome.symm.trans hlater)
      exact hnext.moves.directory?_eq.trans hdirectory
  · rw [hnext.moves.disk_eq, ht.settings_eq, ht.host_eq, hdirectory, hkept.disk_eq,
      List.foldl_append]
  · rw [hnext.moves.sink_eq, ht.settings_eq, ht.host_eq, hdirectory, hkept.disk_eq, hkept.sink_eq,
      troubles_append, String.append_assoc]

/-- Whether an event succeeds: it does, but for the start of a plan, which needs a host that can be
read and a name from which a path can be made. -/
def Succeeds (h : Watch) (o : Settings) (host : Host) (e : Event) : Prop :=
  ((∀ p, e ≠ .planStarted p) ∨ host.isReadable = true ∧ o.path? ≠ none) →
    ((Writer.hear e).perform (h.writer, h.surroundings)).1 = .ok ()

theorem hear_of_closed {e : Event} (he : ∀ p, e ≠ .planStarted p)
    (hclosed : ∀ x, span? = some x → x.closed = true) : Span.hear span? e = span? := by
  cases span? with
  | none =>
    cases e with
    | planStarted p => exact absurd rfl (he p)
    | planFinished p? | registered i | started i | skipped i reason? | finished i result => rfl
  | some x =>
    have hx := hclosed x rfl
    obtain ⟨plan, calls, closed⟩ := x
    obtain rfl : closed = true := hx
    cases e with
    | planStarted p => exact absurd rfl (he p)
    | planFinished p? | registered i | started i | skipped i reason? | finished i result => rfl

theorem hear_span_call (x : Span) (hx : x.closed = false) (c : Call) :
    Span.hear (some x) c.event = some { x with calls := x.calls ++ [c] } := by
  cases c <;> simp [Span.hear, Call.event, hx, Event.call?]

theorem foldl_hear_calls (x : Span) (hx : x.closed = false) (calls : List Call) :
    (calls.map (·.event)).foldl Span.hear (some x) = some { x with calls := x.calls ++ calls } := by
  induction calls generalizing x with
  | nil =>
    rw [List.append_nil]
    rfl
  | cons c calls ih =>
    rw [List.map_cons, List.foldl_cons, hear_span_call x hx]
    refine (ih { x with calls := x.calls ++ [c] } hx).trans ?_
    rw [List.append_assoc]
    rfl

theorem Traced.span_of_epoch (ht : h.Traced o host aware span? n) {x : Epoch}
    (hx : h.epoch? = some x) : host.isReadable = true ∧ span? = some x.toSpan := by
  have heq := ht.span_eq
  rw [hx] at heq
  cases hhost : host.isReadable with
  | false =>
    rw [hhost] at heq
    cases heq
  | true =>
    rw [hhost] at heq
    exact ⟨rfl, heq.symm⟩

theorem Traced.hear_idle (ht : h.Traced o host aware span? (n + 1)) (hrun : h.writer.run? = none)
    {e : Event} (he : ∀ p, e ≠ .planStarted p) :
    (h.hear e).Traced o host aware (Span.hear span? e) n ∧ h.Succeeds o host e := by
  obtain ⟨-, hwriter, message, hsurroundings⟩ := Watch.hear_idle hrun he
  have hepoch := epoch?_hear_idle ht.sound hrun he
  obtain ⟨message', hact⟩ := perform_hear_idle he hrun h.surroundings
  refine ⟨⟨ht.sound.hear e, hwriter ▸ ht.settings_eq, ?_, ?_, ?_, fun x hx => ?_⟩, fun _ => ?_⟩
  · rw [hsurroundings]
    exact ht.host_eq
  · rw [hsurroundings]
    exact ht.clock.of_le (Nat.le_succ n)
  · rw [hepoch, ht.span_eq]
    cases hhost : host.isReadable with
    | false => rfl
    | true =>
      have hspan := ht.span_eq
      rw [hhost] at hspan
      have hclosed : ∀ x, span? = some x → x.closed = true := by
        intro x hx
        obtain ⟨y, hy, rfl⟩ := Option.map_eq_some_iff.1 (hspan.trans hx)
        exact ht.sound.idle hrun y hy
      rw [hear_of_closed he hclosed]
  · have hkept := ht.kept x (hepoch ▸ hx)
    refine ⟨hwriter ▸ hkept.traces, hwriter ▸ hkept.directory, hkept.accounted, ?_, ?_⟩
    · rw [hsurroundings]
      exact hkept.disk_eq
    · rw [hsurroundings]
      exact hkept.sink_eq
  · rw [hact]

theorem writer_of_run {w : Writer} {run : Run} (hrun : w.run? = some run) :
    w = ⟨w.settings, .running run⟩ := by
  obtain ⟨o, phase⟩ := w
  cases phase with
  | running before =>
    cases hrun
    rfl
  | notStarted | finished => cases hrun

theorem Traced.hear_refused (ht : h.Traced o host aware span? (n + 1))
    (hhost : host.isReadable = false) (p : Plan) :
    (h.hear (.planStarted p)).Traced o host aware (Span.hear span? (.planStarted p)) n := by
  have hnone : h.epoch? = none := by
    have heq := ht.span_eq
    rw [hhost] at heq
    exact Option.map_eq_none_iff.1 heq
  have hopens : opens h.writer h.surroundings = false := by
    obtain ⟨t, -, hrows⟩ := Host.properties_of_not_isReadable (h := h.surroundings.host)
      (ht.host_eq ▸ hhost) h.writer.settings.extra h.writer.settings.withEnvironment
    unfold opens
    rw [hrows]
    exact Bool.and_false _
  obtain ⟨f, w', s', hact, hquiet, hclock, -, hw, -⟩ := hear_planStarted_refused hopens p
  obtain ⟨hwriter, hsurroundings⟩ := hear_eq hact
  -- no run is in progress that could show another instant
  have hsame : w' = h.writer := by
    rcases hw with heq | ⟨run, -, -, hrun, -⟩
    · exact heq
    · obtain ⟨x, hx, -⟩ := ht.sound.running run hrun
      exact absurd (hnone.symm.trans hx) nofun
  have hepoch : (h.hear (.planStarted p)).epoch? = none := by
    unfold Watch.hear
    simp only [hopens, Bool.false_eq_true, if_false]
    exact hnone
  obtain ⟨_, _, _, hrest⟩ := ht.clock.read
  refine ⟨ht.sound.hear _, ?_, ?_, ?_, ?_, fun x hx => ?_⟩
  · rw [hwriter, hsame]
    exact ht.settings_eq
  · rw [hsurroundings, hquiet.host_eq]
    exact ht.host_eq
  · rw [hsurroundings, hclock]
    exact hrest
  · rw [hepoch, hhost]
    rfl
  · rw [hepoch] at hx
    cases hx

theorem Traced.passes_on (ht : h.Traced o host aware span? (n + 1)) {t : Thrown}
    (huser : host.user = .error t) (hhost : host.isReadable = false) (p : Plan) :
    h.epoch? = none ∧
      ((Writer.hear (.planStarted p)).perform (h.writer, h.surroundings)).1 = .error (.thrown t) := by
  have hnone := ht.span_eq
  rw [hhost] at hnone
  obtain ⟨t', huser', hrows⟩ := Host.properties_of_not_isReadable (h := h.surroundings.host)
    (ht.host_eq ▸ hhost) h.writer.settings.extra h.writer.settings.withEnvironment
  rw [ht.host_eq] at huser'
  obtain rfl := Except.error.inj (huser.symm.trans huser')
  have hopens : opens h.writer h.surroundings = false := by
    unfold opens
    rw [hrows]
    exact Bool.and_false _
  obtain ⟨now, hread, -⟩ := ht.clock.read
  obtain ⟨f, w', s', hact, -, -, -, -, hf⟩ := hear_planStarted_refused hopens p
  rw [hact, hf now _ t hread hrows]
  exact ⟨Option.map_eq_none_iff.1 hnone, rfl⟩

theorem Opens.traced {p : Plan} {now : Time.Instant} {rows : List (Text.CodeText × Text.CodeText)}
    {later : Time.Clock} (hopen : h.Opens p now rows later) (hnow : now.offset.isSome = aware)
    (hlater : later.Lasts aware n) (hreadable : h.surroundings.host.isReadable = true) :
    (h.hear (.planStarted p)).Traced h.writer.settings h.surroundings.host aware
      (some ⟨p, [], false⟩) n := by
  have hwriter := hopen.writer_eq
  refine ⟨hopen.sound, ?_, hopen.host_eq, hopen.clock_eq ▸ hlater, ?_, fun x hx => ?_⟩
  · rw [hwriter]
  · rw [hopen.epoch?_eq, hreadable]
    rfl
  · obtain rfl := Option.some.inj (hopen.epoch?_eq.symm.trans hx)
    refine ⟨fun run hrun => ?_, fun run hrun => ?_, ⟨List.nodup_nil, fun id => ?_⟩, ?_, ?_⟩
    · rw [hwriter] at hrun
      cases hrun
      exact begun_traces p hnow _ _ _
    · rw [hwriter] at hrun
      cases hrun
      rfl
    · simp [endIn]
    · rw [hopen.disk_eq]
      rfl
    · rw [hopen.sink_eq]
      exact String.append_empty.symm

theorem Traced.hear_planStarted (ht : h.Traced o host aware span? (n + 1)) (p : Plan) :
    (h.hear (.planStarted p)).Traced o host aware (Span.hear span? (.planStarted p)) n ∧
      h.Succeeds o host (.planStarted p) := by
  obtain ⟨now, hread, hnow, hrest⟩ := ht.clock.read
  cases hhost : host.isReadable with
  | false =>
    refine ⟨ht.hear_refused hhost p, fun hok => ?_⟩
    rcases hok with hne | ⟨hreadable, -⟩
    · exact absurd rfl (hne p)
    · exact absurd (hhost.symm.trans hreadable) nofun
  | true =>
    obtain ⟨rows, hrows⟩ := Host.properties_of_isReadable
      (h := h.surroundings.host) (ht.host_eq ▸ hhost) h.writer.settings.extra
      h.writer.settings.withEnvironment
    have hopen := hear_opens hread hrows p
    have htraced := hopen.traced hnow hrest (ht.host_eq ▸ hhost)
    rw [ht.settings_eq, ht.host_eq] at htraced
    refine ⟨htraced, fun hok => hopen.isOk ?_⟩
    rw [ht.settings_eq]
    exact (hok.resolve_left fun hne => hne p rfl).2

theorem Traced.hear_call (ht : h.Traced o host aware span? (n + 1)) {run : Run}
    (hrun : h.writer.run? = some run) (c : Call) :
    (h.hear c.event).Traced o host aware (Span.hear span? c.event) n ∧
      h.Succeeds o host c.event := by
  obtain ⟨x, run', hx, hholds, hnext⟩ := ht.sound.continues hrun (call_ne_planStarted c)
  obtain ⟨hreadable, rfl⟩ := ht.span_of_epoch hx
  have hkept := ht.kept x hx
  obtain ⟨later, s', hact, htraces, hclock, hids⟩ :=
    (hkept.traces run hrun).callAct c ht.lasts_one h.writer.settings
  have hwriter : h.writer = ⟨h.writer.settings, .running run⟩ := writer_of_run hrun
  have hperform : (Writer.hear c.event).perform (h.writer, h.surroundings) =
      (.ok (), (⟨h.writer.settings, .running later⟩, s')) := by
    rw [hwriter, perform_hear_call, hact]
  obtain ⟨hwriter', hsurroundings⟩ := hear_eq hperform
  have hepoch := hnext.epoch?_eq
  rw [hwriter', call?_event] at hepoch
  refine ⟨⟨ht.sound.hear _, ?_, ?_, ?_, ?_, fun y hy => ?_⟩, fun _ => ?_⟩
  · rw [hwriter']
    exact ht.settings_eq
  · rw [hnext.moves.host_eq]
    exact ht.host_eq
  · rw [hsurroundings]
    exact hclock.lasts ht.clock
  · rw [hepoch, hear_span_call _ hholds.opened, hreadable]
    exact congrArg (fun closed => some (Span.mk x.plan (x.calls ++ [c]) closed)) hholds.opened.symm
  · obtain rfl := Option.some.inj (hepoch.symm.trans hy)
    refine ht.keep hx hrun hnext hy (fun last hlast => ?_) (hkept.accounted.call hholds.opened ?_)
    · rw [hwriter'] at hlast
      cases hlast
      exact htraces
    · rw [← hids, ← hwriter]
      rfl
  · rw [hperform]

theorem Traced.hear_planFinished (ht : h.Traced o host aware span? (n + 1)) {run : Run}
    (hrun : h.writer.run? = some run) (p? : Option Plan) :
    (h.hear (.planFinished p?)).Traced o host aware (Span.hear span? (.planFinished p?)) n ∧
      h.Succeeds o host (.planFinished p?) := by
  obtain ⟨x, run', hx, hholds, hnext⟩ :=
    ht.sound.continues hrun (planFinished_ne_planStarted p?)
  obtain ⟨hreadable, rfl⟩ := ht.span_of_epoch hx
  have hkept := ht.kept x hx
  obtain ⟨hok, hclock, hids⟩ := (hkept.traces run hrun).completeRest ht.lasts_one h.writer.settings
  have hwriter : h.writer = ⟨h.writer.settings, .running run⟩ := writer_of_run hrun
  have hperform : (Writer.hear (.planFinished p?)).perform (h.writer, h.surroundings) =
      (.ok (), (⟨h.writer.settings, .finished⟩,
        ((completeRest h.writer.settings).perform (run, h.surroundings)).2.2)) := by
    rw [hwriter, perform_hear_planFinished]
    rcases hrest : (completeRest h.writer.settings).perform (run, h.surroundings) with
      ⟨answer, later, s'⟩
    rw [hrest] at hok
    obtain rfl : answer = .ok () := hok
    rfl
  obtain ⟨hwriter', hsurroundings⟩ := hear_eq hperform
  have hepoch := hnext.epoch?_eq
  rw [hwriter'] at hepoch
  refine ⟨⟨ht.sound.hear _, ?_, ?_, ?_, ?_, fun y hy => ?_⟩, fun _ => ?_⟩
  · rw [hwriter']
    exact ht.settings_eq
  · rw [hnext.moves.host_eq]
    exact ht.host_eq
  · rw [hsurroundings]
    exact hclock.lasts ht.clock
  · rw [hepoch, hreadable, Event.call?, Option.toList_none, List.append_nil]
    rfl
  · rw [Event.call?, Option.toList_none, List.append_nil] at hepoch
    obtain rfl := Option.some.inj (hepoch.symm.trans hy)
    refine ht.keep hx hrun hnext hy (fun last hlast => ?_) (hkept.accounted.finish hholds.opened ?_)
    · rw [hwriter'] at hlast
      cases hlast
    · rw [← hids, built, hwriter]
      rfl
  · rw [hperform]

theorem Traced.hear (ht : h.Traced o host aware span? (n + 1)) (e : Event) :
    (h.hear e).Traced o host aware (Span.hear span? e) n ∧ h.Succeeds o host e := by
  rcases e.shape with ⟨p, rfl⟩ | ⟨p?, rfl⟩ | ⟨c, rfl⟩
  · exact ht.hear_planStarted p
  · cases hrun : h.writer.run? with
    | none => exact ht.hear_idle hrun (planFinished_ne_planStarted p?)
    | some run => exact ht.hear_planFinished hrun p?
  · cases hrun : h.writer.run? with
    | none => exact ht.hear_idle hrun (call_ne_planStarted c)
    | some run => exact ht.hear_call hrun c

theorem traced_foldl (events : List Event)
    (ht : h.Traced o host aware span? (n + events.length)) :
    (events.foldl Watch.hear h).Traced o host aware (events.foldl Span.hear span?) n := by
  induction events generalizing h span? with
  | nil => exact ht
  | cons e events ih => exact ih (ht.hear e).1

theorem traced_fresh (o : Settings) {s : Surroundings} (hs : s.clock.Lasts aware n) :
    Traced ⟨.fresh o, s, none⟩ o s.host aware none n :=
  ⟨sound_watch o s [], rfl, rfl, hs, (ite_self _).symm, fun _ hx => nomatch hx⟩

theorem traced_watch (o : Settings) {s : Surroundings} {events : List Event}
    (hs : s.clock.Lasts aware (events.length + n)) :
    (watch o s events).Traced o s.host aware (spanOf events) n :=
  traced_foldl events (traced_fresh o (Nat.add_comm _ _ ▸ hs))

def due (h : Watch) (e : Event) : List String :=
  match h.epoch? with
  | some x => if x.closed then [] else x.due e
  | none => []

theorem due_of_span {x : Span} (hx : h.epoch?.map (·.toSpan) = some x) (e : Event) :
    h.due e = if x.closed then [] else x.due e := by
  obtain ⟨y, hy, rfl⟩ := Option.map_eq_some_iff.1 hx
  rw [due, hy]

def Idle (h : Watch) : Prop := ∀ x, h.epoch? = some x → x.closed = true

theorem Traced.built_eq (ht : h.Traced o host aware span? (n + 1)) (e : Event) :
    (h.built e).map (·.id) = h.due e := by
  cases hrun : h.writer.run? with
  | none =>
    rw [built, built_idle e hrun, due]
    cases hx : h.epoch? with
    | none => rfl
    | some x =>
      dsimp only
      rw [if_pos (ht.sound.idle hrun x hx)]
      rfl
  | some run =>
    obtain ⟨x, hx, hholds⟩ := ht.sound.running run hrun
    have htraces := (ht.kept x hx).traces run hrun
    have hdue : h.due e = x.due e := by
      rw [due, hx]
      dsimp only
      rw [hholds.opened]
      rfl
    rw [hdue, built, writer_of_run hrun]
    rcases e.shape with ⟨p, rfl⟩ | ⟨p?, rfl⟩ | ⟨c, rfl⟩
    · rw [built_planStarted]
      rfl
    · obtain ⟨-, -, hids⟩ := htraces.completeRest ht.lasts_one h.writer.settings
      exact hids
    · obtain ⟨-, -, -, -, -, hids⟩ := htraces.callAct c ht.lasts_one h.writer.settings
      rw [hids, due_call]

theorem Traced.idle_iff (ht : h.Traced o host aware span? n) : h.Idle ↔ h.writer.run? = none := by
  constructor
  · intro hidle
    cases hrun : h.writer.run? with
    | none => rfl
    | some run =>
      obtain ⟨x, hx, hholds⟩ := ht.sound.running run hrun
      exact absurd (hholds.opened.symm.trans (hidle x hx)) nofun
  · exact ht.sound.idle

end Watch

/-- Within an epoch each root has one report, at its first end or at the end of the plan, and there
is one attempt to write each report if the directory could be created, and none if not. Out of an
epoch nothing is done but to warn. -/
theorem one_report_each {o : Settings} {s : Surroundings} {aware : Bool}
    (events : List Event) (hs : s.clock.Lasts aware (events.length + 1)) (e : Event) :
    let h := watch o s events
    h.epoch?.map (·.toSpan) = (if s.host.isReadable then spanOf events else none) ∧
      (∀ x, h.epoch? = some x → x.Accounted) ∧
      (h.built e).map (·.id) = h.due e ∧
      ((∀ p, e ≠ .planStarted p) → ∀ x, h.epoch? = some x → x.closed = false →
        ∃ s₁, h.surroundings.Quiet s₁ ∧ (h.hear e).surroundings =
          (h.built e).foldl (publish o.indent (o.opened x.start.disk).1) s₁) ∧
      ((∀ p, e ≠ .planStarted p) → h.Idle → ∀ t : Session, t.writer = h.writer →
        t.surroundings = h.surroundings → ∃ message, (Session.hearWriter e).perform t =
          (.ok (), { t with surroundings := { t.surroundings with
            log := t.surroundings.log.push ⟨.warning, message⟩ } })) ∧
      ∀ t, s.host.user = .error t → t.kind ≠ .keyError → t.kind.wording ≠ .system →
        h.epoch? = none ∧
          ∀ p, ((hear (.planStarted p)).perform (h.writer, h.surroundings)).1 = .error (.thrown t) := by
  intro h
  have ht : h.Traced o s.host aware (spanOf events) 1 := Watch.traced_watch o hs
  refine ⟨ht.span_eq, fun x hx => (ht.kept x hx).accounted, ht.built_eq e, fun he x hx hopen => ?_,
    fun he hidle t hwriter hsurroundings => ?_, fun t huser hkey hsystem => ?_⟩
  · cases hrun : h.writer.run? with
    | none => exact absurd (hopen.symm.trans (ht.sound.idle hrun x hx)) nofun
    | some run =>
      obtain ⟨y, run', hy, hholds, hnext⟩ := ht.sound.continues hrun he
      obtain rfl := Option.some.inj (hx.symm.trans hy)
      have hwrites := hnext.moves.exists_quiet
      rw [ht.settings_eq, (ht.kept x hx).directory run hrun] at hwrites
      exact hwrites
  · have hrun := ht.idle_iff.1 hidle
    obtain ⟨message, hact⟩ := perform_hear_idle he hrun h.surroundings
    refine ⟨message, ?_⟩
    rw [← hwriter, ← hsurroundings] at hact
    rw [Session.perform_hearWriter hact, hwriter, hrun, ← hwriter]
  · have hhost : s.host.isReadable = false := by
      refine Bool.eq_false_iff.2 fun hreadable => ?_
      exact (Host.isReadable_iff.1 hreadable t huser).elim hkey hsystem
    have hpasses := ht.passes_on huser hhost
    exact ⟨(hpasses (.empty 0)).1, fun p => (hpasses p).2⟩

/-- An engine ends twice, and another one only with the plan. -/
theorem one_report_each_repeated :
    let o : Settings := ⟨.ofString "out", none, [], false, none⟩
    let p := Plan.ofList 1 [⟨"e", "e", none, .engine⟩, ⟨"f", "f", none, .engine⟩]
    let s := Surroundings.bare (.stepping .epoch 1000)
    let ended : Event := .finished ⟨"e", "e", none, .engine⟩ ⟨.successful, none⟩
    s.clock.Lasts true 4 ∧
      ((watch o s [.planStarted p]).built ended).map (·.id) = ["e"] ∧
      ((watch o s [.planStarted p, ended]).built ended).map (·.id) = [] ∧
      ((watch o s [.planStarted p, ended, ended]).built (.planFinished none)).map (·.id) =
        ["f"] := by
  intro o p s ended
  have hs : s.clock.Lasts true 4 := Time.Clock.lasts_of_le (by decide)
  have hids : ∀ (events : List Event) (e : Event) (x : Span), events.length + 1 ≤ 4 →
      (if s.host.isReadable then spanOf events else none) = some x →
      ((watch o s events).built e).map (·.id) = if x.closed then [] else x.due e := by
    intro events e x hlength hx
    obtain ⟨hspan, -, hdue, -⟩ := one_report_each events (hs.of_le hlength) e
    exact hdue.trans (Watch.due_of_span (hspan.trans hx) e)
  refine ⟨hs, ?_, ?_, ?_⟩
  · exact (hids [.planStarted p] ended _ (by decide) rfl).trans (by decide)
  · exact (hids [.planStarted p, ended] ended _ (by decide) rfl).trans (by decide)
  · exact (hids [.planStarted p, ended, ended] (.planFinished none) _ (by decide) rfl).trans
      (by decide)

/-- The user cannot be looked up on this host: the start of the plan fails, no run begins, and no
report is built on the root that the plan holds. -/
theorem no_report_without_user :
    let o : Settings := ⟨.ofString "out", none, [], false, none⟩
    let p := Plan.ofList 1 [⟨"e", "e", none, .engine⟩]
    let t := Thrown.make (.builtin "ImportError") [.text "no user"] true
    let s : Surroundings := { Surroundings.bare (.fixed .epoch) with
      host := { Host.bare with user := .error t } }
    let ended : Event := .finished ⟨"e", "e", none, .engine⟩ ⟨.successful, none⟩
    s.clock.Reliable true ∧ ⟨"e", "e", none, .engine⟩ ∈ p.roots ∧
      ((hear (.planStarted p)).perform (.fresh o, s)).1 = .error (.thrown t) ∧
      (spanOf [.planStarted p, ended, .planFinished none]).isSome = true ∧
      (watch o s [.planStarted p, ended, .planFinished none]).epoch? = none ∧
      (watch o s [.planStarted p]).built ended = [] ∧
      (watch o s [.planStarted p, ended]).built (.planFinished none) = [] := by
  intro o p t s ended
  have hs : s.clock.Reliable true := Time.Clock.fixed_reliable .epoch
  have ht (events : List Event) : (watch o s events).Traced o s.host true (spanOf events) 1 :=
    Watch.traced_watch o (hs.lasts _)
  have hnone : ∀ events, (watch o s events).epoch? = none := fun events =>
    Option.map_eq_none_iff.1 (ht events).span_eq
  have hbuilt : ∀ events e, (watch o s events).built e = [] := fun events e => by
    rw [← List.map_eq_nil_iff, (ht events).built_eq, Watch.due, hnone]
  exact ⟨hs, by decide, by cbv, rfl, hnone _, hbuilt _ _, hbuilt _ _⟩

end Writer

end TestRun
