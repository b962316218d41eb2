import TestRun.Proofs.Listener.Indifference
import TestRun.Proofs.Listener.Recalling
set_option autoImplicit false

namespace TestRun

open Time Files
open TestRun.Xml (Item)
open TestRun.Tree (Call endIn startsIn uptoEnd)

namespace Tree

def ownCalls (log : List Call) (id : String) : List Call :=
  log.filter fun c => c.identifier.id == id && (c.isStart || c.ending?.isSome)

theorem endIn_ownCalls (log : List Call) (id : String) :
    endIn (ownCalls log id) id = endIn log id := by
  induction log with
  | nil => rfl
  | cons c log ih =>
    rw [ownCalls, List.filter_cons]
    split
    · rw [endIn_cons, endIn_cons, ← ih]
      rfl
    · next hother =>
      have hnone : (if c.identifier.id = id then c.ending? else none) = none := by
        rw [ite_eq_right_iff]
        intro hid
        cases hc : c.ending? <;> simp [hid, hc] at hother ⊢
      rw [endIn_cons, hnone, Option.none_or]
      exact ih

theorem startsIn_ownCalls (log : List Call) (id : String) :
    startsIn (ownCalls log id) id = startsIn log id := by
  unfold startsIn ownCalls
  rw [List.any_filter]
  congr 1
  funext c
  cases c.identifier.id == id <;> cases c.isStart <;> simp

theorem verdictIn_congr {p : Plan} {log log' : List Call} {i : Identifier}
    (h : ∀ a ∈ i :: p.ancestors i, ownCalls log a.id = ownCalls log' a.id) :
    verdictIn p log i = verdictIn p log' i := by
  have hend : ∀ a ∈ i :: p.ancestors i, endIn log a.id = endIn log' a.id := by
    intro a ha
    rw [← endIn_ownCalls log, h a ha, endIn_ownCalls]
  have hstart : startsIn log i.id = startsIn log' i.id := by
    rw [← startsIn_ownCalls log, h i List.mem_cons_self, startsIn_ownCalls]
  have habove : endsOf log (p.ancestors i) = endsOf log' (p.ancestors i) :=
    List.filterMap_congr fun a ha => hend a (List.mem_cons_of_mem i ha)
  unfold verdictIn
  rw [hend i List.mem_cons_self, hstart, habove]

end Tree

namespace Writer

open TestRun.Tree (ownCalls)

variable {p : Plan} {root : Identifier}

theorem told_congr {now : Instant} {hostName hostName' : String} {rows : List (String × String)}
    {directory? directory?' : Option Path} (hname : hostName' = hostName) (hroot : root ∈ p.roots)
    {log log' : List Call}
    (hown : ∀ i ∈ root :: p.descendants root.id, ownCalls log i.id = ownCalls log' i.id) :
    (begun p now hostName rows directory?).told p log root.id =
      (begun p now hostName' rows directory?').told p log' root.id := by
  obtain ⟨hmem, hisRoot⟩ := List.mem_filter.1 hroot
  have htop := p.parent?_of_isRoot hisRoot
  have hclimbs : p.Climbs root [] := ⟨hmem, .top htop⟩
  have hverdicts : ∀ t ∈ p.testsUnder root.id,
      Tree.verdictIn p log t = Tree.verdictIn p log' t := by
    intro t ht
    have hdown := List.mem_cons_of_mem root (List.mem_filter.1 ht).1
    refine Tree.verdictIn_congr fun a ha => hown a ?_
    rcases List.mem_cons.1 ha with rfl | ha
    · exact hdown
    · exact hclimbs.mem_of_above htop hdown (Plan.above_of_mem_climb ha)
  unfold Run.told
  rw [hname, List.map_congr_left fun t ht => by rw [hverdicts t ht]]
  rfl

def wholeRun (p : Plan) (calls : List Call) (p? : Option Plan) : List Event :=
  .planStarted p :: (calls.map (·.event) ++ [.planFinished p?])

theorem ne_planStarted_of_mem (calls : List Call) (p? : Option Plan) :
    ∀ e ∈ calls.map (·.event) ++ [.planFinished p?], ∀ q, e ≠ Event.planStarted q := by
  intro e he
  rcases List.mem_append.1 he with he | he
  · obtain ⟨c, -, rfl⟩ := List.mem_map.1 he
    exact Watch.call_ne_planStarted c
  · obtain rfl := List.mem_singleton.1 he
    exact Watch.planFinished_ne_planStarted p?

namespace Watch

variable {h : Watch} {calls : List Call} {p? : Option Plan}

theorem builds_idle (hidle : h.writer.run? = none) {events : List Event}
    (he : ∀ e ∈ events, ∀ q, e ≠ .planStarted q) : h.builds events = [] := by
  induction events generalizing h with
  | nil => rfl
  | cons e events ih =>
    obtain ⟨hbuilt, hwriter, -⟩ := hear_idle hidle (he e List.mem_cons_self)
    rw [builds, hbuilt, List.nil_append]
    exact ih (hwriter ▸ hidle) fun e' he' => he e' (List.mem_cons_of_mem e he')

theorem builds_refused (hidle : h.writer.run? = none)
    (hopens : opens h.writer h.surroundings = false) : h.builds (wholeRun p calls p?) = [] := by
  obtain ⟨f, w', s', hact, -, -, -, hw, -⟩ := hear_planStarted_refused hopens p
  have hafter : (h.hear (.planStarted p)).writer.run? = none := by
    rw [(hear_eq hact).1]
    rcases hw with rfl | ⟨run, -, -, hrun, -⟩
    · exact hidle
    · exact absurd (hidle.symm.trans hrun) nofun
  rw [wholeRun, builds, built, built_planStarted, List.nil_append]
  exact builds_idle hafter (ne_planStarted_of_mem _ _)

theorem Opens.recounts {now : Instant} {rows : List (Text.CodeText × Text.CodeText)}
    {later : Clock} (hopen : h.Opens p now rows later)
    (hread : h.surroundings.clock.read = (.ok now, later))
    (hheld : ∀ c ∈ calls, c.identifier.id ∈ p.ids) :
    ∀ r ∈ h.builds (wholeRun p calls p?),
      Run.Recounts (begun p now (h.writer.settings.hostName h.surroundings.host)
        (shownProperties rows) (h.writer.settings.opened h.surroundings.disk).1) p
        h.surroundings.clock.Shows calls r := by
  have hshows : ∀ i, later.Shows i → h.surroundings.clock.Shows i := fun i hi => hi.of_later hread
  have hbegun := begun_recalls (Clock.shows_of_read hread) hshows p
    (h.writer.settings.hostName h.surroundings.host) (shownProperties rows)
    (h.writer.settings.opened h.surroundings.disk).1
  rw [← hopen.clock_eq] at hbegun
  have hstart : (h.hear (.planStarted p)).Recalls h.writer.settings _ p _ [] :=
    ⟨_, hopen.writer_eq, .refl _, hbegun⟩
  obtain ⟨hlast, hsettles⟩ := hstart.foldl calls hheld
  intro r hr
  rw [wholeRun, builds, built, built_planStarted, List.nil_append, builds_append] at hr
  rcases List.mem_append.1 hr with hr | hr
  · exact (hsettles r hr).1
  · rw [builds, builds, List.append_nil] at hr
    exact hlast.built_planFinished p? r hr

theorem count_builds {aware : Bool}
    (hclock : h.surroundings.clock.Lasts aware (calls.length + 2))
    (hreadable : h.surroundings.host.isReadable = true) (hroot : root ∈ p.roots) :
    ((h.builds (wholeRun p calls p?)).map (·.id)).count root.id = 1 := by
  obtain ⟨now, hread, hnow, hlater⟩ := hclock.read
  obtain ⟨rows, hrows⟩ := Host.properties_of_isReadable hreadable h.writer.settings.extra
    h.writer.settings.withEnvironment
  have hopen := hear_opens hread hrows p
  let later : List Event := calls.map (·.event) ++ [.planFinished p?]
  have hlength : 0 + later.length = calls.length + 1 := by simp [later]
  have ht := traced_foldl later (hopen.traced hnow (hlength ▸ hlater) hreadable)
  obtain ⟨y, hy, hreports⟩ := hopen.sound.reports_eq hopen.epoch?_eq
    (ne_planStarted_of_mem calls p?)
  have hbuilds : h.builds (wholeRun p calls p?) = y.reports := by
    rw [hreports, wholeRun, builds, built, built_planStarted]
  have hspan := ht.span_eq
  rw [hy, hreadable, if_pos rfl, List.foldl_append, foldl_hear_calls _ rfl] at hspan
  have hyspan : y.toSpan = ⟨p, calls, true⟩ := Option.some.inj hspan
  have haccounted := (ht.kept y hy).accounted
  rw [hbuilds]
  refine List.count_eq_one_of_mem haccounted.nodup ((haccounted.mem_iff root.id).2 ?_)
  rw [hyspan]
  exact ⟨List.mem_map_of_mem hroot, .inl rfl⟩

end Watch

/-- Two writers go through a whole run each, with one plan, the same settings, clock and host. If up
to the first end of an engine each identifier at or below it has the same calls in both runs, the
reports on the engine have the same document but for its times, and the same text where the clock
shows one instant only. With a clock that lasts for the runs there is one such report in each. -/
theorem reports_ignore_interleaving {h h' : Watch}
    (hsettings : h'.writer.settings = h.writer.settings)
    (halike : h.surroundings.Alike h'.surroundings)
    (hbegins : h.writer.run? = none ∨ opens h.writer h.surroundings = true)
    {p : Plan} {calls calls' : List Call} (hheld : ∀ c ∈ calls ++ calls', c.identifier.id ∈ p.ids)
    {root : Identifier} (hroot : root ∈ p.roots)
    (hown : ∀ i ∈ root :: p.descendants root.id,
      ownCalls (uptoEnd root.id calls) i.id = ownCalls (uptoEnd root.id calls') i.id)
    (p? q? : Option Plan) :
    let reports := h.builds (wholeRun p calls p?)
    let reports' := h'.builds (wholeRun p calls' q?)
    (∀ r ∈ reports, ∀ r' ∈ reports', r.id = root.id → r'.id = root.id → ∀ localOffset,
      (r.document localOffset).map Item.timeless = (r'.document localOffset).map Item.timeless ∧
      ∀ now, (∀ i, h.surroundings.clock.Shows i → i = now) →
        ∀ indent, r.render indent localOffset = r'.render indent localOffset) ∧
    ∀ aware, h.surroundings.clock.Lasts aware (max calls.length calls'.length + 2) →
      h.surroundings.host.isReadable = true →
      (reports.map (·.id)).count root.id = 1 ∧ (reports'.map (·.id)).count root.id = 1 := by
  intro reports reports'
  obtain ⟨hcalls, hcalls'⟩ := List.forall_mem_append.1 hheld
  refine ⟨fun r hr r' hr' hid hid' localOffset => ?_, fun aware hclock hreadable => ?_⟩
  · have hopens : opens h.writer h.surroundings = true := by
      rcases hbegins with hidle | hopens
      · by_contra hrefused
        have hnone : reports = [] := Watch.builds_refused hidle (Bool.eq_false_iff.2 hrefused)
        rw [hnone] at hr
        cases hr
      · exact hopens
    obtain ⟨now, later, rows, hread, hrows⟩ := Watch.opens_eq_true hopens
    have hread' : h'.surroundings.clock.read = (.ok now, later) := halike.clock_eq ▸ hread
    have hrows' : h'.surroundings.host.properties h'.writer.settings.extra
        h'.writer.settings.withEnvironment = .ok rows := by
      rw [hsettings, halike.host_eq]
      exact hrows
    have hr₁ := (Watch.hear_opens hread hrows p).recounts hread hcalls r hr
    have hr₂ := (Watch.hear_opens hread' hrows' p).recounts hread' hcalls' r' hr'
    have hname : h'.writer.settings.hostName h'.surroundings.host =
        h.writer.settings.hostName h.surroundings.host := by
      rw [hsettings, halike.host_eq]
    have hsame : r.timeless = r'.timeless := by
      rw [hr₁.timeless_eq, hr₂.timeless_eq, hid, hid']
      exact told_congr hname hroot hown
    refine ⟨EngineReport.timeless_document hsame localOffset, fun at' hone indent => ?_⟩
    rw [← hr₁.still at' hone, hsame, hr₂.still at' fun i hi => hone i (halike.clock_eq ▸ hi)]
  · have hlasts := hclock.of_le (Nat.add_le_add_right (Nat.le_max_left _ _) 2)
    have hlasts' := hclock.of_le (Nat.add_le_add_right (Nat.le_max_right _ _) 2)
    rw [← halike.clock_eq] at hlasts'
    have hreadable' : h'.surroundings.host.isReadable = true := by
      rw [halike.host_eq]
      exact hreadable
    exact ⟨Watch.count_builds hlasts hreadable hroot, Watch.count_builds hlasts' hreadable' hroot⟩

/-- The calls on one engine come in another order, and late; another engine is skipped in place of
being executed. -/
theorem reports_ignore_interleaving_mixed :
    let e : Identifier := ⟨"e", "e", none, .engine⟩
    let f : Identifier := ⟨"f", "f", none, .engine⟩
    let c : Identifier := ⟨"e:c", "c", some "e", .container⟩
    let t : Identifier := ⟨"e:c:t", "t", some "e:c", .test⟩
    let u : Identifier := ⟨"e:u", "u", some "e", .test⟩
    let failed : ExecutionResult := .failed ⟨"AssertionError", "boom", "", true⟩
    let o : Settings := ⟨.ofString "out", none, [], false, none⟩
    let p := Plan.ofList 1 [e, f, c, t, u]
    let h := watch o (.bare (.fixed .epoch)) []
    let calls : List Call := [.started e, .started f, .started c, .finished f .successful,
      .started t, .finished t failed, .finished c .successful, .skipped u none,
      .finished e .successful]
    let calls' : List Call := [.skipped f none, .skipped u none, .started t, .finished t failed,
      .started c, .started e, .register u, .finished c .successful, .finished e .successful,
      .started u]
    (∀ a ∈ calls ++ calls', a.identifier.id ∈ p.ids) ∧ e ∈ p.roots ∧
      (∀ i ∈ e :: p.descendants e.id,
        ownCalls (uptoEnd e.id calls) i.id = ownCalls (uptoEnd e.id calls') i.id) ∧
      ∃ r ∈ h.builds (wholeRun p calls none), ∃ r' ∈ h.builds (wholeRun p calls' none),
        r.id = e.id ∧ r'.id = e.id ∧ r.render none 0 = r'.render none 0 := by
  intro e f c t u failed o p h calls calls'
  have hheld : ∀ a ∈ calls ++ calls', a.identifier.id ∈ p.ids := by decide
  have hroot : e ∈ p.roots := by decide
  have hbelow : p.descendants e.id = [c, t, u] := by decide
  have hown : ∀ i ∈ e :: p.descendants e.id,
      ownCalls (uptoEnd e.id calls) i.id = ownCalls (uptoEnd e.id calls') i.id := by
    rw [hbelow]
    intro i hi
    simp only [List.mem_cons, List.not_mem_nil, or_false] at hi
    rcases hi with rfl | rfl | rfl | rfl <;> rfl
  obtain ⟨hsame, hcount⟩ := reports_ignore_interleaving (h := h) rfl (.refl h.surroundings)
    (.inl rfl) hheld hroot hown none none
  obtain ⟨honce, honce'⟩ := hcount true ((Clock.fixed_reliable .epoch).lasts _) rfl
  obtain ⟨r, hr, hid⟩ := List.mem_map.1 (List.count_pos_iff.1 (honce ▸ Nat.one_pos))
  obtain ⟨r', hr', hid'⟩ := List.mem_map.1 (List.count_pos_iff.1 (honce' ▸ Nat.one_pos))
  exact ⟨hheld, hroot, hown, r, hr, r', hr', hid, hid',
    (hsame r hr r' hr' hid hid' 0).2 .epoch (fun _ => Clock.eq_of_fixed_shows) none⟩

end Writer

end TestRun
