import TestRun.Proofs.Listener.Epochs
import TestRun.Proofs.Listener.Following
import TestRun.Proofs.Report.Timeless
set_option autoImplicit false

/-!
# Reports with any clock

Where a reading of the clock may fail, a report may never be built. But each report that is built
tells what the calls decide up to the first end of its engine: a clock that has failed once is stuck
from then on, and with a stuck clock no engine can be completed any more.
-/

namespace TestRun

open Time Files

namespace Tree

def uptoEnd (id : String) : List Call → List Call
  | [] => []
  | c :: rest =>
    if c.identifier.id = id ∧ c.ending?.isSome = true then [c] else c :: uptoEnd id rest

theorem uptoEnd_append {log : List Call} {id : String} (h : endIn log id = none)
    (more : List Call) : uptoEnd id (log ++ more) = log ++ uptoEnd id more := by
  induction log with
  | nil => rfl
  | cons c log ih =>
    rw [endIn_cons, Option.or_eq_none_iff] at h
    have hopen : ¬ (c.identifier.id = id ∧ c.ending?.isSome = true) := by
      rintro ⟨rfl, hend⟩
      rw [if_pos rfl] at h
      rw [h.1] at hend
      cases hend
    rw [List.cons_append, uptoEnd, if_neg hopen, ih h.2, List.cons_append]

theorem uptoEnd_of_open {log : List Call} {id : String} (h : endIn log id = none) :
    uptoEnd id log = log := by
  have heq := uptoEnd_append h []
  rwa [List.append_nil, uptoEnd, List.append_nil] at heq

theorem uptoEnd_concat {log : List Call} {id : String} (h : endIn log id = none) (c : Call) :
    uptoEnd id (log ++ [c]) = log ++ [c] := by
  rw [uptoEnd_append h, uptoEnd, uptoEnd, ite_self]

theorem uptoEnd_append_of_end {log : List Call} {id : String} (h : endIn log id ≠ none)
    (more : List Call) : uptoEnd id (log ++ more) = uptoEnd id log := by
  induction log with
  | nil => exact absurd rfl h
  | cons c log ih =>
    rw [List.cons_append, uptoEnd, uptoEnd]
    split
    · rfl
    · next hopen =>
      rw [ih]
      intro hnone
      rw [endIn_cons, hnone, Option.or_none] at h
      obtain ⟨hid, hend⟩ := ite_ne_right_iff.1 h
      exact hopen ⟨hid, Option.isSome_iff_ne_none.2 hend⟩

theorem finish_nodeOf (t : Tree) (i : Identifier) :
    (t.nodeOf i).finish = (t.node? i.id).bind (·.finish) := by
  unfold nodeOf
  cases t.node? i.id <;> rfl

theorem Puts.finish_eq {t t' : Tree} {i : Identifier} {n : Node} (h : t.Puts i n t')
    (hn : n.finish = (t.nodeOf i).finish) (id : String) :
    (t'.node? id).bind (·.finish) = (t.node? id).bind (·.finish) := by
  rw [h.node?_eq]
  split
  · next hid => rw [Option.bind_some, hn, finish_nodeOf, hid]
  · rfl

/-- What is kept with any clock: as long as the clock is not stuck, the tree reflects the calls; and
its instants have a property that all instants have that the clock will show. -/
structure Recalls (p : Plan) (startedAt : Instant) (P : Instant → Prop) (log : List Call)
    (clock : Clock) (t : Tree) : Prop where
  plan_eq : t.plan = p
  coherent : t.Coherent
  dated : t.Each (Node.Dated P)
  shows : ∀ i, clock.Shows i → P i
  reflects : ¬ clock.Stuck → Reflects p (some startedAt) log t

section Recalls

variable {p : Plan} {startedAt : Instant} {P : Instant → Prop} {log : List Call} {clock : Clock}
variable {t : Tree}

theorem recalls_begin (p : Plan) (hstart : P startedAt) (hshows : ∀ i, clock.Shows i → P i) :
    Recalls p startedAt P [] clock (begin p (some startedAt)) :=
  ⟨rfl, begin_coherent p _,
    each_begin (fun i => Node.fresh_dated i fun _ hnow => Option.some.inj hnow ▸ hstart) p, hshows,
    fun _ => begin_reflects p _⟩

theorem Recalls.dated_nodeOf (h : t.Recalls p startedAt P log clock) (i : Identifier) :
    (t.nodeOf i).Dated P :=
  h.dated.nodeOf (Node.fresh_dated i fun _ hnow => nomatch hnow)

theorem Recalls.register (h : t.Recalls p startedAt P log clock) {i : Identifier}
    (hi : i.id ∈ p.ids) : (t.register i).Recalls p startedAt P (log ++ [.register i]) clock := by
  refine ⟨?_, h.coherent.register i, h.dated, h.shows, fun hc => (h.reflects hc).register i⟩
  rw [plan_register, h.plan_eq, Plan.add_of_mem hi]

theorem Recalls.answers (h : t.Recalls p startedAt P log clock) {c : Call} {next : Instant → Node}
    {half : Node} {r : Reply} (ha : t.Answers c.identifier clock next half r)
    (hheld : c.identifier.id ∈ p.ids)
    (hmoves : ∀ now t', t.Puts c.identifier (next now) t' → c.Moves now t t')
    (hnext : ∀ now, P now → (next now).Dated P) (hhalf : half.Dated P) :
    r.tree.Recalls p startedAt P (log ++ [c]) r.clock := by
  have hplan : ∀ {n : Node} {t' : Tree}, t.Puts c.identifier n t' → t'.plan = p := by
    intro n t' hputs
    rw [hputs.plan_eq, h.plan_eq, Plan.add_of_mem hheld]
  cases ha with
  | kept hsame hputs =>
    refine ⟨hplan hputs, hputs.coherent, h.dated.puts (h.dated_nodeOf _) hputs, h.shows,
      fun hc => (h.reflects hc).step (hmoves .epoch _ ?_)⟩
    rw [hsame]
    exact hputs
  | read hread hputs =>
    exact ⟨hplan hputs, hputs.coherent,
      h.dated.puts (hnext _ (h.shows _ (Clock.shows_of_read hread))) hputs,
      fun i hi => h.shows i (hi.of_later hread),
      fun _ => (h.reflects fun hstuck => hstuck.not_read hread).step (hmoves _ _ hputs)⟩
  | stuck hstuck hputs =>
    exact ⟨hplan hputs, hputs.coherent, h.dated.puts hhalf hputs, h.shows,
      fun hc => absurd hstuck hc⟩

theorem Each.duration_eq_zero (h : t.Each (Node.Dated P)) {now finish : Instant}
    (hone : ∀ i, P i → i = now) (hfinish : P finish) {id : String} {d : Duration}
    (hd : t.duration id (some finish) = .ok d) : d = 0 := by
  obtain rfl := hone finish hfinish
  unfold duration at hd
  cases hn : t.node? id with
  | none =>
    rw [hn] at hd
    cases hd
    rfl
  | some n =>
    have hdated := h id n hn
    have hend : n.finish.or (some finish) = some finish := by
      cases hf : n.finish with
      | none => rfl
      | some i => rw [hone i (hdated.finish i hf)]; rfl
    have hbegin : n.start.or (some finish) = some finish := by
      cases hs : n.start with
      | none => rfl
      | some i => rw [hone i (hdated.start i hs)]; rfl
    rw [hn] at hd
    dsimp only at hd
    rw [hend, hbegin, elapsed?, elapsed_self] at hd
    cases hd
    rfl

end Recalls

end Tree

namespace Writer

open TestRun.Tree (Call endIn uptoEnd)

variable {run : Run} {p : Plan} {P : Instant → Prop} {log : List Call} {c : Call} {r : EngineReport}
variable {s : Surroundings}

/-- The report on an engine as the calls of a log decide, as if nothing had taken any time. -/
def Run.told (run : Run) (p : Plan) (log : List Call) (id : String) : EngineReport :=
  ⟨id, id, run.hostName, run.startedAt, 0, run.properties,
    (p.testsUnder id).map fun t => ⟨t.id, t.name, id, 0, Tree.verdictIn p log t⟩⟩

/-- But for its times the report tells what the calls decide up to the end of its engine. Where all
instants are one, it tells of no time at all. -/
structure Run.Recounts (run : Run) (p : Plan) (P : Instant → Prop) (log : List Call)
    (r : EngineReport) : Prop where
  timeless_eq : r.timeless = run.told p (uptoEnd r.id log) r.id
  still : ∀ now, (∀ i, P i → i = now) → r.timeless = r

theorem Run.timeless_of_report {id : String} {finishedAt? : Option Instant}
    (hr : run.report id finishedAt? = .ok r) (hplan : run.tree.plan = p)
    (h : Tree.Reflects p (some run.startedAt) log run.tree) : r.timeless = run.told p log id := by
  obtain ⟨htests, -, heq⟩ := Run.parts_of_report hr
  have hcases := map_of_mapM_eq_ok (g := Testcase.timeless)
    (k := fun t => ⟨t.id, t.name, id, 0, Tree.verdictIn p log t⟩)
    (fun test testcase hcase => ?_) htests
  · rw [heq, EngineReport.timeless, hcases, hplan]
    rfl
  · rw [(Run.testcase_eq_ok hcase).2, h.classify_eq hplan]
    rfl

theorem Run.timeless_of_still {id : String} {finish now : Instant}
    (hr : run.report id (some finish) = .ok r) (hdated : run.tree.Each (Node.Dated P))
    (hstart : P run.startedAt) (hfinish : P finish) (hone : ∀ i, P i → i = now) :
    r.timeless = r := by
  obtain ⟨htests, htime, -⟩ := Run.parts_of_report hr
  have hspan : r.time = 0 := by
    rw [elapsed?, hone _ hstart, hone _ hfinish, elapsed_self] at htime
    exact (Except.ok.inj htime).symm
  have htimes := map_of_mapM_eq_ok (g := Testcase.time) (k := fun _ => 0)
    (fun _ _ hcase => hdated.duration_eq_zero hone hfinish (Run.testcase_eq_ok hcase).1) htests
  have hcases : r.testcases.map Testcase.timeless = r.testcases := by
    refine (List.map_congr_left (g := fun testcase => testcase) fun testcase hmem => ?_).trans
      (List.map_id' _)
    have htime : testcase.time ∈ r.testcases.map Testcase.time := List.mem_map_of_mem hmem
    rw [htimes] at htime
    obtain ⟨-, -, hzero⟩ := List.mem_map.1 htime
    rw [Testcase.timeless, hzero]
  rw [EngineReport.timeless, hcases, ← hspan]

theorem Run.report_none (run : Run) (id : String) : run.report id none ≠ .ok r :=
  fun hr => nomatch (Run.parts_of_report hr).2.1

def Run.Settles (run : Run) (p : Plan) (P : Instant → Prop) (log : List Call)
    (reports : List EngineReport) : Prop :=
  ∀ r ∈ reports, run.Recounts p P log r ∧ endIn log r.id ≠ none

theorem Run.Settles.append {reports : List EngineReport} (h : run.Settles p P log reports)
    (more : List Call) : run.Settles p P (log ++ more) reports := by
  intro r hr
  obtain ⟨hrecounts, hend⟩ := h r hr
  refine ⟨⟨?_, hrecounts.still⟩, fun hnone => ?_⟩
  · rw [Tree.uptoEnd_append_of_end hend]
    exact hrecounts.timeless_eq
  · rw [Tree.endIn_append, Option.or_eq_none_iff] at hnone
    exact hend hnone.1

/-- The run has come from another one by events: all but the tree and the engines still to be
reported on is the same. -/
def Run.Of (run first : Run) : Prop :=
  ∃ tree left, run = { first with tree := tree, pending := left }

theorem Run.Of.refl (run : Run) : run.Of run := ⟨run.tree, run.pending, rfl⟩

theorem Run.Of.recounts {first : Run} (h : run.Of first) (hr : run.Recounts p P log r) :
    first.Recounts p P log r := by
  obtain ⟨tree, left, rfl⟩ := h
  exact ⟨hr.timeless_eq, hr.still⟩

theorem Run.Of.moves {first run' : Run} (h : run.Of first) {o : Settings} {s' : Surroundings}
    {reports : List EngineReport} (hmoves : run.Moves o s reports run' s') : run'.Of first := by
  obtain ⟨tree, left, rfl⟩ := h
  obtain ⟨tree', left', rfl, -⟩ := hmoves.exists_pending
  exact ⟨tree', left', rfl⟩

/-- What a run keeps with any clock: an engine still to be reported on has not ended, unless the
clock was stuck when it did; then its node has no finish. -/
structure Run.Recalls (p : Plan) (P : Instant → Prop) (log : List Call) (clock : Clock)
    (run : Run) : Prop where
  tree : run.tree.Recalls p run.startedAt P log clock
  startedAt : P run.startedAt
  unended : ¬ clock.Stuck → ∀ root ∈ run.pending, endIn log root.id = none
  unfinished : ∀ root ∈ run.pending, (run.tree.node? root.id).bind (·.finish) = none

variable {clock later : Clock} {t : Tree}

theorem begun_recalls {now : Instant} (hnow : P now) (hshows : ∀ i, clock.Shows i → P i)
    (p : Plan) (hostName : String) (properties : List (String × String))
    (directory? : Option Path) :
    (begun p now hostName properties directory?).Recalls p P [] clock := by
  refine ⟨Tree.recalls_begin p hnow hshows, hnow, fun _ _ _ => rfl, fun root _ => ?_⟩
  change ((Tree.begin p (some now)).node? root.id).bind (·.finish) = none
  rcases Tree.node?_begin p (some now) root.id with ⟨i, -, -, hget⟩ | ⟨-, hget⟩ <;> rw [hget] <;> rfl

theorem Run.Recalls.keep (h : run.Recalls p P log clock)
    (ht : t.Recalls p run.startedAt P (log ++ [c]) later)
    (hfinish : ∀ id, (t.node? id).bind (·.finish) = (run.tree.node? id).bind (·.finish))
    (hopen : ¬ later.Stuck → ¬ clock.Stuck ∧ c.ending? = none) :
    ({ run with tree := t } : Run).Recalls p P (log ++ [c]) later := by
  refine ⟨ht, h.startedAt, fun hlater root hroot => ?_, fun root hroot => ?_⟩
  · obtain ⟨hclock, hc⟩ := hopen hlater
    rw [Tree.endIn_concat, h.unended hclock root hroot, hc, ite_self]
    rfl
  · exact (hfinish root.id).trans (h.unfinished root hroot)

theorem Run.Recalls.settle (h : run.Recalls p P log clock) {n : Node}
    (hputs : run.tree.Puts c.identifier n t)
    (ht : t.Recalls p run.startedAt P (log ++ [c]) later) (hopen : ¬ later.Stuck → ¬ clock.Stuck) :
    (({ run with tree := t } : Run).settle c.identifier.id).Recalls p P (log ++ [c]) later := by
  have hleft : ∀ root ∈ (({ run with tree := t } : Run).settle c.identifier.id).pending,
      root ∈ run.pending ∧ root.id ≠ c.identifier.id := by
    intro root hroot
    obtain ⟨hmem, hother⟩ := List.mem_filter.1 hroot
    exact ⟨hmem, bne_iff_ne.1 hother⟩
  refine ⟨ht, h.startedAt, fun hlater root hroot => ?_, fun root hroot => ?_⟩
  · obtain ⟨hmem, hother⟩ := hleft root hroot
    rw [Tree.endIn_concat, h.unended (hopen hlater) root hmem, if_neg (Ne.symm hother)]
    rfl
  · obtain ⟨hmem, hother⟩ := hleft root hroot
    change (t.node? root.id).bind (·.finish) = none
    rw [hputs.node?_eq, if_neg hother]
    exact h.unfinished root hmem

theorem Run.Recalls.recounts (h : run.Recalls p P log clock) {now : Instant}
    (hread : clock.read = (.ok now, later)) {e : Ending} (hc : c.ending? = some e)
    (ht : t.Recalls p run.startedAt P (log ++ [c]) later) (hmoves : c.Moves now run.tree t)
    {finish? : Option Instant} (hfinish : ∀ finish, finish? = some finish → P finish)
    (hr : r ∈ ({ run with tree := t } : Run).completion c.identifier.id finish?) :
    run.Recounts p P (log ++ [c]) r ∧ endIn (log ++ [c]) r.id ≠ none := by
  have hclock : ¬ clock.Stuck := fun hstuck => hstuck.not_read hread
  obtain ⟨⟨root, hroot, hid⟩, hreport⟩ := Run.report_of_mem_completion hr
  have hrid : r.id = c.identifier.id := (Run.report_eq_ok hreport).1
  have hopen := h.unended hclock root hroot
  rw [hid, ← hrid] at hopen
  have htold := Run.timeless_of_report hreport ht.plan_eq
    ((h.tree.reflects hclock).step hmoves)
  refine ⟨⟨?_, fun at' hone => ?_⟩, endIn_concat_ne_none.2 (.inr ⟨hrid.symm, hc ▸ rfl⟩)⟩
  · rw [Tree.uptoEnd_concat hopen, hrid]
    exact htold
  · cases hf : finish? with
    | none => exact absurd (hf ▸ hreport) (Run.report_none _ _)
    | some finish =>
      rw [hf] at hreport
      exact Run.timeless_of_still hreport ht.dated h.startedAt (hfinish finish hf) hone

theorem Run.Recalls.endAct (h : run.Recalls p P log s.clock) {e : Ending}
    (hc : c.ending? = some e) (hheld : c.identifier.id ∈ p.ids)
    (hmoves : ∀ now t', run.tree.Puts c.identifier ((run.tree.nodeOf c.identifier).closed e now) t' →
      c.Moves now run.tree t') (o : Settings) :
    let after := ((Writer.endAct o c.identifier e).perform (run, s)).2
    after.1.Recalls p P (log ++ [c]) after.2.clock ∧
      run.Settles p P (log ++ [c]) (run.builtAtEnd c.identifier e s) := by
  obtain ⟨s₁, hact, -, hclock⟩ := Tree.perform_hearEnded_reply run.tree c.identifier e s
  have hnode := h.tree.dated_nodeOf c.identifier
  have ha := h.tree.coherent.ended_answers c.identifier e s.clock
  have ht := h.tree.answers ha hheld hmoves (fun now hnow => hnode.closed e hnow)
    ⟨hnode.start, hnode.finish⟩
  generalize run.tree.ended c.identifier e s.clock = reply at hact hclock ha ht
  cases ha with
  | kept hsame hputs =>
    obtain ⟨hafter, hbuilt⟩ := perform_endAct_ok o hact
    rw [hafter, hbuilt]
    dsimp only
    rw [clock_foldl_publish, hclock]
    refine ⟨h.settle hputs ht fun hopen => hopen, fun r hr => ?_⟩
    obtain ⟨⟨root, hroot, hid⟩, hreport⟩ := Run.report_of_mem_completion hr
    rw [Tree.finish_nodeOf, ← hid, h.unfinished root hroot] at hreport
    exact absurd hreport (Run.report_none _ _)
  | @read t' now later hread hputs =>
    obtain ⟨hafter, hbuilt⟩ := perform_endAct_ok o hact
    rw [hafter, hbuilt]
    dsimp only
    rw [clock_foldl_publish, hclock]
    have hnow : P now := h.tree.shows now (Clock.shows_of_read hread)
    exact ⟨h.settle hputs ht fun _ hstuck => hstuck.not_read hread,
      fun r hr => h.recounts hread hc ht (hmoves now t' hputs) (hnode.closed e hnow).finish hr⟩
  | stuck hstuck hputs =>
    obtain ⟨hafter, hbuilt⟩ := perform_endAct_error o hact
    rw [hafter, hbuilt]
    dsimp only
    rw [hclock]
    exact ⟨h.keep ht (hputs.finish_eq rfl) fun hopen => absurd hstuck hopen, List.forall_mem_nil _⟩

theorem Run.Recalls.callAct (h : run.Recalls p P log s.clock) (c : Call)
    (hheld : c.identifier.id ∈ p.ids) (o : Settings) :
    let after := ((Writer.callAct o c).perform (run, s)).2
    after.1.Recalls p P (log ++ [c]) after.2.clock ∧
      run.Settles p P (log ++ [c]) (built c.event ⟨o, .running run⟩ s) := by
  cases c with
  | register i =>
    exact ⟨h.keep (h.tree.register hheld) (fun _ => rfl) fun hopen => ⟨hopen, rfl⟩,
      List.forall_mem_nil _⟩
  | started i =>
    have ha := h.tree.coherent.started_answers i s.clock
    have hnode := h.tree.dated_nodeOf i
    have ht := h.tree.answers (c := .started i) ha hheld (fun _ _ hputs => hputs)
      (fun now hnow => hnode.begun hnow) hnode
    have hstart : (Tree.hearStarted i).perform (run.tree, s) = _ := Tree.perform_hear _ run.tree s
    rw [perform_callAct_started o hstart]
    refine ⟨?_, List.forall_mem_nil _⟩
    generalize run.tree.started i s.clock = reply at ha ht ⊢
    cases ha with
    | kept hsame hputs => exact h.keep ht (hputs.finish_eq rfl) fun hopen => ⟨hopen, rfl⟩
    | read hread hputs =>
      exact h.keep ht (hputs.finish_eq rfl) fun _ => ⟨fun hstuck => hstuck.not_read hread, rfl⟩
    | stuck hstuck hputs =>
      exact h.keep ht (hputs.finish_eq rfl) fun hopen => absurd hstuck hopen
  | skipped i reason? =>
    exact h.endAct (c := .skipped i reason?) rfl hheld (fun _ _ hputs => hputs) o
  | finished i result =>
    exact h.endAct (c := .finished i result) rfl hheld (fun _ _ hputs => hputs) o

theorem Run.Recalls.builtAtClose (h : run.Recalls p P log s.clock) :
    ∀ r ∈ run.builtAtClose s, run.Recounts p P log r := by
  intro r hr
  unfold Run.builtAtClose at hr
  rcases hread : s.clock.read with ⟨f | now, later⟩ <;> rw [hread] at hr
  · cases hr
  have hclock : ¬ s.clock.Stuck := fun hstuck => hstuck.not_read hread
  obtain ⟨root, hroot, hreport⟩ := Run.report_of_mem_completions hr
  have hrid : r.id = root.id := (Run.report_eq_ok hreport).1
  refine ⟨?_, fun at' hone => ?_⟩
  · rw [hrid, Tree.uptoEnd_of_open (h.unended hclock root hroot)]
    exact Run.timeless_of_report hreport h.tree.plan_eq (h.tree.reflects hclock)
  · exact Run.timeless_of_still hreport h.tree.dated h.startedAt
      (h.tree.shows now (Clock.shows_of_read hread)) hone

namespace Watch

def builds (h : Watch) : List Event → List EngineReport
  | [] => []
  | e :: rest => h.built e ++ (h.hear e).builds rest

theorem builds_append (h : Watch) (events later : List Event) :
    h.builds (events ++ later) = h.builds events ++ (events.foldl hear h).builds later := by
  induction events generalizing h with
  | nil => rfl
  | cons e events ih =>
    calc h.builds (e :: (events ++ later))
      _ = h.built e ++ (h.hear e).builds (events ++ later) := rfl
      _ = h.built e ++ ((h.hear e).builds events ++ (events.foldl hear (h.hear e)).builds later) := by
          rw [ih]
      _ = h.builds (e :: events) ++ ((e :: events).foldl hear h).builds later :=
          (List.append_assoc ..).symm

structure Recalls (h : Watch) (o : Settings) (first : Run) (p : Plan) (P : Instant → Prop)
    (log : List Call) : Prop where
  exists_run : ∃ run, h.writer = ⟨o, .running run⟩ ∧ run.Of first ∧
    run.Recalls p P log h.surroundings.clock

variable {h : Watch} {o : Settings} {first : Run}

theorem Recalls.hear_call (h₀ : h.Recalls o first p P log) (c : Call)
    (hheld : c.identifier.id ∈ p.ids) :
    (h.hear c.event).Recalls o first p P (log ++ [c]) ∧
      first.Settles p P (log ++ [c]) (h.built c.event) := by
  obtain ⟨run, hwriter, hof, hrun⟩ := h₀.exists_run
  obtain ⟨hrecalls, hsettles⟩ := hrun.callAct c hheld o
  obtain ⟨hmoves, -⟩ := moves_callAct o hrun.tree.coherent c h.surroundings
  have hact := perform_hear_call c o run h.surroundings
  rw [← hwriter] at hact
  obtain ⟨hwriter', hsurroundings⟩ := hear_eq hact
  refine ⟨⟨_, hwriter', hof.moves hmoves, hsurroundings ▸ hrecalls⟩, fun r hr => ?_⟩
  rw [built, hwriter] at hr
  obtain ⟨hrecounts, hend⟩ := hsettles r hr
  exact ⟨hof.recounts hrecounts, hend⟩

theorem Recalls.foldl (h₀ : h.Recalls o first p P log) (calls : List Call)
    (hheld : ∀ c ∈ calls, c.identifier.id ∈ p.ids) :
    ((calls.map (·.event)).foldl hear h).Recalls o first p P (log ++ calls) ∧
      first.Settles p P (log ++ calls) (h.builds (calls.map (·.event))) := by
  induction calls generalizing h log with
  | nil =>
    rw [List.append_nil]
    exact ⟨h₀, List.forall_mem_nil _⟩
  | cons c calls ih =>
    obtain ⟨hnext, hsettles⟩ := h₀.hear_call c (hheld c List.mem_cons_self)
    obtain ⟨hlast, hlater⟩ := ih hnext fun c' hc' => hheld c' (List.mem_cons_of_mem c hc')
    rw [List.append_cons]
    exact ⟨hlast, List.forall_mem_append.2 ⟨hsettles.append calls, hlater⟩⟩

theorem Recalls.built_planFinished (h₀ : h.Recalls o first p P log) (p? : Option Plan) :
    ∀ r ∈ h.built (.planFinished p?), first.Recounts p P log r := by
  obtain ⟨run, hwriter, hof, hrun⟩ := h₀.exists_run
  intro r hr
  rw [built, hwriter] at hr
  exact hof.recounts (hrun.builtAtClose r hr)

theorem Sound.reports_eq (hs : h.Sound) {x : Epoch} (hx : h.epoch? = some x) {events : List Event}
    (he : ∀ e ∈ events, ∀ p, e ≠ .planStarted p) :
    ∃ y, (events.foldl Watch.hear h).epoch? = some y ∧ y.reports = x.reports ++ h.builds events := by
  induction events generalizing h x with
  | nil => exact ⟨x, hx, (List.append_nil _).symm⟩
  | cons e events ih =>
    have hfirst := he e List.mem_cons_self
    have hrest := fun e' he' => he e' (List.mem_cons_of_mem e he')
    cases hrun : h.writer.run? with
    | none =>
      obtain ⟨y, hy, hreports⟩ := ih (hs.hear e)
        ((epoch?_hear_idle hs hrun hfirst).trans hx) hrest
      refine ⟨y, hy, ?_⟩
      rw [hreports, builds, (hear_idle hrun hfirst).1, List.nil_append]
    | some run =>
      obtain ⟨z, run', hz, -, hnext⟩ := hs.continues hrun hfirst
      obtain rfl := Option.some.inj (hx.symm.trans hz)
      obtain ⟨y, hy, hreports⟩ := ih (hs.hear e) hnext.epoch?_eq hrest
      refine ⟨y, hy, ?_⟩
      rw [hreports, builds, List.append_assoc]

end Watch

end Writer

end TestRun
