import TestRun.Proofs.Suite.Bodies
set_option autoImplicit false

namespace TestRun

open TestRun.Tree (Call)
open Writer (Settings Builds Closes)

inductive Moment
  | read (times : Nat)
  | call (c : Call)

namespace Moment

def act : Moment → Act Session Unit
  | read times => Session.around (Surroundings.tick times)
  | call c => Session.deliver c.event

def call? : Moment → Option Call
  | read _ => none
  | call c => some c

def built : Moment → Session → List EngineReport
  | read _, _ => []
  | call c, s => Session.built c.event s

end Moment

def callsOf (ms : List Moment) : List Call := ms.filterMap Moment.call?

theorem callsOf_append (ms ns : List Moment) : callsOf (ms ++ ns) = callsOf ms ++ callsOf ns :=
  List.filterMap_append

def Moment.reads (times : List Nat) : List Moment := times.map Moment.read

theorem callsOf_reads (times : List Nat) : callsOf (Moment.reads times) = [] := by
  induction times with
  | nil => rfl
  | cons n times ih => exact ih

namespace Writer

inductive BuildsAll (p : Plan) : List Call → List Call → List EngineReport → Prop
  | nil {log} : BuildsAll p log [] []
  | cons {log c calls first rest} : Builds p log c first → BuildsAll p (log ++ [c]) calls rest →
      BuildsAll p log (c :: calls) (first ++ rest)

variable {p : Plan} {log : List Call}

theorem BuildsAll.append {calls later : List Call} {first rest : List EngineReport}
    (h : BuildsAll p log calls first) (h' : BuildsAll p (log ++ calls) later rest) :
    BuildsAll p log (calls ++ later) (first ++ rest) := by
  induction h with
  | nil =>
    rw [List.append_nil] at h'
    exact h'
  | cons hc _ ih =>
    rw [List.append_assoc]
    refine .cons hc (ih ?_)
    rw [List.append_assoc]
    exact h'

theorem BuildsAll.eq_nil {calls : List Call} {reports : List EngineReport}
    (h : BuildsAll p log calls reports)
    (hcalls : ∀ c ∈ calls, ∀ log, ¬ Closes p log c) : reports = [] := by
  induction h with
  | nil => rfl
  | cons hc _ ih =>
    rw [ih fun c hmem => hcalls c (List.mem_cons_of_mem _ hmem), List.append_nil]
    rcases hc with ⟨hcloses, -⟩ | ⟨-, hnil⟩
    · exact absurd hcloses (hcalls _ List.mem_cons_self _)
    · exact hnil

theorem BuildsAll.split {calls later : List Call} {reports : List EngineReport}
    (h : BuildsAll p log (calls ++ later) reports) :
    ∃ first rest, reports = first ++ rest ∧ BuildsAll p log calls first ∧
      BuildsAll p (log ++ calls) later rest := by
  induction calls generalizing log reports with
  | nil =>
    rw [← List.append_nil log] at h
    exact ⟨[], reports, rfl, .nil, h⟩
  | cons c calls ih =>
    cases h with
    | @cons _ _ _ first rest hc hrest =>
      obtain ⟨middle, last, rfl, hmiddle, hlast⟩ := ih hrest
      refine ⟨first ++ middle, last, (List.append_assoc _ _ _).symm, .cons hc hmiddle, ?_⟩
      rw [List.append_assoc] at hlast
      exact hlast

theorem BuildsAll.eq_singleton {calls : List Call} {c : Call} {reports : List EngineReport}
    (h : BuildsAll p log (calls ++ [c]) reports)
    (hcalls : ∀ c ∈ calls, ∀ log, ¬ Closes p log c) (hc : Closes p (log ++ calls) c) :
    ∃ r, reports = [r] ∧ r.Tells p (log ++ (calls ++ [c])) c.identifier.id := by
  obtain ⟨first, rest, rfl, hfirst, hrest⟩ := h.split
  obtain rfl := hfirst.eq_nil hcalls
  cases hrest with
  | cons hbuilds hnone =>
    cases hnone
    rcases hbuilds with ⟨-, r, rfl, htells⟩ | ⟨hnot, -⟩
    · rw [List.append_assoc] at htells
      exact ⟨r, rfl, htells⟩
    · exact absurd hc hnot

end Writer

namespace Session

open Writer (BuildsAll)

def play (ms : List Moment) : Act Session Unit := ms.forM Moment.act

def builtOver : List Moment → Session → List EngineReport
  | [], _ => []
  | m :: ms, s =>
    m.built s ++
      match m.act.perform s with
      | (.ok _, s) => builtOver ms s
      | (.error _, _) => []

theorem perform_play_append {ms ns : List Moment} {s s' : Session}
    (h : (play ms).perform s = (.ok (), s')) :
    (play (ms ++ ns)).perform s = (play ns).perform s' := by
  unfold play at h ⊢
  rw [Act.perform_forM_append, Act.perform_bind_ok h]

theorem builtOver_append {ms ns : List Moment} {s s' : Session}
    (h : (play ms).perform s = (.ok (), s')) :
    builtOver (ms ++ ns) s = builtOver ms s ++ builtOver ns s' := by
  induction ms generalizing s with
  | nil =>
    cases h
    rfl
  | cons m ms ih =>
    unfold play at h
    rw [Act.perform_forM_cons, Act.perform_bind] at h
    rw [List.cons_append, builtOver, builtOver, List.append_assoc]
    rcases hm : m.act.perform s with ⟨f | _, s₁⟩ <;> rw [hm] at h
    · cases h
    · dsimp only
      rw [ih h]

theorem perform_play_reads (times : List Nat) (s : Session) :
    (play (Moment.reads times)).perform s = (readAll times).perform s := by
  induction times generalizing s with
  | nil => rfl
  | cons n times ih =>
    unfold play readAll Moment.reads at ih ⊢
    rw [List.map_cons, Act.perform_forM_cons, Act.perform_forM_cons, Act.perform_bind,
      Act.perform_bind]
    unfold Moment.act
    rcases (around (Surroundings.tick n)).perform s with ⟨_ | _, s'⟩
    · rfl
    · exact ih s'

variable {o : Settings} {directory? : Option Files.Path} {p : Plan} {aware : Bool}
variable {log : List Call} {s : Session}

theorem Follows.withClock (h : s.Follows o directory? p aware log) {c : Time.Clock}
    (hc : c.Reliable aware) : (s.withClock c).Follows o directory? p aware log :=
  ⟨⟨⟨⟨h.underway.holds.plan_eq, h.underway.holds.writer, h.underway.holds.console⟩,
    h.underway.console⟩, hc⟩, h.writer, h.one_writer⟩

/-- What playing moments leaves of a session that followed a log. -/
structure Played (o : Settings) (directory? : Option Files.Path) (p : Plan) (aware : Bool)
    (log : List Call) (ms : List Moment) (s s' : Session) : Prop where
  perform_eq : (play ms).perform s = (.ok (), s')
  follows : s'.Follows o directory? p aware (log ++ callsOf ms)
  builds : BuildsAll p log (callsOf ms) (builtOver ms s)
  host_eq : s'.surroundings.host = s.surroundings.host
  disk_eq : s'.surroundings.disk = (builtOver ms s).foldl
    (Writer.store o.indent directory? s.surroundings.host.localOffset) s.surroundings.disk

theorem Follows.moment (h : s.Follows o directory? p aware log) {m : Moment}
    (hm : ∀ c, m.call? = some c → c.identifier.id ∈ p.ids) :
    ∃ s', Played o directory? p aware log [m] s s' := by
  cases m with
  | read times =>
    obtain ⟨c, hact, hc⟩ := perform_around_tick times h.underway.clock
    refine ⟨s.withClock c, ?_, ?_, ?_, rfl, ?_⟩
    · unfold play
      rw [Act.perform_forM_cons]
      exact Act.perform_bind_ok hact _
    · rw [show callsOf [Moment.read times] = [] from rfl, List.append_nil]
      exact h.withClock hc
    · have hbuilt : builtOver [.read times] s = [] := by
        unfold builtOver
        rw [show (Moment.read times).act.perform s = (.ok (), s.withClock c) from hact]
        rfl
      rw [hbuilt]
      exact .nil
    · have hbuilt : builtOver [.read times] s = [] := by
        unfold builtOver
        rw [show (Moment.read times).act.perform s = (.ok (), s.withClock c) from hact]
        rfl
      rw [hbuilt]
      rfl
  | call c =>
    obtain ⟨s', hact, hfollows, hbuilds, hhost, hdisk⟩ := h.deliver_call (hm c rfl)
    have hbuilt : builtOver [.call c] s = built c.event s := by
      unfold builtOver
      rw [show (Moment.call c).act.perform s = (.ok (), s') from hact]
      exact List.append_nil _
    refine ⟨s', ?_, hfollows, ?_, hhost, ?_⟩
    · unfold play
      rw [Act.perform_forM_cons]
      exact Act.perform_bind_ok hact _
    · rw [hbuilt, ← List.append_nil (built c.event s)]
      exact .cons hbuilds .nil
    · rw [hbuilt]
      exact hdisk

theorem Played.append {ms ns : List Moment} {s' s'' : Session}
    (h : Played o directory? p aware log ms s s')
    (h' : Played o directory? p aware (log ++ callsOf ms) ns s' s'') :
    Played o directory? p aware log (ms ++ ns) s s'' := by
  have hbuilt : builtOver (ms ++ ns) s = builtOver ms s ++ builtOver ns s' :=
    builtOver_append h.perform_eq
  refine ⟨?_, ?_, ?_, h'.host_eq.trans h.host_eq, ?_⟩
  · rw [perform_play_append h.perform_eq]
    exact h'.perform_eq
  · rw [callsOf_append, ← List.append_assoc]
    exact h'.follows
  · rw [hbuilt, callsOf_append]
    exact h.builds.append h'.builds
  · rw [hbuilt, List.foldl_append, ← h.disk_eq, ← h.host_eq]
    exact h'.disk_eq

theorem Follows.play_nil (h : s.Follows o directory? p aware log) :
    Played o directory? p aware log [] s s := by
  refine ⟨rfl, ?_, .nil, rfl, rfl⟩
  rw [show callsOf [] = [] from rfl, List.append_nil]
  exact h

theorem Follows.play (h : s.Follows o directory? p aware log) {ms : List Moment}
    (hms : ∀ c ∈ callsOf ms, c.identifier.id ∈ p.ids) :
    ∃ s', Played o directory? p aware log ms s s' := by
  induction ms generalizing s log with
  | nil => exact ⟨s, h.play_nil⟩
  | cons m ms ih =>
    have hfirst : ∀ c, m.call? = some c → c.identifier.id ∈ p.ids := by
      intro c hc
      exact hms c (List.mem_filterMap.2 ⟨m, List.mem_cons_self, hc⟩)
    have hrest : ∀ c ∈ callsOf ms, c.identifier.id ∈ p.ids := by
      intro c hc
      obtain ⟨n, hn, hnc⟩ := List.mem_filterMap.1 hc
      exact hms c (List.mem_filterMap.2 ⟨n, List.mem_cons_of_mem _ hn, hnc⟩)
    obtain ⟨s₁, h₁⟩ := h.moment hfirst
    obtain ⟨s₂, h₂⟩ := ih h₁.follows hrest
    exact ⟨s₂, h₁.append h₂⟩

end Session

end TestRun
