import TestRun.Proofs.Cause
import TestRun.Proofs.Suite.Running
set_option autoImplicit false

/-!
# Outcomes of tests

The verdict on a test by the path from its engine down to it: the first node of the path that is
marked skipped, or whose setup does not succeed, decides, and the test's own body where there is
none. These are the verdicts that the reports show, by any schedule and with any number of workers.
-/

namespace TestRun

namespace ExecutionResult

theorem after_aborted {f : Fault} (h : f.isAbort = true) :
    ExecutionResult.after (some f) = .aborted f.cause := by
  unfold after
  exact if_pos h

theorem after_failed {f : Fault} (h : f.isAbort = false) :
    ExecutionResult.after (some f) = .failed f.cause := by
  unfold after
  dsimp only
  rw [h]
  rfl

end ExecutionResult

namespace SuiteNode

/-- A group of the path fails its setup, and those around it are open. -/
def SetupFails (path : List SuiteNode) : Prop :=
  ∃ outer g inner f, path = outer ++ g :: inner ∧ (∀ o ∈ outer, o.isOpen = true) ∧
    g.label.skip? = none ∧ g.setup? = some f ∧ f.isAbort = false

/-- The verdict on a test below the groups of a path, outermost first, where no setup failed. -/
inductive Ruling (path : List SuiteNode) (t : SuiteNode) : Verdict → Prop
  | returned : (∀ g ∈ path, g.isOpen = true) → t.label.skip? = none → t.body? = none →
      Ruling path t .success
  | gaveUp {f : Fault} {text : String} : (∀ g ∈ path, g.isOpen = true) →
      t.label.skip? = none → t.body? = some f → f.isAbort = true → f.cause.RenderedAs text →
      Ruling path t (.skipped text)
  | failed {f : Fault} : (∀ g ∈ path, g.isOpen = true) → t.label.skip? = none →
      t.body? = some f → f.isAbort = false → f.cause.assertion = true →
      Ruling path t (.failure (some f.cause))
  | broke {f : Fault} : (∀ g ∈ path, g.isOpen = true) → t.label.skip? = none →
      t.body? = some f → f.isAbort = false → f.cause.assertion = false →
      Ruling path t (.error (some f.cause))
  | marked {reason : String} : (∀ g ∈ path, g.isOpen = true) → t.label.skip? = some reason →
      Ruling path t (.skipped reason)
  | underMarked {outer inner : List SuiteNode} {g : SuiteNode} {reason : String} :
      path = outer ++ g :: inner → (∀ o ∈ outer, o.isOpen = true) →
      g.label.skip? = some reason → Ruling path t (.skipped ("parent was skipped: " ++ reason))
  | underAborted {outer inner : List SuiteNode} {g : SuiteNode} {f : Fault} {line : String} :
      path = outer ++ g :: inner → (∀ o ∈ outer, o.isOpen = true) → g.label.skip? = none →
      g.setup? = some f → f.isAbort = true → f.cause.HeadedBy line →
      Ruling path t (.skipped ("parent was skipped: " ++ line))

/-- The verdict on a test below a group whose setup failed, by the groups around that one: the
failure itself, unless one of them gave up in its teardown. -/
inductive Masking (outer : List SuiteNode) (f : Fault) : Verdict → Prop
  | failure : (∀ o ∈ outer, ∀ f', o.teardown? = some f' → f'.isAbort = false) →
      f.cause.assertion = true → Masking outer f (.failure (some f.cause))
  | error : (∀ o ∈ outer, ∀ f', o.teardown? = some f' → f'.isAbort = false) →
      f.cause.assertion = false → Masking outer f (.error (some f.cause))
  | masked {far near : List SuiteNode} {o : SuiteNode} {f' : Fault} {line : String} :
      outer = far ++ o :: near →
      (∀ n ∈ near, ∀ f'', n.teardown? = some f'' → f''.isAbort = false) →
      o.teardown? = some f' → f'.isAbort = true → f'.cause.HeadedBy line →
      Masking outer f (.skipped ("parent was skipped: " ++ line))

variable {e g t : SuiteNode} {path outer inner : List SuiteNode}

theorem endsAlong_append (houter : ∀ o ∈ outer, o.isOpen = true) (hg : g.isOpen = false) :
    endsAlong (outer ++ g :: inner) = outer.map ending ++ [g.ending] := by
  induction outer with
  | nil =>
    have hne : ¬ g.isOpen = true := by
      rw [hg]
      exact Bool.false_ne_true
    rw [List.nil_append, endsAlong, if_neg hne]
    rfl
  | cons o outer ih =>
    rw [List.cons_append, endsAlong, if_pos (houter o List.mem_cons_self),
      ih fun x hx => houter x (List.mem_cons_of_mem _ hx)]
    rfl

theorem reverse_endsAlong (houter : ∀ o ∈ outer, o.isOpen = true) (hg : g.isOpen = false) :
    (endsAlong (outer ++ g :: inner)).reverse = g.ending :: (outer.map ending).reverse := by
  rw [endsAlong_append houter hg, List.reverse_append]
  rfl

theorem all_isOpen_eq_false (hpath : path = outer ++ g :: inner) (hg : g.isOpen = false) :
    path.all isOpen = false := by
  rw [hpath, List.all_append, List.all_cons, hg, Bool.false_and, Bool.and_false]

theorem all_isOpen_eq_true (h : ∀ g ∈ path, g.isOpen = true) : path.all isOpen = true :=
  List.all_eq_true.2 h

theorem isOpen_of_setup {f : Fault} (h : g.setup? = some f) : g.isOpen = false := by
  unfold isOpen
  rw [h]
  exact Bool.and_false _

theorem ending_of_skip {reason : String} (h : g.label.skip? = some reason) :
    g.ending = .skipped reason := by
  unfold ending
  rw [h]

theorem ending_of_setup (hskip : g.label.skip? = none) {f : Fault} (h : g.setup? = some f) :
    g.ending = .finished (.after (some f)) := by
  unfold ending fault?
  rw [hskip, h]
  rfl

theorem fault?_of_test (h : t.kind = .test) : t.fault? = t.body? := by
  cases t with
  | test label body? => exact Option.or_none
  | group isEngine label hooks children => cases isEngine <;> cases h

def verdictAlong (path : List SuiteNode) (t : SuiteNode) (hasStarted : Bool) : Verdict :=
  if path.all isOpen then .ofEnding t.ending else .below (endsAlong path).reverse hasStarted

theorem verdictAlong_open (h : ∀ g ∈ path, g.isOpen = true) (hasStarted : Bool) :
    verdictAlong path t hasStarted = .ofEnding t.ending :=
  if_pos (all_isOpen_eq_true h)

theorem verdictAlong_closed (hpath : path = outer ++ g :: inner)
    (houter : ∀ o ∈ outer, o.isOpen = true) (hg : g.isOpen = false) (hasStarted : Bool) :
    verdictAlong path t hasStarted =
      .below (g.ending :: (outer.map ending).reverse) hasStarted := by
  unfold verdictAlong
  rw [all_isOpen_eq_false hpath hg, if_neg Bool.false_ne_true, hpath, reverse_endsAlong houter hg]

theorem ending_of_body (ht : t.kind = .test) (hskip : t.label.skip? = none) :
    t.ending = .finished (.after t.body?) := by
  unfold ending
  rw [hskip, fault?_of_test ht]

theorem below_of_withdrawal {e : Ending} {reason : String} (h : e.withdrawal? = some reason)
    (rest : List Ending) (hasStarted : Bool) :
    Verdict.below (e :: rest) hasStarted = .underSkipped reason := by
  unfold Verdict.below
  rw [List.findSome?_cons, h]

theorem below_failed_of_withdrawal {ends : List Ending} {reason : String}
    (h : ends.findSome? Ending.withdrawal? = some reason) (cause : Cause) (hasStarted : Bool) :
    Verdict.below (.finished (.failed cause) :: ends) hasStarted = .underSkipped reason := by
  have hskip : (Ending.finished (.failed cause) :: ends).findSome? Ending.withdrawal? =
      some reason := h
  unfold Verdict.below
  rw [hskip]

theorem below_failed_of_no_withdrawal {ends : List Ending}
    (h : ends.findSome? Ending.withdrawal? = none) (cause : Cause) (hasStarted : Bool) :
    Verdict.below (.finished (.failed cause) :: ends) hasStarted = .ofCause cause := by
  have hskip : (Ending.finished (.failed cause) :: ends).findSome? Ending.withdrawal? = none := h
  unfold Verdict.below
  rw [hskip]
  rfl

theorem Ruling.verdict_eq {v : Verdict} (h : Ruling path t v) (ht : t.kind = .test)
    (hasStarted : Bool) : verdictAlong path t hasStarted = v := by
  cases h with
  | returned hopen hskip hbody =>
    rw [verdictAlong_open hopen, ending_of_body ht hskip, hbody]
    rfl
  | gaveUp hopen hskip hbody habort htext =>
    rw [verdictAlong_open hopen, ending_of_body ht hskip, hbody,
      ExecutionResult.after_aborted habort, ← Cause.renderedAs_iff.1 htext]
    rfl
  | @failed f hopen hskip hbody habort hassert =>
    rw [verdictAlong_open hopen, ending_of_body ht hskip, hbody,
      ExecutionResult.after_failed habort]
    change Verdict.ofCause f.cause = _
    exact if_pos hassert
  | @broke f hopen hskip hbody habort hassert =>
    rw [verdictAlong_open hopen, ending_of_body ht hskip, hbody,
      ExecutionResult.after_failed habort]
    change Verdict.ofCause f.cause = _
    unfold Verdict.ofCause
    rw [hassert]
    rfl
  | marked hopen hskip =>
    rw [verdictAlong_open hopen, ending_of_skip hskip]
    rfl
  | underMarked hpath houter hskip =>
    rw [verdictAlong_closed hpath houter (isOpen_of_skip hskip), ending_of_skip hskip]
    exact below_of_withdrawal rfl _ _
  | underAborted hpath houter hskip hsetup habort hline =>
    rw [verdictAlong_closed hpath houter (isOpen_of_setup hsetup), ending_of_setup hskip hsetup,
      ExecutionResult.after_aborted habort, ← Cause.headedBy_iff.1 hline]
    exact below_of_withdrawal rfl _ _

theorem withdrawal_of_open {o : SuiteNode} (hopen : o.isOpen = true) (hbody : o.body? = none) :
    o.ending.withdrawal? = o.teardown?.bind fun f =>
      if f.isAbort then some f.cause.headline else none := by
  obtain ⟨hskip, hsetup⟩ := (Bool.and_eq_true _ _).mp hopen
  have hending : o.ending = .finished (.after o.teardown?) := by
    unfold ending fault?
    rw [Option.isNone_iff_eq_none.1 hskip, Option.isNone_iff_eq_none.1 hsetup, hbody]
    rfl
  rw [hending]
  cases o.teardown? with
  | none => rfl
  | some f =>
    rw [Option.bind_some]
    cases habort : f.isAbort with
    | true =>
      rw [ExecutionResult.after_aborted habort]
      rfl
    | false =>
      rw [ExecutionResult.after_failed habort]
      rfl

theorem findSome?_of_teardowns {os : List SuiteNode} (hopen : ∀ o ∈ os, o.isOpen = true)
    (hbody : ∀ o ∈ os, o.body? = none)
    (hquiet : ∀ o ∈ os, ∀ f, o.teardown? = some f → f.isAbort = false) :
    (os.map ending).reverse.findSome? Ending.withdrawal? = none := by
  rw [List.findSome?_eq_none_iff]
  intro ending hending
  obtain ⟨o, ho, rfl⟩ := List.mem_map.1 (List.mem_reverse.1 hending)
  rw [withdrawal_of_open (hopen o ho) (hbody o ho)]
  cases hteardown : o.teardown? with
  | none => rfl
  | some f =>
    rw [Option.bind_some, hquiet o ho f hteardown]
    rfl

theorem Masking.verdict_eq {f : Fault} {v : Verdict} (h : Masking outer f v)
    (hpath : path = outer ++ g :: inner) (houter : ∀ o ∈ outer, o.isOpen = true)
    (hbody : ∀ o ∈ outer, o.body? = none) (hskip : g.label.skip? = none)
    (hsetup : g.setup? = some f) (habort : f.isAbort = false) (hasStarted : Bool) :
    verdictAlong path t hasStarted = v := by
  rw [verdictAlong_closed hpath houter (isOpen_of_setup hsetup), ending_of_setup hskip hsetup,
    ExecutionResult.after_failed habort]
  cases h with
  | failure hquiet hassert =>
    rw [below_failed_of_no_withdrawal (findSome?_of_teardowns houter hbody hquiet)]
    exact if_pos hassert
  | error hquiet hassert =>
    rw [below_failed_of_no_withdrawal (findSome?_of_teardowns houter hbody hquiet)]
    unfold Verdict.ofCause
    rw [hassert]
    rfl
  | @masked far near o f' line hsplit hquiet hteardown hgave hline =>
    have hnear : ∀ n ∈ near, n ∈ outer := by
      intro n hn
      rw [hsplit]
      exact List.mem_append_right _ (List.mem_cons_of_mem _ hn)
    have ho : o ∈ outer := by
      rw [hsplit]
      exact List.mem_append_right _ List.mem_cons_self
    have hwithdraws : o.ending.withdrawal? = some line := by
      rw [withdrawal_of_open (houter o ho) (hbody o ho), hteardown, Option.bind_some,
        if_pos hgave, Cause.headedBy_iff.1 hline]
    have hnone := findSome?_of_teardowns (fun n hn => houter n (hnear n hn))
      (fun n hn => hbody n (hnear n hn)) hquiet
    have hfind : (outer.map ending).reverse.findSome? Ending.withdrawal? = some line := by
      calc (outer.map ending).reverse.findSome? Ending.withdrawal?
        _ = ((near.map ending).reverse.findSome? Ending.withdrawal?).or
              ((o.ending :: (far.map ending).reverse).findSome? Ending.withdrawal?) := by
            rw [hsplit, List.map_append, List.map_cons, List.reverse_append, List.reverse_cons,
              List.append_assoc, List.findSome?_append, List.singleton_append]
        _ = some line := by
            rw [hnone, List.findSome?_cons, hwithdraws]
            rfl
    exact below_failed_of_withdrawal hfind f.cause hasStarted

theorem open_or_split (path : List SuiteNode) :
    (∀ g ∈ path, g.isOpen = true) ∨ ∃ outer g inner, path = outer ++ g :: inner ∧
      (∀ o ∈ outer, o.isOpen = true) ∧ g.isOpen = false := by
  induction path with
  | nil => exact .inl nofun
  | cons n path ih =>
    cases hn : n.isOpen with
    | false => exact .inr ⟨[], n, path, rfl, nofun, hn⟩
    | true =>
      rcases ih with hopen | ⟨outer, g, inner, rfl, houter, hg⟩
      · refine .inl fun g hg => ?_
        rcases List.mem_cons.1 hg with rfl | hg
        · exact hn
        · exact hopen g hg
      · refine .inr ⟨n :: outer, g, inner, rfl, fun o ho => ?_, hg⟩
        rcases List.mem_cons.1 ho with rfl | ho
        · exact hn
        · exact houter o ho

theorem ruling_total (t : SuiteNode) (h : ¬ SetupFails path) : ∃ v, Ruling path t v := by
  rcases open_or_split path with hopen | ⟨outer, g, inner, hpath, houter, hg⟩
  · cases hskip : t.label.skip? with
    | some reason => exact ⟨_, .marked hopen hskip⟩
    | none =>
      cases hbody : t.body? with
      | none => exact ⟨_, .returned hopen hskip hbody⟩
      | some f =>
        cases habort : f.isAbort with
        | true => exact ⟨_, .gaveUp hopen hskip hbody habort (Cause.renderedAs_iff.2 rfl)⟩
        | false =>
          cases hassert : f.cause.assertion with
          | true => exact ⟨_, .failed hopen hskip hbody habort hassert⟩
          | false => exact ⟨_, .broke hopen hskip hbody habort hassert⟩
  · cases hskip : g.label.skip? with
    | some reason => exact ⟨_, .underMarked hpath houter hskip⟩
    | none =>
      cases hsetup : g.setup? with
      | none =>
        unfold isOpen at hg
        rw [hskip, hsetup] at hg
        cases hg
      | some f =>
        cases habort : f.isAbort with
        | true =>
          exact ⟨_, .underAborted hpath houter hskip hsetup habort (Cause.headedBy_iff.2 rfl)⟩
        | false => exact absurd ⟨outer, g, inner, f, hpath, houter, hskip, hsetup, habort⟩ h

theorem masking_total (outer : List SuiteNode) (f : Fault) : ∃ v, Masking outer f v := by
  have hsplit : (∀ o ∈ outer, ∀ f', o.teardown? = some f' → f'.isAbort = false) ∨
      ∃ far o near f', outer = far ++ o :: near ∧
        (∀ n ∈ near, ∀ f'', n.teardown? = some f'' → f''.isAbort = false) ∧
        o.teardown? = some f' ∧ f'.isAbort = true := by
    induction outer with
    | nil => exact .inl nofun
    | cons n outer ih =>
      rcases ih with hquiet | ⟨far, o, near, f', rfl, hrest⟩
      · cases hteardown : n.teardown? with
        | none =>
          refine .inl fun o ho f' hf' => ?_
          rcases List.mem_cons.1 ho with rfl | ho
          · rw [hteardown] at hf'
            cases hf'
          · exact hquiet o ho f' hf'
        | some f₁ =>
          cases habort : f₁.isAbort with
          | true => exact .inr ⟨[], n, outer, f₁, rfl, hquiet, hteardown, habort⟩
          | false =>
            refine .inl fun o ho f' hf' => ?_
            rcases List.mem_cons.1 ho with rfl | ho
            · rw [hteardown] at hf'
              cases hf'
              exact habort
            · exact hquiet o ho f' hf'
      · exact .inr ⟨n :: far, o, near, f', rfl, hrest⟩
  rcases hsplit with hquiet | ⟨far, o, near, f', hsplit, hquiet, hteardown, habort⟩
  · cases hassert : f.cause.assertion with
    | true => exact ⟨_, .failure hquiet hassert⟩
    | false => exact ⟨_, .error hquiet hassert⟩
  · exact ⟨_, .masked hsplit hquiet hteardown habort (Cause.headedBy_iff.2 rfl)⟩

theorem Leads.body?_eq (h : Leads e path t) : ∀ g ∈ path, g.body? = none := by
  induction h with
  | here => exact nofun
  | @down n m t path hm _ ih =>
    intro g hg
    rcases List.mem_cons.1 hg with rfl | hg
    · cases g with
      | test label body? => cases hm
      | group isEngine label hooks children => rfl
    · exact ih g hg

end SuiteNode

namespace Session

open SuiteNode

/-- Every run of a discovered forest, with any number of workers and in any order that they may
bring about, comes to its end and builds reports with a property. The files change by just these
reports, once the reports directory was opened. -/
structure EveryRun (s : Session) (forest : List SuiteNode) (d : Discovery)
    (P : List EngineReport → Prop) : Prop where
  scheduled : ∀ r : Runner, ∃ ms, RunsForest forest ms ∧
    (run r forest).perform s = (runAlong d ms).perform s
  reports : ∀ ms, RunsForest forest ms → ∃ s' directory?,
    (runAlong d ms).perform s = (.ok (), s') ∧ P (builtAlong d ms s) ∧
      s'.surroundings.disk = (builtAlong d ms s).foldl
        (Writer.store s.writer.settings.indent directory? s.surroundings.host.localOffset)
        ((openPlan d).perform s).2.surroundings.disk

variable {forest : List SuiteNode} {d : Discovery} {s : Session} {aware : Bool}

theorem everyRun (hd : Discovery.ofForest forest = .ok d) (hplain : PlainForest forest)
    (hs : s.Ready aware) {P : SuiteNode → EngineReport → Prop}
    (h : ∀ p e r, p.Lists forest → e ∈ forest → ReportedBy p e r → P e r) :
    s.EveryRun forest d (List.Forall₂ P forest) := by
  refine ⟨perform_run hd hs hplain, fun ms hms => ?_⟩
  obtain ⟨s', directory?, p, hact, hp, hreports, hdisk, -⟩ := perform_runAlong hd hs hms
  refine ⟨s', directory?, hact, ?_, hdisk⟩
  have hboth := (List.forall₂_and_left forest _).2 ⟨fun e he => he, hreports⟩
  exact hboth.imp fun e r hr => h p e r hp hr.1 hr.2

theorem shows_by_path {p : Plan} {e t : SuiteNode} {r : EngineReport} (hp : p.Lists forest)
    (he : e ∈ forest) (hr : ReportedBy p e r) {path : List SuiteNode} (hpath : Leads e path t)
    (hne : path ≠ []) (ht : t.kind = .test) {v : Verdict}
    (hv : ∀ hasStarted, verdictAlong path t hasStarted = v) :
    r.Shows (t.identifier (parentAlong none path)) v := by
  obtain ⟨hasStarted, hshows⟩ := hr.shows hp he hpath hne ht
  rw [← hv hasStarted]
  exact hshows

end Session

end TestRun
