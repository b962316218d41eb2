import TestRun.Proofs.Cause
import TestRun.Proofs.Tree.Calls
import TestRun.Proofs.Tree.Inheritance
set_option autoImplicit false

namespace TestRun.Tree

/-- An id was skipped or aborted, for a reason that its descendants inherit. -/
inductive Withdraws (log : List Call) (id : String) : String → Prop
  | skip {reason} : endIn log id = some (.skipped reason) → Withdraws log id reason
  | abort {cause line} : endIn log id = some (.finished ⟨.aborted, some cause⟩) →
      cause.HeadedBy line → Withdraws log id line
  | abortUnexplained : endIn log id = some (.finished ⟨.aborted, none⟩) → Withdraws log id ""

def blamed : Option Cause → Verdict
  | none => .error (some .unknownFailure)
  | some cause => if cause.assertion then .failure (some cause) else .error (some cause)

def HasEnd (log : List Call) (i : Identifier) : Prop := endIn log i.id ≠ none

instance (log : List Call) (i : Identifier) : Decidable (HasEnd log i) :=
  inferInstanceAs (Decidable (_ ≠ _))

def Unhindered (log : List Call) (p : Plan) (i : Identifier) : Prop :=
  ∀ a, p.Above i a → ∀ reason, ¬ Withdraws log a.id reason

/-- The verdict on an identifier by a log and the parent links of a plan. -/
inductive Decides (log : List Call) (p : Plan) (i : Identifier) : Verdict → Prop
  | skip {reason} : endIn log i.id = some (.skipped reason) → Decides log p i (.skipped reason)
  | abort {cause text} : endIn log i.id = some (.finished ⟨.aborted, some cause⟩) →
      cause.RenderedAs text → Decides log p i (.skipped text)
  | abortUnexplained : endIn log i.id = some (.finished ⟨.aborted, none⟩) →
      Decides log p i (.skipped "")
  | failure {cause?} : endIn log i.id = some (.finished ⟨.failed, cause?⟩) →
      Decides log p i (blamed cause?)
  | success {cause?} : endIn log i.id = some (.finished ⟨.successful, cause?⟩) →
      Decides log p i .success
  | underWithdrawn {a reason} : ¬ HasEnd log i →
      p.Nearest (fun a => ∃ reason, Withdraws log a.id reason) i a →
      Withdraws log a.id reason → Decides log p i (.skipped ("parent was skipped: " ++ reason))
  | underFailed {a cause?} : ¬ HasEnd log i → Unhindered log p i → p.Nearest (HasEnd log) i a →
      endIn log a.id = some (.finished ⟨.failed, cause?⟩) → Decides log p i (blamed cause?)
  | incomplete : ¬ HasEnd log i → Unhindered log p i →
      (∀ a, p.Nearest (HasEnd log) i a →
        ∃ cause?, endIn log a.id = some (.finished ⟨.successful, cause?⟩)) →
      startsIn log i.id = true → Decides log p i (.error (some .incomplete))
  | untouched : ¬ HasEnd log i → Unhindered log p i →
      (∀ a, p.Nearest (HasEnd log) i a →
        ∃ cause?, endIn log a.id = some (.finished ⟨.successful, cause?⟩)) →
      startsIn log i.id = false → Decides log p i .success

theorem withdraws_iff {log : List Call} {id reason : String} :
    Withdraws log id reason ↔ (endIn log id).bind Ending.withdrawal? = some reason := by
  constructor
  · rintro (h | ⟨h, hline⟩ | h)
    · rw [h]
      rfl
    · rw [h, ← Cause.headedBy_iff.1 hline]
      rfl
    · rw [h]
      rfl
  · intro h
    obtain ⟨e, he, hreason⟩ := Option.bind_eq_some_iff.1 h
    match e, hreason with
    | .skipped _, rfl => exact .skip he
    | .finished ⟨.aborted, some _⟩, rfl => exact .abort he (Cause.headedBy_iff.2 rfl)
    | .finished ⟨.aborted, none⟩, rfl => exact .abortUnexplained he

theorem blamed_eq (cause? : Option Cause) :
    blamed cause? = .ofCause (cause?.getD .unknownFailure) := by
  cases cause? <;> rfl

theorem findSome?_eq_find?_bind {α β : Type} (f : α → Option β) (xs : List α) :
    xs.findSome? f = (xs.find? fun a => (f a).isSome).bind f := by
  induction xs with
  | nil => rfl
  | cons a xs ih =>
    rw [List.findSome?_cons, List.find?_cons]
    cases h : f a with
    | none => exact ih
    | some b => exact h.symm

section Line

variable {log : List Call} {p : Plan} {i : Identifier} {line : List Identifier}

def endsOf (log : List Call) (line : List Identifier) : List Ending :=
  line.filterMap fun a => endIn log a.id

/-- The reason passed down is that of the nearest ancestor that withdrew. -/
theorem withdrawal_eq_some_iff (h : p.Line i line) {reason : String} :
    (endsOf log line).findSome? Ending.withdrawal? = some reason ↔
      ∃ a, p.Nearest (fun a => ∃ reason, Withdraws log a.id reason) i a ∧
        Withdraws log a.id reason := by
  classical
  have hfind : (line.find? fun a => ((endIn log a.id).bind Ending.withdrawal?).isSome) =
      line.find? fun a => decide (∃ reason, Withdraws log a.id reason) := by
    congr 1
    funext a
    rw [Bool.eq_iff_iff, decide_eq_true_iff, Option.isSome_iff_exists]
    exact exists_congr fun _ => withdraws_iff.symm
  calc (endsOf log line).findSome? Ending.withdrawal? = some reason
    _ ↔ ((line.find? fun a => decide (∃ reason, Withdraws log a.id reason)).bind fun a =>
          (endIn log a.id).bind Ending.withdrawal?) = some reason := by
        rw [endsOf, findSome?_filterMap, findSome?_eq_find?_bind, hfind]
    _ ↔ ∃ a, (line.find? fun a => decide (∃ reason, Withdraws log a.id reason)) = some a ∧
          (endIn log a.id).bind Ending.withdrawal? = some reason := Option.bind_eq_some_iff
    _ ↔ ∃ a, p.Nearest (fun a => ∃ reason, Withdraws log a.id reason) i a ∧
          Withdraws log a.id reason :=
        exists_congr fun a => and_congr h.nearest_iff.symm withdraws_iff.symm

theorem withdrawal_eq_none_iff (h : p.Line i line) :
    (endsOf log line).findSome? Ending.withdrawal? = none ↔ Unhindered log p i := by
  rw [endsOf, findSome?_filterMap, List.findSome?_eq_none_iff]
  constructor
  · intro hnone a ha reason hw
    rw [withdraws_iff, hnone a (h.mem_iff.2 ha)] at hw
    cases hw
  · intro hfree a ha
    rw [Option.eq_none_iff_forall_ne_some]
    exact fun reason hw => hfree a (h.mem_iff.1 ha) reason (withdraws_iff.2 hw)

theorem head_endsOf_eq_some_iff (h : p.Line i line) {e : Ending} :
    (endsOf log line).head? = some e ↔
      ∃ a, p.Nearest (HasEnd log) i a ∧ endIn log a.id = some e := by
  classical
  have hfind : (line.find? fun a => (endIn log a.id).isSome) =
      line.find? fun a => decide (HasEnd log a) := by
    congr 1
    funext a
    rw [Bool.eq_iff_iff, decide_eq_true_iff, HasEnd, Option.isSome_iff_ne_none]
  calc (endsOf log line).head? = some e
    _ ↔ ((line.find? fun a => decide (HasEnd log a)).bind fun a => endIn log a.id) = some e := by
        rw [endsOf, List.head?_filterMap, findSome?_eq_find?_bind, hfind]
    _ ↔ ∃ a, (line.find? fun a => decide (HasEnd log a)) = some a ∧ endIn log a.id = some e :=
        Option.bind_eq_some_iff
    _ ↔ ∃ a, p.Nearest (HasEnd log) i a ∧ endIn log a.id = some e :=
        exists_congr fun a => and_congr_left fun _ => h.nearest_iff.symm

end Line

section Reflects

variable {p : Plan} {startedAt? : Option Time.Instant} {log : List Call} {t : Tree}
variable {i : Identifier}

theorem Reflects.endsAbove_eq (h : Reflects p startedAt? log t) (i : Identifier) :
    t.endsAbove i = endsOf log (t.plan.ancestors i) := by
  unfold endsAbove endsOf
  congr 1
  funext a
  exact h.ending_eq a.id

theorem Reflects.classify_of_end (h : Reflects p startedAt? log t) {e : Ending}
    (he : endIn log i.id = some e) : t.classify i = .ofEnding e := by
  rw [classify, h.ending_eq, he]

theorem Reflects.classify_of_no_end (h : Reflects p startedAt? log t)
    (hi : opensAt p startedAt? i.id = false) (he : endIn log i.id = none) :
    t.classify i = .below (endsOf log (t.plan.ancestors i)) (startsIn log i.id) := by
  rw [classify, h.ending_eq, he]
  change t.inherited i = _
  rw [inherited_eq, h.endsAbove_eq, h.start_eq, hi, Bool.false_or]

theorem Reflects.not_opensAt (h : Reflects p startedAt? log t) (hi : i ∈ t.plan.identifiers)
    (hroot : i.isRoot = false) : opensAt p startedAt? i.id = false := by
  have hkept : ∀ (log : List Call) (p : Plan) (r : Identifier), r ∈ p.identifiers →
      r ∈ (planAfter p log).identifiers := by
    intro log
    induction log with
    | nil => exact fun _ _ hr => hr
    | cons c log ih =>
      intro p r hr
      refine ih (p.add c.identifier) r ?_
      by_cases hc : c.identifier.id ∈ p.ids
      · rwa [Plan.add_of_mem hc]
      · rw [Plan.identifiers_add hc]
        exact List.mem_append_left _ hr
  rw [opensAt, Bool.and_eq_false_iff, List.any_eq_false]
  right
  intro r hr hid
  obtain ⟨hmem, hrr⟩ := List.mem_filter.1 hr
  have hr' : r ∈ t.plan.identifiers := h.plan_eq ▸ hkept log p r hmem
  have heq : some i = some r := by
    rw [← Plan.get?_of_mem hi, ← Plan.get?_of_mem hr', beq_iff_eq.1 hid]
  cases heq
  rw [hroot] at hrr
  cases hrr

theorem Reflects.classify_of_decides (h : Reflects p startedAt? log t) (hp : t.plan.Acyclic)
    (hi : i ∈ t.plan.identifiers) (hroot : i.isRoot = false) {v : Verdict}
    (hv : Decides log t.plan i v) : t.classify i = v := by
  have hline := Plan.line_ancestors hp hi
  have hopen := h.not_opensAt hi hroot
  have hbelow : ¬ HasEnd log i →
      t.classify i = .below (endsOf log (t.plan.ancestors i)) (startsIn log i.id) :=
    fun hn => h.classify_of_no_end hopen (not_not.1 hn)
  have hquiet : (∀ a, t.plan.Nearest (HasEnd log) i a →
      ∃ cause?, endIn log a.id = some (.finished ⟨.successful, cause?⟩)) →
      (endsOf log (t.plan.ancestors i)).head?.bind Ending.failure? = none := by
    intro hsuccess
    cases he : (endsOf log (t.plan.ancestors i)).head? with
    | none => rfl
    | some e =>
      obtain ⟨a, ha, hae⟩ := (head_endsOf_eq_some_iff hline).1 he
      obtain ⟨cause?, hcause⟩ := hsuccess a ha
      rw [hae] at hcause
      cases hcause
      rfl
  cases hv with
  | skip he => exact h.classify_of_end he
  | abort he htext =>
    rw [h.classify_of_end he, ← Cause.renderedAs_iff.1 htext]
    rfl
  | abortUnexplained he => exact h.classify_of_end he
  | failure he => rw [h.classify_of_end he, blamed_eq]; rfl
  | success he => exact h.classify_of_end he
  | underWithdrawn hn ha hw =>
    rw [hbelow hn, Verdict.below, (withdrawal_eq_some_iff hline).2 ⟨_, ha, hw⟩]
    rfl
  | underFailed hn hfree ha he =>
    rw [hbelow hn, Verdict.below, (withdrawal_eq_none_iff hline).2 hfree,
      (head_endsOf_eq_some_iff hline).2 ⟨_, ha, he⟩, blamed_eq]
    rfl
  | incomplete hn hfree hsuccess hstart =>
    rw [hbelow hn, Verdict.below, (withdrawal_eq_none_iff hline).2 hfree]
    simp only [hquiet hsuccess, hstart, Verdict.underFailed, if_true]
  | untouched hn hfree hsuccess hstart =>
    rw [hbelow hn, Verdict.below, (withdrawal_eq_none_iff hline).2 hfree]
    simp only [hquiet hsuccess, hstart, Verdict.underFailed, Bool.false_eq_true, if_false]

theorem decides_total (log : List Call) {p : Plan} {i : Identifier} {line : List Identifier}
    (hline : p.Line i line) : ∃ v, Decides log p i v := by
  by_cases hend : HasEnd log i
  · obtain ⟨e, he⟩ := Option.ne_none_iff_exists'.1 hend
    match e with
    | .skipped _ => exact ⟨_, .skip he⟩
    | .finished ⟨.aborted, some _⟩ => exact ⟨_, .abort he (Cause.renderedAs_iff.2 rfl)⟩
    | .finished ⟨.aborted, none⟩ => exact ⟨_, .abortUnexplained he⟩
    | .finished ⟨.failed, _⟩ => exact ⟨_, .failure he⟩
    | .finished ⟨.successful, _⟩ => exact ⟨_, .success he⟩
  cases hw : (endsOf log line).findSome? Ending.withdrawal? with
  | some reason =>
    obtain ⟨a, ha, hwa⟩ := (withdrawal_eq_some_iff hline).1 hw
    exact ⟨_, .underWithdrawn hend ha hwa⟩
  | none =>
    have hfree := (withdrawal_eq_none_iff hline).1 hw
    by_cases hfail : ∃ a cause?, p.Nearest (HasEnd log) i a ∧
        endIn log a.id = some (.finished ⟨.failed, cause?⟩)
    · obtain ⟨a, cause?, ha, he⟩ := hfail
      exact ⟨_, .underFailed hend hfree ha he⟩
    have hsuccess : ∀ a, p.Nearest (HasEnd log) i a →
        ∃ cause?, endIn log a.id = some (.finished ⟨.successful, cause?⟩) := by
      intro a ha
      obtain ⟨e, he⟩ := Option.ne_none_iff_exists'.1 ha.holds
      have habove := hfree a ha.above
      match e with
      | .skipped _ => exact absurd (.skip he) (habove _)
      | .finished ⟨.aborted, some _⟩ =>
        exact absurd (.abort he (Cause.headedBy_iff.2 rfl)) (habove _)
      | .finished ⟨.aborted, none⟩ => exact absurd (.abortUnexplained he) (habove _)
      | .finished ⟨.failed, cause?⟩ => exact absurd ⟨a, cause?, ha, he⟩ hfail
      | .finished ⟨.successful, cause?⟩ => exact ⟨cause?, he⟩
    cases hstart : startsIn log i.id with
    | true => exact ⟨_, .incomplete hend hfree hsuccess hstart⟩
    | false => exact ⟨_, .untouched hend hfree hsuccess hstart⟩

end Reflects

/-- After any log of calls on a fresh tree, the verdict on a held identifier with a parent is the
one that the rules give from the log and the parent links. -/
theorem classify_iff_decides (p : Plan) (startedAt? : Option Time.Instant) (s : Surroundings)
    (log : List Call) (hs : s.clock.CanRead log.length) :
    ∃ t s', (callAll log).perform (begin p startedAt?, s) = (.ok (), (t, s')) ∧
      t.plan = planAfter p log ∧
      (t.plan.Acyclic → ∀ i ∈ t.plan.identifiers, i.isRoot = false →
        ∀ v, t.classify i = v ↔ Decides log t.plan i v) := by
  obtain ⟨t, s', hcalls, ht⟩ := perform_callAll (begin_reflects p startedAt?) hs
  rw [List.nil_append] at ht
  refine ⟨t, s', hcalls, ht.plan_eq, fun hp i hi hroot v => ⟨?_, ht.classify_of_decides hp hi hroot⟩⟩
  rintro rfl
  obtain ⟨v, hv⟩ := decides_total log (Plan.line_ancestors hp hi)
  rwa [ht.classify_of_decides hp hi hroot hv]

/-- A test that came to be known during the run, below a container whose failure was repeated as
a success, and beside it a test that gave up. -/
theorem classify_iff_decides_late :
    let engine : Identifier := ⟨"e", "e", none, .engine⟩
    let inner : Identifier := ⟨"e:c", "c", some "e", .container⟩
    let late : Identifier := ⟨"e:c:t", "t", some "e:c", .test⟩
    let given : Identifier := ⟨"e:c:u", "u", some "e:c", .test⟩
    let boom : Cause := ⟨"AssertionError", "boom", "", true⟩
    let unmet : Cause := ⟨"unittest.SkipTest", "no network", "at line 3", false⟩
    let log : List Call := [.started late, .finished given (.aborted unmet),
      .finished inner (.failed boom), .finished inner .successful]
    (Time.Clock.fixed .epoch).CanRead log.length ∧
    ∃ t s', (callAll log).perform
        (begin (.ofList 0 [engine, inner]) none, .bare (.fixed .epoch)) = (.ok (), (t, s')) ∧
      t.plan.Acyclic ∧ late ∈ t.plan.identifiers ∧ late.isRoot = false ∧
      given ∈ t.plan.identifiers ∧ given.isRoot = false ∧
      t.classify late = .failure (some boom) ∧
      t.classify given = .skipped "unittest.SkipTest: no network\nat line 3" := by
  intro engine inner late given boom unmet log
  have hclock := (Time.Clock.fixed_reliable .epoch).neverFails.canRead log.length
  obtain ⟨t, s', hrun, hplan, hverdict⟩ := classify_iff_decides (.ofList 0 [engine, inner]) none
    (.bare (.fixed .epoch)) log hclock
  have hacyclic : t.plan.Acyclic := by
    rw [hplan]
    exact Plan.acyclic_of_rank (fun i => i.id.length) (by decide)
  have hmem : late ∈ t.plan.identifiers := by
    rw [hplan]
    decide
  have hgiven : given ∈ t.plan.identifiers := by
    rw [hplan]
    decide
  have hinner : t.plan.IsParent late inner := by
    rw [hplan]
    decide
  have hline : t.plan.Line late [inner, engine] := by
    refine .step hinner (.step ?_ (.top ?_)) <;> rw [hplan] <;> decide
  have hfree : Unhindered log t.plan late := by
    have hstays : ∀ a ∈ [inner, engine], (endIn log a.id).bind Ending.withdrawal? = none := by
      decide
    intro a ha reason hw
    rw [withdraws_iff, hstays a (hline.mem_iff.2 ha)] at hw
    cases hw
  have hboom : endIn log inner.id = some (.finished ⟨.failed, some boom⟩) := by decide
  have hfailed : Decides log t.plan late (blamed (some boom)) :=
    .underFailed (by decide) hfree (.here hinner (by decide)) hboom
  have hunmet : endIn log given.id = some (.finished ⟨.aborted, some unmet⟩) := by decide
  have hskipped : Decides log t.plan given
      (.skipped "unittest.SkipTest: no network\nat line 3") :=
    .abort hunmet (.traced (by decide) (.message (by decide)))
  exact ⟨hclock, t, s', hrun, hacyclic, hmem, rfl, hgiven, rfl,
    (hverdict hacyclic late hmem rfl _).2 hfailed, (hverdict hacyclic given hgiven rfl _).2 hskipped⟩

end TestRun.Tree
