import TestRun.Proofs.Tree.Nodes
set_option autoImplicit false

namespace TestRun

def Ending.withdrawal? : Ending → Option String
  | .skipped reason => some reason
  | .finished ⟨.aborted, cause?⟩ => some ((cause?.map Cause.headline).getD "")
  | _ => none

def Ending.failure? : Ending → Option Cause
  | .finished ⟨.failed, cause?⟩ => some (cause?.getD .unknownFailure)
  | _ => none

def Verdict.underFailed (cause? : Option Cause) (hasStarted : Bool) : Verdict :=
  match cause? with
  | some cause => .ofCause cause
  | none => if hasStarted then .error (some .incomplete) else .success

/-- The verdict below ancestors with the given ends, nearest first. -/
def Verdict.below (ends : List Ending) (hasStarted : Bool) : Verdict :=
  match ends.findSome? Ending.withdrawal? with
  | some reason => .underSkipped reason
  | none => .underFailed (ends.head?.bind Ending.failure?) hasStarted

theorem findSome?_filterMap {α β γ : Type} (f : α → Option β) (g : β → Option γ) (xs : List α) :
    (xs.filterMap f).findSome? g = xs.findSome? fun a => (f a).bind g := by
  induction xs with
  | nil => rfl
  | cons a xs ih =>
    rw [List.filterMap_cons, List.findSome?_cons, ← ih]
    cases f a <;> rfl

namespace Node

theorem skipSignal?_eq (n : Node) : n.skipSignal? = n.ending.bind Ending.withdrawal? := by
  unfold skipSignal? Ending.withdrawal?
  rcases n.ending with _ | _ | ⟨_ | _ | _, _⟩ <;> rfl

theorem failureSignal?_eq (n : Node) : n.failureSignal? = n.ending.bind Ending.failure? := by
  unfold failureSignal? Ending.failure?
  rcases n.ending with _ | _ | ⟨_ | _ | _, _⟩ <;> rfl

theorem skipSignals_eq (ns : List Node) :
    ns.findSome? skipSignal? = (ns.filterMap (·.ending)).findSome? Ending.withdrawal? := by
  rw [findSome?_filterMap]
  congr 1
  funext n
  exact n.skipSignal?_eq

theorem failureSignal_of_nearest {ns : List Node} (h : ns.findSome? skipSignal? = none) :
    (ns.find? fun n => n.result?.isSome).bind failureSignal? =
      (ns.filterMap (·.ending)).head?.bind Ending.failure? := by
  induction ns with
  | nil => rfl
  | cons n ns ih =>
    rw [List.findSome?_cons] at h
    cases hn : n.ending with
    | none =>
      have hskip : n.skipSignal? = none := by rw [skipSignal?_eq, hn]; rfl
      have hresult : n.result?.isSome = false := by rw [result?, hn]; rfl
      rw [hskip] at h
      rw [List.filterMap_cons_none hn, List.find?_cons, hresult]
      exact ih h
    | some e =>
      rw [List.filterMap_cons_some hn, List.head?_cons, List.find?_cons]
      cases e with
      | skipped reason =>
        have hskip : n.skipSignal? = some reason := by rw [skipSignal?_eq, hn]; rfl
        rw [hskip] at h
        cases h
      | finished result =>
        have hresult : n.result?.isSome = true := by rw [result?, hn]; rfl
        rw [hresult]
        change n.failureSignal? = _
        rw [failureSignal?_eq, hn]

end Node

namespace Tree

def endsAbove (t : Tree) (i : Identifier) : List Ending :=
  (t.plan.ancestors i).filterMap fun a => (t.node? a.id).bind (·.ending)

theorem inherited_eq (t : Tree) (i : Identifier) :
    t.inherited i = .below (t.endsAbove i) ((t.node? i.id).bind (·.start)).isSome := by
  have hends : (t.above i).filterMap (·.ending) = t.endsAbove i := by
    rw [above, List.filterMap_filterMap]
    rfl
  rw [← hends]
  unfold inherited Verdict.below
  rw [Node.skipSignals_eq]
  cases h : ((t.above i).filterMap (·.ending)).findSome? Ending.withdrawal? with
  | some reason => rfl
  | none =>
    rw [← Node.skipSignals_eq] at h
    exact congrArg (Verdict.underFailed · _) (Node.failureSignal_of_nearest h)

end Tree

end TestRun
