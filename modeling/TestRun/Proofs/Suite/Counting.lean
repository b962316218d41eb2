import TestRun.Proofs.Suite.Steps
import TestRun.Proofs.Tree.Stamps
set_option autoImplicit false

namespace TestRun

open TestRun.Tree (Call endIn startsIn isIdle ticks)

def Step.call? : Step → Option Call
  | tell c => some c
  | run _ _ => none

namespace Tree.Call

def isSkip : Call → Bool
  | skipped _ _ => true
  | _ => false

def skips (id : String) (c : Call) : Bool := c.identifier.id == id && c.isSkip

theorem id_of_skips {id : String} {c : Call} (h : c.skips id = true) : c.identifier.id = id :=
  beq_iff_eq.1 (Bool.and_eq_true_iff.1 h).1

end Tree.Call

namespace SuiteNode

/-- What the listeners are told of a node and of all below it. -/
def told (parent? : Option String) (n : SuiteNode) : List Call :=
  (n.block parent?).filterMap Step.call?

def toldAll (parent? : Option String) (ns : List SuiteNode) : List Call :=
  (blockAll parent? ns).filterMap Step.call?

def toldInside (parent? : Option String) (n : SuiteNode) : List Call :=
  if n.isOpen then toldAll (some (n.uniqueId parent?)) n.children else []

def nodesBelow (e : SuiteNode) : List Identifier :=
  identifiersInAll (some (e.uniqueId none)) e.children

def startedBelow (calls : List Call) (e : SuiteNode) : Nat :=
  e.nodesBelow.countP fun i => startsIn calls i.id

def skippedBelow (calls : List Call) (e : SuiteNode) : Nat :=
  e.nodesBelow.countP fun i => calls.any (Call.skips i.id)

/-- How often the clock is read for an engine: twice for each node that is started, once for each
that is skipped, and once for the engine itself. -/
def readings (calls : List Call) (e : SuiteNode) : Nat :=
  2 * startedBelow calls e + skippedBelow calls e + 1

variable {parent? : Option String} {n e g : SuiteNode} {ns forest : List SuiteNode} {p : Plan}
  {log : List Call} {c : Call} {i : Identifier} {q : Call → Bool}

theorem mem_identifiersIn_of_below (h : i ∈ e.nodesBelow) : i ∈ e.identifiersIn none := by
  rw [identifiersIn_eq]
  exact List.mem_cons_of_mem _ h

theorem toldAll_nil (parent? : Option String) : toldAll parent? [] = [] := by
  rw [toldAll, blockAll]
  rfl

theorem toldAll_cons (parent? : Option String) (n : SuiteNode) (rest : List SuiteNode) :
    toldAll parent? (n :: rest) = n.told parent? ++ toldAll parent? rest := by
  rw [toldAll, blockAll, List.filterMap_append]
  rfl

theorem toldAll_append (parent? : Option String) (ns ms : List SuiteNode) :
    toldAll parent? (ns ++ ms) = toldAll parent? ns ++ toldAll parent? ms := by
  unfold toldAll
  rw [blockAll_append, List.filterMap_append]

theorem identifier_mem_of_told (h : c ∈ n.told parent?) :
    c.identifier ∈ n.identifiersIn parent? := by
  obtain ⟨step, hstep, hc⟩ := List.mem_filterMap.1 h
  cases step with
  | run i body? => cases hc
  | tell d =>
    cases hc
    exact identifier_mem_of_block hstep

theorem identifier_mem_of_toldAll (h : c ∈ toldAll parent? ns) :
    c.identifier ∈ identifiersInAll parent? ns := by
  induction ns with
  | nil =>
    rw [toldAll_nil] at h
    cases h
  | cons n rest ih =>
    rw [toldAll_cons, List.mem_append] at h
    rw [identifiersInAll_cons, List.mem_append]
    exact h.imp identifier_mem_of_told ih

/-- A skipped node is told of once. Any other is told of when it starts and when it ends, with what
is told of its children in between if it is open. -/
theorem told_eq (parent? : Option String) (n : SuiteNode) :
    (∃ reason, n.told parent? = [.skipped (n.identifier parent?) (some reason)]) ∨
    ∃ result, n.told parent? = .started (n.identifier parent?) ::
      (n.toldInside parent? ++ [.finished (n.identifier parent?) result]) := by
  unfold toldInside
  cases hskip : n.label.skip? with
  | some reason =>
    left
    rw [told, block_skipped hskip]
    exact ⟨reason, rfl⟩
  | none =>
    right
    cases n with
    | test label body? =>
      rw [told, block_test (show label.skip? = none from hskip)]
      refine ⟨.after (Body.raised? body?), ?_⟩
      rw [show (test label body?).children = [] from rfl, toldAll_nil, ite_self]
      rfl
    | group isEngine label hooks children =>
      have hskip : label.skip? = none := hskip
      cases hraised : Body.raised? hooks.before? with
      | some f =>
        have hclosed : (group isEngine label hooks children).isOpen = false :=
          show (label.skip?.isNone && (Body.raised? hooks.before?).isNone) = false by
            rw [hraised]
            exact Bool.and_false _
        rw [told, block_blocked hskip hraised, hclosed, if_neg Bool.false_ne_true]
        exact ⟨_, rfl⟩
      | none =>
        have hopen : (group isEngine label hooks children).isOpen = true :=
          show (label.skip?.isNone && (Body.raised? hooks.before?).isNone) = true by
            rw [hraised, hskip]
            rfl
        rw [told, block_open hskip hraised, hopen, if_pos rfl]
        refine ⟨.after (Body.raised? hooks.after?), ?_⟩
        change Call.started _ :: (blockAll _ _ ++ _).filterMap Step.call? = _
        rw [List.filterMap_append]
        rfl

theorem identifier_mem_of_inside (h : c ∈ n.toldInside parent?) :
    c.identifier ∈ identifiersInAll (some (n.uniqueId parent?)) n.children := by
  unfold toldInside at h
  split at h
  · exact identifier_mem_of_toldAll h
  · cases h

theorem length_toldAll (h : ∀ m ∈ ns, (m.told parent?).length =
      2 * (m.told parent?).countP Call.isStart + (m.told parent?).countP Call.isSkip) :
    (toldAll parent? ns).length =
      2 * (toldAll parent? ns).countP Call.isStart + (toldAll parent? ns).countP Call.isSkip := by
  induction ns with
  | nil => rw [toldAll_nil]; rfl
  | cons n rest ih =>
    have hfirst := h n List.mem_cons_self
    have hrest := ih fun m hm => h m (List.mem_cons_of_mem n hm)
    rw [toldAll_cons, List.length_append, List.countP_append, List.countP_append]
    omega

theorem length_told (parent? : Option String) (n : SuiteNode) :
    (n.told parent?).length =
      2 * (n.told parent?).countP Call.isStart + (n.told parent?).countP Call.isSkip := by
  induction n using induct generalizing parent? with
  | step n ih =>
    have hbelow := length_toldAll fun m hm => ih m hm (some (n.uniqueId parent?))
    rcases told_eq parent? n with ⟨reason, htold⟩ | ⟨result, htold⟩
    · rw [htold]
      rfl
    · rw [htold, List.length_cons, List.length_append, List.countP_cons, List.countP_cons,
        List.countP_append, List.countP_append]
      simp only [List.length_singleton, List.countP_singleton, Call.isStart, Call.isSkip,
        Bool.false_eq_true, reduceIte]
      unfold toldInside
      split
      · omega
      · rfl

theorem toldAll_sublist (h : ∀ m ∈ ns,
      (((m.told parent?).filter q).map Call.identifier).Sublist (m.identifiersIn parent?)) :
    (((toldAll parent? ns).filter q).map Call.identifier).Sublist
      (identifiersInAll parent? ns) := by
  induction ns with
  | nil =>
    rw [toldAll_nil]
    exact List.nil_sublist _
  | cons n rest ih =>
    rw [toldAll_cons, identifiersInAll_cons, List.filter_append, List.map_append]
    exact (h n List.mem_cons_self).append (ih fun m hm => h m (List.mem_cons_of_mem n hm))

theorem told_sublist (hq : ∀ i result, q (.finished i result) = false) (n : SuiteNode)
    (parent? : Option String) :
    (((n.told parent?).filter q).map Call.identifier).Sublist (n.identifiersIn parent?) := by
  induction n using induct generalizing parent? with
  | step n ih =>
    have hself (c : Call) (hc : c.identifier = n.identifier parent?) :
        (([c].filter q).map Call.identifier).Sublist [n.identifier parent?] := by
      rw [← hc]
      exact List.filter_sublist.map Call.identifier
    rw [identifiersIn_eq, ← List.singleton_append]
    rcases told_eq parent? n with ⟨reason, htold⟩ | ⟨result, htold⟩
    · rw [htold]
      exact (hself (.skipped _ _) rfl).trans (List.sublist_append_left _ _)
    · have hlast : [Call.finished (n.identifier parent?) result].filter q = [] := by
        rw [List.filter_singleton, hq]
        rfl
      rw [htold, ← List.singleton_append, List.filter_append, List.filter_append, hlast,
        List.append_nil, List.map_append]
      refine (hself (.started _) rfl).append ?_
      unfold toldInside
      split
      · exact toldAll_sublist fun m hm => ih m hm _
      · exact List.nil_sublist _

theorem countP_told (hq : ∀ i result, q (.finished i result) = false)
    (hnodup : ((n.identifiersIn parent?).map (·.id)).Nodup) :
    (n.identifiersIn parent?).countP
        (fun i => (n.told parent?).any fun c => c.identifier.id == i.id && q c) =
      (n.told parent?).countP q := by
  have hsub := told_sublist hq n parent?
  have hids : (n.identifiersIn parent?).Nodup := .of_map (·.id) hnodup
  have hmem (i : Identifier) : i ∈ (n.identifiersIn parent?).filter
        (fun i => (n.told parent?).any fun c => c.identifier.id == i.id && q c) ↔
      i ∈ ((n.told parent?).filter q).map Call.identifier := by
    rw [List.mem_filter, List.any_eq_true]
    constructor
    · rintro ⟨hi, c, hc, hboth⟩
      obtain ⟨hid, hqc⟩ := Bool.and_eq_true_iff.1 hboth
      have hsame : c.identifier = i :=
        List.inj_on_of_nodup_map hnodup (identifier_mem_of_told hc) hi (beq_iff_eq.1 hid)
      exact List.mem_map.2 ⟨c, List.mem_filter.2 ⟨hc, hqc⟩, hsame⟩
    · intro hi
      obtain ⟨c, hc, rfl⟩ := List.mem_map.1 hi
      obtain ⟨hc, hqc⟩ := List.mem_filter.1 hc
      exact ⟨identifier_mem_of_told hc, c, hc, Bool.and_eq_true_iff.2 ⟨beq_self_eq_true _, hqc⟩⟩
  have hperm := (List.perm_ext_iff_of_nodup (hids.filter _) (hsub.nodup hids)).2 hmem
  rw [List.countP_eq_length_filter, hperm.length_eq, List.length_map, List.countP_eq_length_filter]

theorem told_engine (hnodup : ((e.identifiersIn none).map (·.id)).Nodup) :
    (∃ reason, e.told none = [.skipped (e.identifier none) (some reason)] ∧
      readings (e.told none) e = 1) ∨
    ∃ result, e.told none = .started (e.identifier none) ::
        (e.toldInside none ++ [.finished (e.identifier none) result]) ∧
      readings (e.told none) e = (e.toldInside none).length + 1 := by
  -- the engine itself is among the nodes that `countP_told` counts
  have hlength := length_told none e
  have hstarts : startedBelow (e.told none) e +
      (if startsIn (e.told none) (e.uniqueId none) then 1 else 0) =
        (e.told none).countP Call.isStart := by
    rw [← countP_told (fun _ _ => rfl) hnodup, identifiersIn_eq, List.countP_cons]
    rfl
  have hskips : skippedBelow (e.told none) e +
      (if (e.told none).any (Call.skips (e.uniqueId none)) then 1 else 0) =
        (e.told none).countP Call.isSkip := by
    rw [← countP_told (fun _ _ => rfl) hnodup, identifiersIn_eq, List.countP_cons]
    rfl
  unfold readings
  rcases told_eq none e with ⟨reason, htold⟩ | ⟨result, htold⟩
  · have hskipped : (e.told none).any (Call.skips (e.uniqueId none)) = true := by
      rw [htold]
      exact List.any_eq_true.2 ⟨_, List.mem_singleton_self _,
        Bool.and_eq_true_iff.2 ⟨beq_self_eq_true _, rfl⟩⟩
    have hone : (e.told none).length = 1 := by
      rw [htold]
      rfl
    rw [hskipped, if_pos rfl] at hskips
    refine .inl ⟨reason, htold, ?_⟩
    omega
  · have hstarted : startsIn (e.told none) (e.uniqueId none) = true := by
      rw [htold]
      exact List.any_eq_true.2 ⟨_, List.mem_cons_self, Call.starts_self (e.identifier none)⟩
    have hunskipped : (e.told none).any (Call.skips (e.uniqueId none)) = false := by
      rw [htold]
      refine List.any_eq_false.2 fun c hc hskip => ?_
      rw [List.mem_cons, List.mem_append, List.mem_singleton] at hc
      rcases hc with rfl | hc | rfl
      · exact nomatch (Bool.and_eq_true_iff.1 hskip).2
      · exact id_ne_of_below (identifier_mem_of_inside hc) (Call.id_of_skips hskip)
      · exact nomatch (Bool.and_eq_true_iff.1 hskip).2
    have htwo : (e.told none).length = (e.toldInside none).length + 2 := by
      rw [htold, List.length_cons, List.length_append]
      rfl
    rw [hunskipped, if_neg Bool.false_ne_true] at hskips
    rw [hstarted, if_pos rfl] at hstarts
    refine .inr ⟨result, htold, ?_⟩
    omega

def Unheard (log : List Call) (is : List Identifier) : Prop :=
  ∀ c ∈ log, ∀ i ∈ is, c.identifier.id ≠ i.id

theorem Unheard.startsIn_eq {is : List Identifier} (h : Unheard log is) (hi : i ∈ is) :
    startsIn log i.id = false :=
  List.any_eq_false.2 fun c hc hstarts => h c hc i hi (Call.id_of_starts hstarts)

theorem Unheard.endIn_eq {is : List Identifier} (h : Unheard log is) (hi : i ∈ is) :
    endIn log i.id = none := Tree.endIn_eq_none fun c hc => h c hc i hi

theorem Unheard.append {is : List Identifier} (h : Unheard log is) {more : List Call}
    (hmore : Unheard more is) : Unheard (log ++ more) is := fun c hc =>
  (List.mem_append.1 hc).elim (h c) (hmore c)

theorem ticks_between (hi : Unheard log [i]) {below : List Call} (hbelow : Unheard below [i])
    (result : ExecutionResult) :
    ticks p log (.started i :: (below ++ [.finished i result])) =
      (if p.roots.any (·.id == i.id) then 0 else 1) + ticks p (log ++ [.started i]) below + 1 := by
  have hstart : isIdle p log (.started i) = p.roots.any (·.id == i.id) := by
    rw [isIdle, hi.startsIn_eq (List.mem_singleton_self i), Bool.or_false]
  have hend : isIdle p (log ++ [.started i] ++ below) (.finished i result) = false := by
    change (endIn _ i.id).isSome = false
    rw [Tree.endIn_append, Tree.endIn_append, hi.endIn_eq (List.mem_singleton_self i),
      hbelow.endIn_eq (List.mem_singleton_self i), Tree.endIn_cons_started]
    rfl
  rw [ticks, hstart, Tree.ticks_concat_of_busy hend, Nat.add_assoc]

theorem unheard_self (parent? : Option String) (n : SuiteNode) :
    Unheard (n.toldInside parent?) [n.identifier parent?] := by
  intro c hc i hi
  obtain rfl := List.mem_singleton.1 hi
  exact id_ne_of_below (identifier_mem_of_inside hc)

theorem ticks_toldAll (hnodup : ((identifiersInAll parent? ns).map (·.id)).Nodup)
    (hlog : Unheard log (identifiersInAll parent? ns))
    (h : ∀ m ∈ ns, ∀ log, Unheard log (m.identifiersIn parent?) →
      ticks p log (m.told parent?) = (m.told parent?).length) :
    ticks p log (toldAll parent? ns) = (toldAll parent? ns).length := by
  induction ns generalizing log with
  | nil => rw [toldAll_nil]; rfl
  | cons n rest ih =>
    rw [identifiersInAll_cons, List.map_append, List.nodup_append] at hnodup
    rw [identifiersInAll_cons] at hlog
    have hfirst := h n List.mem_cons_self log fun c hc i hi =>
      hlog c hc i (List.mem_append_left _ hi)
    have hmore : Unheard (log ++ n.told parent?) (identifiersInAll parent? rest) :=
      Unheard.append (fun c hc i hi => hlog c hc i (List.mem_append_right _ hi)) fun c hc i hi =>
        hnodup.2.2 _ (List.mem_map_of_mem (identifier_mem_of_told hc)) _ (List.mem_map_of_mem hi)
    have hrest := ih hnodup.2.1 hmore fun m hm => h m (List.mem_cons_of_mem n hm)
    calc ticks p log (toldAll parent? (n :: rest))
      _ = ticks p log (n.told parent?) + ticks p (log ++ n.told parent?) (toldAll parent? rest) := by
          rw [toldAll_cons, Tree.ticks_append]
      _ = (n.told parent?).length + (toldAll parent? rest).length := by rw [hfirst, hrest]
      _ = (toldAll parent? (n :: rest)).length := by rw [toldAll_cons, List.length_append]

theorem ticks_inside
    (hnodup : ((identifiersInAll (some (n.uniqueId parent?)) n.children).map (·.id)).Nodup)
    (hlog : Unheard log (n.identifiersIn parent?))
    (h : ∀ m ∈ n.children, ∀ log, Unheard log (m.identifiersIn (some (n.uniqueId parent?))) →
      ticks p log (m.told (some (n.uniqueId parent?))) =
        (m.told (some (n.uniqueId parent?))).length) :
    ticks p (log ++ [.started (n.identifier parent?)]) (n.toldInside parent?) =
      (n.toldInside parent?).length := by
  rw [identifiersIn_eq] at hlog
  have hbelow : Unheard (log ++ [.started (n.identifier parent?)])
      (identifiersInAll (some (n.uniqueId parent?)) n.children) := by
    refine Unheard.append (fun c hc i hi => hlog c hc i (List.mem_cons_of_mem _ hi)) ?_
    intro c hc i hi
    obtain rfl := List.mem_singleton.1 hc
    exact (id_ne_of_below hi).symm
  unfold toldInside
  split
  · exact ticks_toldAll hnodup hbelow h
  · rfl

theorem Unheard.self (h : Unheard log (n.identifiersIn parent?)) :
    Unheard log [n.identifier parent?] := by
  intro c hc i hi
  obtain rfl := List.mem_singleton.1 hi
  rw [identifiersIn_eq] at h
  exact h c hc _ List.mem_cons_self

theorem ticks_told (n : SuiteNode) (parent? : Option String)
    (hnodup : ((n.identifiersIn parent?).map (·.id)).Nodup)
    (hroots : ∀ i ∈ n.identifiersIn parent?, p.roots.any (·.id == i.id) = false) (log : List Call)
    (hlog : Unheard log (n.identifiersIn parent?)) :
    ticks p log (n.told parent?) = (n.told parent?).length := by
  induction n using induct generalizing parent? log with
  | step n ih =>
    have hbelow := nodup_children hnodup
    rw [identifiersIn_eq] at hroots
    have hroot := hroots _ List.mem_cons_self
    have hinside := ticks_inside hbelow hlog fun m hm => ih m hm _
      (((sublist_of_mem hm).map _).nodup hbelow) fun i hi =>
        hroots i (List.mem_cons_of_mem _ (mem_identifiersInAll.2 ⟨m, hm, hi⟩))
    rcases told_eq parent? n with ⟨reason, htold⟩ | ⟨result, htold⟩
    · rw [htold, ticks, ticks, isIdle, hlog.self.endIn_eq (List.mem_singleton_self _)]
      rfl
    · calc ticks p log (n.told parent?)
        _ = 1 + ticks p (log ++ [.started (n.identifier parent?)]) (n.toldInside parent?) + 1 := by
            rw [htold, ticks_between hlog.self (unheard_self parent? n), hroot,
              if_neg Bool.false_ne_true]
        _ = 1 + (n.toldInside parent?).length + 1 := by rw [hinside]
        _ = (n.told parent?).length := by
            rw [htold, List.length_cons, List.length_append, List.length_singleton]
            omega

theorem not_root_below (hp : p.Lists forest) (he : e ∈ forest) (hi : i ∈ e.nodesBelow) :
    p.roots.any (·.id == i.id) = false := by
  refine List.any_eq_false.2 fun root hroot hid => ?_
  obtain ⟨hmem, hisRoot⟩ := List.mem_filter.1 hroot
  have hlisted : i ∈ p.identifiers := by
    rw [show p.identifiers = _ from hp]
    exact mem_identifiersInAll.2 ⟨e, he, mem_identifiersIn_of_below hi⟩
  have hsame : some root = some i := by
    rw [← Plan.get?_of_mem hmem, ← Plan.get?_of_mem hlisted, beq_iff_eq.1 hid]
  cases hsame
  rw [isRoot_below hi] at hisRoot
  cases hisRoot

theorem ticks_engine (hp : p.Lists forest) (he : e ∈ forest)
    (hlog : Unheard log (e.identifiersIn none)) :
    ticks p log (e.told none) = readings (e.told none) e := by
  have hnodup := ((sublist_of_mem he).map _).nodup hp.nodup
  -- the start of a root is idle, so of two calls for the engine itself only its end counts
  rcases told_engine hnodup with ⟨reason, htold, hreadings⟩ | ⟨result, htold, hreadings⟩
  · rw [hreadings, htold, ticks, ticks, isIdle, hlog.self.endIn_eq (List.mem_singleton_self _)]
    rfl
  · have hbelow := nodup_children hnodup
    have hinside := ticks_inside hbelow hlog fun m hm => ticks_told m _
      (((sublist_of_mem hm).map _).nodup hbelow) fun i hi =>
        not_root_below hp he (mem_identifiersInAll.2 ⟨m, hm, hi⟩)
    have hroot : p.roots.any (·.id == (e.identifier none).id) = true :=
      List.any_eq_true.2 ⟨_, mem_roots hp he, beq_self_eq_true _⟩
    calc ticks p log (e.told none)
      _ = 0 + ticks p (log ++ [.started (e.identifier none)]) (e.toldInside none) + 1 := by
          rw [htold, ticks_between hlog.self (unheard_self none e), hroot, if_pos rfl]
      _ = (e.toldInside none).length + 1 := by rw [hinside, Nat.zero_add]
      _ = readings (e.told none) e := hreadings.symm

section Place

variable {before after : List SuiteNode}

theorem unheard_elsewhere
    (hnodup : ((identifiersInAll none (before ++ e :: after)).map (·.id)).Nodup) :
    Unheard (toldAll none before) (e.identifiersIn none) ∧
      Unheard (toldAll none after) (e.identifiersIn none) := by
  rw [identifiersInAll_append, identifiersInAll_cons, List.map_append, List.map_append,
    List.nodup_append, List.nodup_append] at hnodup
  obtain ⟨-, ⟨-, -, hlater⟩, hearlier⟩ := hnodup
  refine ⟨fun c hc i hi => ?_, fun c hc i hi => ?_⟩
  · exact hearlier _ (List.mem_map_of_mem (identifier_mem_of_toldAll hc)) _
      (List.mem_append_left _ (List.mem_map_of_mem hi))
  · exact (hlater _ (List.mem_map_of_mem hi) _
      (List.mem_map_of_mem (identifier_mem_of_toldAll hc))).symm

theorem any_toldAll (hnodup : ((identifiersInAll none (before ++ e :: after)).map (·.id)).Nodup)
    (hi : i ∈ e.identifiersIn none) (hq : ∀ c, q c = true → c.identifier.id = i.id) :
    (toldAll none (before ++ e :: after)).any q = (e.told none).any q := by
  obtain ⟨hearlier, hlater⟩ := unheard_elsewhere hnodup
  have hnone {log : List Call} (hlog : Unheard log (e.identifiersIn none)) : log.any q = false :=
    List.any_eq_false.2 fun c hc hqc => hlog c hc i hi (hq c hqc)
  calc (toldAll none (before ++ e :: after)).any q
    _ = ((toldAll none before).any q || ((e.told none).any q || (toldAll none after).any q)) := by
        rw [toldAll_append, toldAll_cons, List.any_append, List.any_append]
    _ = (e.told none).any q := by
        rw [hnone hearlier, hnone hlater, Bool.false_or, Bool.or_false]

theorem readings_toldAll
    (hnodup : ((identifiersInAll none (before ++ e :: after)).map (·.id)).Nodup) :
    readings (toldAll none (before ++ e :: after)) e = readings (e.told none) e := by
  have hstarted : startedBelow (toldAll none (before ++ e :: after)) e =
      startedBelow (e.told none) e := by
    refine List.countP_congr fun i hi => ?_
    rw [Tree.startsIn_eq, any_toldAll hnodup (mem_identifiersIn_of_below hi) fun c =>
      Call.id_of_starts, Tree.startsIn_eq]
  have hskipped : skippedBelow (toldAll none (before ++ e :: after)) e =
      skippedBelow (e.told none) e := by
    refine List.countP_congr fun i hi => ?_
    rw [any_toldAll hnodup (mem_identifiersIn_of_below hi) fun c => Call.id_of_skips]
  rw [readings, readings, hstarted, hskipped]

theorem ticks_after (hp : p.Lists forest) {rest : List SuiteNode}
    (hforest : forest = before ++ rest ++ after) :
    ticks p (toldAll none before) (toldAll none rest) =
      (rest.map (readings (toldAll none forest))).sum := by
  induction rest generalizing before with
  | nil => rw [toldAll_nil]; rfl
  | cons e rest ih =>
    have hplace : forest = before ++ e :: (rest ++ after) := by
      rw [hforest, List.append_assoc, List.cons_append]
    have he : e ∈ forest := by
      rw [hplace]
      exact List.mem_append_right _ List.mem_cons_self
    have hnodup := hp.nodup
    rw [hplace] at hnodup
    have hreadings := readings_toldAll hnodup
    rw [← hplace] at hreadings
    have hfirst := ticks_engine hp he (unheard_elsewhere hnodup).1
    have hlog : toldAll none (before ++ [e]) = toldAll none before ++ e.told none := by
      rw [toldAll_append, toldAll_cons, toldAll_nil, List.append_nil]
    have hsplit : forest = (before ++ [e]) ++ rest ++ after := by rw [hforest, List.append_cons]
    have hrest := ih hsplit
    rw [hlog] at hrest
    calc ticks p (toldAll none before) (toldAll none (e :: rest))
      _ = ticks p (toldAll none before) (e.told none) +
            ticks p (toldAll none before ++ e.told none) (toldAll none rest) := by
          rw [toldAll_cons, Tree.ticks_append]
      _ = readings (e.told none) e + (rest.map (readings (toldAll none forest))).sum := by
          rw [hfirst, hrest]
      _ = ((e :: rest).map (readings (toldAll none forest))).sum := by
          rw [List.map_cons, List.sum_cons, hreadings]

theorem ticks_front (hp : p.Lists forest) (hforest : forest = before ++ after) :
    ticks p [] (toldAll none before) = (before.map (readings (toldAll none forest))).sum := by
  have hticks := ticks_after hp (show forest = [] ++ before ++ after from hforest)
  rw [toldAll_nil] at hticks
  exact hticks

end Place

theorem told_ends (parent? : Option String) (n : SuiteNode) :
    ∃ first c, n.told parent? = first ++ [c] ∧ c.identifier = n.identifier parent? ∧
      Call.ends (n.uniqueId parent?) c = true ∧
      first.any (Call.ends (n.uniqueId parent?)) = false := by
  have hends (c : Call) (hc : c.ending?.isSome = true) (hid : c.identifier = n.identifier parent?) :
      Call.ends (n.uniqueId parent?) c = true := by
    rw [Call.ends, hc, hid, show (n.identifier parent?).id = n.uniqueId parent? from rfl,
      beq_self_eq_true, Bool.and_self]
  rcases told_eq parent? n with ⟨reason, htold⟩ | ⟨result, htold⟩
  · exact ⟨[], _, htold, rfl, hends _ rfl rfl, rfl⟩
  · rw [← List.cons_append] at htold
    refine ⟨_, _, htold, rfl, hends _ rfl rfl, List.any_eq_false.2 fun c hc hc' => ?_⟩
    rcases List.mem_cons.1 hc with rfl | hc
    · rw [Call.ends, Call.ending?, Option.isSome_none, Bool.and_false] at hc'
      cases hc'
    · exact id_ne_of_below (identifier_mem_of_inside hc) (Call.id_of_ends hc')

theorem told_placed (hnodup : ((identifiersInAll none ns).map (·.id)).Nodup)
    (hmem : (i, g) ∈ listingAll none ns) (hleaf : g.children = []) :
    (∃ earlier later, toldAll none ns = earlier ++ g.told i.parent ++ later ∧
      ∀ c ∈ earlier ++ later, c.identifier.id ≠ i.id) ∨
    ∀ c ∈ toldAll none ns, c.identifier.id ≠ i.id := by
  obtain ⟨e, he, hin⟩ := mem_listingAll.1 hmem
  obtain ⟨q, rfl, hsub⟩ := listing_of_mem hin
  have hids : (identifiersInAll none ns).Nodup := .of_map (·.id) hnodup
  have hplaced := placed_blockAll hids he (identifiersIn_subset hin)
    (placed_block ((sublist_of_mem he).nodup hids) hin)
  have hown : g.identifiersIn q = [g.identifier q] := by
    rw [identifiersIn_eq, hleaf]
    rfl
  have hlisted : g.identifier q ∈ identifiersInAll none ns :=
    mem_identifiersInAll.2 ⟨e, he, mem_identifiersIn hin⟩
  have hother {steps : List Step} (hsteps : ∀ step ∈ steps, step.identifier ∉ g.identifiersIn q)
      (hsub : steps ⊆ blockAll none ns) :
      ∀ c ∈ steps.filterMap Step.call?, c.identifier.id ≠ (g.identifier q).id := by
    intro c hc hid
    obtain ⟨step, hstep, hcall⟩ := List.mem_filterMap.1 hc
    cases step with
    | run j body? => cases hcall
    | tell d =>
      cases hcall
      have htold : c ∈ toldAll none ns := List.mem_filterMap.2 ⟨_, hsub hstep, rfl⟩
      have hsame : c.identifier = g.identifier q :=
        List.inj_on_of_nodup_map hnodup (identifier_mem_of_toldAll htold) hlisted hid
      apply hsteps _ hstep
      rw [hown]
      exact List.mem_singleton.2 hsame
  cases hplaced with
  | nowhere hnone => exact .inr (hother hnone (List.Subset.refl _))
  | once before after heq hnone =>
    refine .inl ⟨before.filterMap Step.call?, after.filterMap Step.call?, ?_, ?_⟩
    · rw [toldAll, heq, List.filterMap_append, List.filterMap_append]
      rfl
    · rw [← List.filterMap_append]
      refine hother hnone fun step hstep => ?_
      rw [heq, List.append_assoc, List.mem_append, List.mem_append]
      exact (List.mem_append.1 hstep).imp_right .inr

theorem told_test (hnodup : ((identifiersInAll none ns).map (·.id)).Nodup)
    (hmem : (i, g) ∈ listingAll none ns) (htest : g.kind = .test) :
    startsIn (toldAll none ns) i.id = false ∨
      ∃ earlier c later, toldAll none ns = earlier ++ .started i :: c :: later ∧
        Call.ends i.id c = true ∧ ∀ d ∈ earlier, d.identifier.id ≠ i.id := by
  have hleaf : g.children = [] := by
    cases g with
    | test label body? => rfl
    | group isEngine label hooks children => cases isEngine <;> cases htest
  have hself : g.identifier i.parent = i := by
    obtain ⟨e, -, hin⟩ := mem_listingAll.1 hmem
    obtain ⟨q, rfl, -⟩ := listing_of_mem hin
    rfl
  have hunstarted {c : Call} (h : c.identifier.id ≠ i.id) : ¬ Call.starts i.id c = true :=
    fun hstarts => h (Call.id_of_starts hstarts)
  rcases told_placed hnodup hmem hleaf with ⟨earlier, later, hall, hother⟩ | hnone
  · rcases told_eq i.parent g with ⟨reason, htold⟩ | ⟨result, htold⟩
    · left
      rw [hall, htold]
      refine List.any_eq_false.2 fun c hc => ?_
      rw [List.append_assoc, List.mem_append, List.singleton_append, List.mem_cons] at hc
      rcases hc with hc | rfl | hc
      · exact hunstarted (hother c (List.mem_append_left _ hc))
      · exact fun hstarts => nomatch (Bool.and_eq_true_iff.1 hstarts).2
      · exact hunstarted (hother c (List.mem_append_right _ hc))
    · right
      rw [toldInside, hleaf, toldAll_nil, ite_self, hself] at htold
      refine ⟨earlier, .finished i result, later, ?_, Call.ends_self rfl, fun d hd => ?_⟩
      · rw [hall, htold, List.append_assoc]
        rfl
      · exact hother d (List.mem_append_left _ hd)
  · exact .inl (List.any_eq_false.2 fun c hc => hunstarted (hnone c hc))

end SuiteNode

end TestRun
