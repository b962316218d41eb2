import TestRun.Proofs.Files.Walks
set_option autoImplicit false

namespace TestRun.Files

open Text (CodeText)

namespace Disk

/-- The second disk has directories at some of these locations where the first has nothing, and is
otherwise the same. -/
def Gains (d d' : Disk) (ls : List Location) : Prop :=
  ∀ l, d'.get? l = d.get? l ∨ l ∈ ls ∧ d.get? l = none ∧ d'.get? l = some .directory

theorem makeReversed_cons (d : Disk) (slashes : Nat) (name : CodeText) (parents : List CodeText) :
    d.makeReversed slashes (name :: parents) =
      match d.makeDirectory ⟨slashes, (name :: parents).reverse⟩ with
      | .error ⟨2, _⟩ =>
        match d.makeReversed slashes parents with
        | (.ok _, d) => d.settle ⟨slashes, (name :: parents).reverse⟩
        | (.error e, d) => (.error e, d)
      | _ => d.settle ⟨slashes, (name :: parents).reverse⟩ := rfl

variable {d d' d'' : Disk} {p : Path} {ls ms : List Location} {P : Location → Prop}

theorem Gains.refl (d : Disk) (ls : List Location) : d.Gains d ls := fun _ => .inl rfl

theorem Gains.trans (h : d.Gains d' ls) (h' : d'.Gains d'' ls) : d.Gains d'' ls := by
  intro l
  rcases h l with heq | ⟨hl, hnone, hdirectory⟩
  · rcases h' l with heq' | ⟨hl, hnone, hdirectory⟩
    · exact .inl (heq'.trans heq)
    · exact .inr ⟨hl, heq ▸ hnone, hdirectory⟩
  · rcases h' l with heq' | ⟨-, hnone', -⟩
    · exact .inr ⟨hl, hnone, heq'.trans hdirectory⟩
    · exact absurd (hdirectory.symm.trans hnone') nofun

theorem Gains.mono (h : d.Gains d' ls) (hsub : ls ⊆ ms) : d.Gains d' ms :=
  fun l => (h l).imp_right fun ⟨hl, hrest⟩ => ⟨hsub hl, hrest⟩

theorem makeDirectory_eq_ok (h : d.makeDirectory p = .ok d') :
    d.find p = .ok (p.location, none) ∧ d.get? p.location = none ∧
      d' = d.put p.location .directory := by
  unfold makeDirectory at h
  rcases d.find_cases p with ⟨r, hfind⟩ | hfind
  · rw [hfind] at h
    cases h
  rw [hfind] at h ⊢
  cases hheld : d.get? p.location with
  | some held =>
    rw [hheld] at h
    cases h
  | none =>
    rw [hheld] at h
    dsimp only at h
    cases hmake : d.policy.make? d.entries p.location with
    | some r =>
      rw [hmake] at h
      cases h
    | none =>
      rw [hmake] at h
      exact ⟨rfl, rfl, (Except.ok.inj h).symm⟩

theorem isDirectory_iff_find : d.isDirectory p = true ↔
    d.find p = .ok (p.location, some .directory) := by
  unfold isDirectory
  rcases d.find_cases p with ⟨r, hfind⟩ | hfind
  · rw [hfind]
    exact iff_of_false nofun nofun
  · rw [hfind]
    rcases d.get? p.location with _ | _ | held
    · exact iff_of_false nofun nofun
    · exact iff_of_true rfl rfl
    · exact iff_of_false nofun nofun

theorem settle_gains (d : Disk) (p : Path) : d.Gains (d.settle p).2 p.trail := by
  unfold settle
  cases hmake : d.makeDirectory p with
  | error r =>
    dsimp only
    split <;> exact .refl d _
  | ok made =>
    obtain ⟨-, hnone, rfl⟩ := makeDirectory_eq_ok hmake
    intro l
    by_cases hl : l = p.location
    · subst hl
      have hfree : d.get? p.location ≠ some .directory := hnone ▸ nofun
      have hgiven : p.location.isGiven = false := isGiven_eq_false hfree
      refine .inr ⟨?_, hnone, get?_put_self hgiven d _⟩
      refine (List.mem_cons.1 p.location_mem).resolve_left fun horigin => ?_
      rw [horigin, p.isGiven_origin] at hgiven
      cases hgiven
    · exact .inl (get?_put_of_ne hl d _)

theorem settle_reaches (h : (d.settle p).1 = .ok ()) : (d.settle p).2.Reaches p := by
  unfold settle at h ⊢
  cases hmake : d.makeDirectory p with
  | error r =>
    rw [hmake] at h
    dsimp only at h ⊢
    split at h
    · rename_i hdirectory
      rw [if_pos hdirectory]
      obtain ⟨-, hwalk, heq⟩ := find_eq_ok (isDirectory_iff_find.1 hdirectory)
      exact ⟨hwalk, (congrArg Prod.snd heq).symm⟩
    · cases h
  | ok made =>
    obtain ⟨hfind, hnone, rfl⟩ := makeDirectory_eq_ok hmake
    have hfree : d.get? p.location ≠ some .directory := hnone ▸ nofun
    exact ⟨walk_mono (find_eq_ok hfind).2.1 (spares_put hfree _),
      get?_put_self (isGiven_eq_false hfree) d _⟩

theorem makeDirectory_agree (h : AgreeOn P d d') (hP : ∀ l ∈ p.origin :: p.trail, P l) :
    (∃ r, d.makeDirectory p = .error r ∧ d'.makeDirectory p = .error r) ∨
      ∃ made made', d.makeDirectory p = .ok made ∧ d'.makeDirectory p = .ok made' ∧
        AgreeOn P made made' := by
  have hl : P p.location := hP _ p.location_mem
  unfold makeDirectory
  rw [← find_congr h hP]
  rcases d.find_cases p with ⟨r, hfind⟩ | hfind
  · rw [hfind]
    exact .inl ⟨r, rfl, rfl⟩
  rw [hfind]
  cases hheld : d.get? p.location with
  | some held => exact .inl ⟨.alreadyThere, rfl, rfl⟩
  | none =>
    dsimp only
    rw [(h _ hl).2.make _ _ (h.lookup_eq hl (hheld ▸ nofun))]
    cases d'.policy.make? d'.entries p.location with
    | some r => exact .inl ⟨r, rfl, rfl⟩
    | none => exact .inr ⟨_, _, rfl, rfl, h.put _ _⟩

theorem settle_agree (h : AgreeOn P d d') (hP : ∀ l ∈ p.origin :: p.trail, P l) :
    (d.settle p).1 = (d'.settle p).1 ∧ AgreeOn P (d.settle p).2 (d'.settle p).2 := by
  have hfind : d.find p = d'.find p := find_congr h hP
  unfold settle
  rcases makeDirectory_agree h hP with ⟨r, hmake, hmake'⟩ | ⟨made, made', hmake, hmake', hagree⟩
  · rw [hmake, hmake', isDirectory, isDirectory, hfind]
    dsimp only
    split <;> exact ⟨rfl, h⟩
  · rw [hmake, hmake']
    exact ⟨rfl, hagree⟩

theorem trail_parents (slashes : Nat) (name : CodeText) (parents : List CodeText) :
    (Path.mk slashes parents.reverse).trail ⊆
      (Path.mk slashes (name :: parents).reverse).trail := by
  unfold Path.trail Path.steps
  rw [List.reverse_cons, List.map_append, Location.trail_append]
  exact List.subset_append_left _ _

theorem makeReversed_gains (d : Disk) (slashes : Nat) (names : List CodeText) :
    d.Gains (d.makeReversed slashes names).2 (Path.mk slashes names.reverse).trail := by
  induction names generalizing d with
  | nil => exact settle_gains d _
  | cons name parents ih =>
    rw [makeReversed_cons]
    split
    · have hparents := (ih d).mono (trail_parents slashes name parents)
      rcases hmade : d.makeReversed slashes parents with ⟨answer, made⟩
      rw [hmade] at hparents
      cases answer with
      | error e => exact hparents
      | ok _ => exact hparents.trans (settle_gains made _)
    · exact settle_gains d _

theorem makeReversed_reaches {slashes : Nat} {names : List CodeText}
    (h : (d.makeReversed slashes names).1 = .ok ()) :
    (d.makeReversed slashes names).2.Reaches ⟨slashes, names.reverse⟩ := by
  cases names with
  | nil => exact settle_reaches h
  | cons name parents =>
    rw [makeReversed_cons] at h ⊢
    split at h
    · rcases hmade : d.makeReversed slashes parents with ⟨_ | _, made⟩
      · rw [hmade] at h
        cases h
      · rw [hmade] at h
        exact settle_reaches h
    · exact settle_reaches h

theorem makeReversed_agree {slashes : Nat} {names : List CodeText} (h : AgreeOn P d d')
    (hP : ∀ l ∈ (Path.mk slashes names.reverse).origin :: (Path.mk slashes names.reverse).trail,
      P l) :
    (d.makeReversed slashes names).1 = (d'.makeReversed slashes names).1 ∧
      AgreeOn P (d.makeReversed slashes names).2 (d'.makeReversed slashes names).2 := by
  -- the first attempt decides whether the parents are needed, and it comes out the same twice
  induction names with
  | nil => exact settle_agree h hP
  | cons name parents ih =>
    have hsettle := settle_agree h hP
    obtain ⟨hanswer, hmade⟩ := ih fun l hl =>
      hP l (List.cons_subset_cons _ (trail_parents slashes name parents) hl)
    rw [makeReversed_cons, makeReversed_cons]
    rcases makeDirectory_agree h hP with ⟨r, hmake, hmake'⟩ | ⟨made, made', hmake, hmake', -⟩
    · rw [hmake, hmake']
      split
      · rcases hparents : d.makeReversed slashes parents with ⟨answer, made⟩
        rcases hparents' : d'.makeReversed slashes parents with ⟨answer', made'⟩
        rw [hparents, hparents'] at hanswer hmade
        obtain rfl : answer = answer' := hanswer
        cases answer with
        | error e => exact ⟨rfl, hmade⟩
        | ok _ => exact settle_agree hmade hP
      · exact hsettle
    · rw [hmake, hmake']
      exact hsettle

theorem makeDirectories_gains (d : Disk) (p : Path) : d.Gains (d.makeDirectories p).2 p.trail := by
  have h := makeReversed_gains d p.slashes p.names.reverse
  rw [List.reverse_reverse] at h
  exact h

theorem makeDirectories_reaches (h : (d.makeDirectories p).1 = .ok ()) :
    (d.makeDirectories p).2.Reaches p := by
  have hreaches := makeReversed_reaches h
  rw [List.reverse_reverse] at hreaches
  exact hreaches

theorem makeDirectories_agree (h : AgreeOn P d d') (hP : ∀ l ∈ p.origin :: p.trail, P l) :
    (d.makeDirectories p).1 = (d'.makeDirectories p).1 ∧
      AgreeOn P (d.makeDirectories p).2 (d'.makeDirectories p).2 := by
  refine makeReversed_agree h ?_
  rw [List.reverse_reverse]
  exact hP

end Disk

end TestRun.Files
