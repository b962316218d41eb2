import Mathlib.Data.List.Basic
import TestRun.Suite.Library
set_option autoImplicit false

namespace TestRun

/-- A refusal of the library itself, not one raised by a suite. -/
def SuiteFault.IsOwn : SuiteFault → Prop
  | .raised _ => False
  | _ => True

/-- The engines that an offer stands for: those of a collection, or a single engine. -/
inductive Offer.Yields : Offer → List SuiteNode → Prop
  | collection (nodes : List SuiteNode) : Yields (.forest nodes) nodes
  | single {engine : SuiteNode} (others : List SuiteNode) (h : engine.kind = .engine) :
    Yields (.first (engine :: others)) [engine]

namespace Library

def parts (name : String) : List (List Char) := name.toList.splitOn '.'

theorem parts_injective : Function.Injective parts := by
  intro name name' h
  have htexts := congrArg (List.intercalate ['.']) h
  simp only [parts, List.intercalate_splitOn] at htexts
  exact String.toList_inj.1 htexts

theorem intercalate_append {α : Type} (between : List α) {xs ys : List (List α)} (hxs : xs ≠ [])
    (hys : ys ≠ []) : between.intercalate (xs ++ ys) =
      between.intercalate xs ++ between ++ between.intercalate ys := by
  induction xs with
  | nil => exact absurd rfl hxs
  | cons x rest ih =>
    rw [List.cons_append]
    by_cases hrest : rest = []
    · rw [hrest, List.nil_append, List.intercalate_cons_of_ne_nil hys, List.intercalate_singleton]
    · rw [List.intercalate_cons_of_ne_nil (List.append_ne_nil_of_left_ne_nil hrest ys),
        List.intercalate_cons_of_ne_nil hrest, ih hrest]
      simp only [List.append_assoc]

/-- The names above a name are those it continues after a dot. A name that it merely begins with is
not above it. -/
theorem parts_prefix_iff {above name : String} :
    parts above <+: parts name ↔ name = above ∨ above.toList ++ ['.'] <+: name.toList := by
  constructor
  · rintro ⟨rest, hrest⟩
    by_cases hnil : rest = []
    · rw [hnil, List.append_nil] at hrest
      exact .inl (parts_injective hrest).symm
    · -- more parts follow, so that the name goes on after a dot
      have htext := congrArg (List.intercalate ['.']) hrest
      have habove : parts above ≠ [] := List.splitOn_ne_nil '.' above.toList
      rw [intercalate_append ['.'] habove hnil, parts, parts, List.intercalate_splitOn,
        List.intercalate_splitOn] at htext
      exact .inr ⟨_, htext⟩
  · rintro (rfl | ⟨rest, hrest⟩)
    · exact List.prefix_refl _
    · rw [List.append_assoc, List.singleton_append] at hrest
      rw [parts, parts, ← hrest, List.splitOn_append_cons_self]
      exact List.prefix_append _ _

theorem explains_iff {missing candidate : String} :
    explains missing candidate = true ↔ parts missing <+: parts candidate := by
  rw [parts_prefix_iff, explains, Bool.or_eq_true, beq_iff_eq, String.startsWith_string_iff,
    String.toList_append]
  rfl

/-- The candidate is missing, or a package above it. -/
inductive IsMissing (candidate : String) : ImportFault → Prop
  | above {missing : String} (t : Thrown) (h : parts missing <+: parts candidate) :
    IsMissing candidate (.missing (some missing) t)

theorem leadsOn_iff {candidate : String} {fault : ImportFault} :
    leadsOn candidate fault = true ↔ IsMissing candidate fault := by
  constructor
  · intro h
    match fault with
    | .missing (some missing) t => exact .above t (explains_iff.1 h)
  · rintro ⟨t, h⟩
    exact explains_iff.2 h

theorem engines_eq_ok_iff {name : String} {offer : Offer} {nodes : List SuiteNode} :
    Offer.engines name offer = .ok nodes ↔ offer.Yields nodes := by
  constructor
  · intro h
    match offer, h with
    | .forest nodes, rfl => exact .collection nodes
    | .first (.group true label hooks children :: others), rfl => exact .single others rfl
  · intro h
    cases h with
    | collection => rfl
    | @single engine others hengine =>
      match engine, hengine with
      | .group true label hooks children, _ => rfl

theorem engines_own_iff {name : String} {offer : Offer} :
    (∃ fault, Offer.engines name offer = .error fault ∧ fault.IsOwn) ↔ offer = .none := by
  constructor
  · rintro ⟨fault, hfault, hown⟩
    unfold Offer.engines at hfault
    split at hfault
    case h_8 => rfl
    case h_1 | h_3 => cases hfault
    all_goals
      cases hfault
      exact absurd hown id
  · rintro rfl
    exact ⟨_, rfl, trivial⟩

theorem engines_ne_notFound {name suite : String} {offer : Offer} :
    Offer.engines name offer ≠ .error (.notFound suite) := by
  intro h
  have hnone := engines_own_iff.1 ⟨_, h, trivial⟩
  rw [hnone] at h
  cases h

section Search

variable {σ : Type} (importing : Importing σ)

/-- Names that are missing one after the other, from a state to another. -/
inductive Misses : List String → σ → σ → Prop
  | nil (s : σ) : Misses [] s s
  | cons {name : String} {rest : List String} {fault : ImportFault} {s s₁ s₂ : σ}
    (hfails : importing name s = (.error fault, s₁)) (hmissing : IsMissing name fault)
    (hrest : Misses rest s₁ s₂) : Misses (name :: rest) s s₂

/-- All names before one are missing, so that the search comes to that one. -/
def ComesTo (names : List String) (s : σ) (name : String) (s₁ : σ) : Prop :=
  ∃ before after, names = before ++ name :: after ∧ Misses importing before s s₁

variable {importing}

theorem firstFound_append {before : List String} {s s₁ : σ} (h : Misses importing before s s₁)
    (after : List String) :
    firstFound importing (before ++ after) s = firstFound importing after s₁ := by
  induction h with
  | nil s => rfl
  | cons hfails hmissing hrest ih =>
    rw [List.cons_append, firstFound, hfails]
    simp only [leadsOn_iff.2 hmissing, if_true]
    exact ih

theorem misses_or_comesTo (names : List String) (s : σ) :
    (∃ s', Misses importing names s s') ∨
      ∃ name s₁, ComesTo importing names s name s₁ ∧
        ∀ fault s₂, importing name s₁ = (.error fault, s₂) → ¬ IsMissing name fault := by
  induction names generalizing s with
  | nil => exact .inl ⟨s, .nil s⟩
  | cons name rest ih =>
    by_cases hmissing : ∃ fault s₁, importing name s = (.error fault, s₁) ∧ IsMissing name fault
    · obtain ⟨fault, s₁, hfails, hmissing⟩ := hmissing
      rcases ih s₁ with ⟨s', hrest⟩ | ⟨stop, s₂, ⟨before, after, rfl, hbefore⟩, hstop⟩
      · exact .inl ⟨s', .cons hfails hmissing hrest⟩
      · exact .inr ⟨stop, s₂, ⟨name :: before, after, rfl, .cons hfails hmissing hbefore⟩, hstop⟩
    · exact .inr ⟨name, s, ⟨[], rest, rfl, .nil s⟩,
        fun fault s₁ hfails h => hmissing ⟨fault, s₁, hfails, h⟩⟩

variable {suite name : String} {s s₁ s₂ : σ}

theorem search_of_misses (h : Misses importing (candidates suite) s s₁) :
    search importing suite s = (.error (.notFound suite), s₁) := by
  have hall := firstFound_append h []
  rw [List.append_nil] at hall
  rw [search, hall]
  rfl

theorem search_of_found (h : ComesTo importing (candidates suite) s name s₁) {m : SuiteModule}
    (hfound : importing name s₁ = (.ok m, s₂)) :
    search importing suite s = (Offer.engines m.name m.offer, s₂) := by
  obtain ⟨before, after, hnames, hbefore⟩ := h
  rw [search, hnames, firstFound_append hbefore, firstFound, hfound]

theorem search_of_broken (h : ComesTo importing (candidates suite) s name s₁)
    {fault : ImportFault} (hfails : importing name s₁ = (.error fault, s₂))
    (hthere : ¬ IsMissing name fault) :
    search importing suite s = (.error (.raised fault.thrown), s₂) := by
  have hstays : leadsOn name fault = false := by
    rw [← Bool.not_eq_true, leadsOn_iff]
    exact hthere
  obtain ⟨before, after, hnames, hbefore⟩ := h
  rw [search, hnames, firstFound_append hbefore, firstFound, hfails]
  simp only [hstays, Bool.false_eq_true, if_false]

/-- Whatever importing does, a suite is looked for first among the built-in suites, unless its name
is dotted, and then under its own name. It is not found if and only if all these are missing.
Otherwise the search ends at the first name that is not: with the engines of that module, with the
library's own refusal if the module offers none, or with the failure of that import as it is. -/
theorem search_hides_nothing (importing : Importing σ) (suite : String) (s : σ) :
    (candidates suite =
      if '.' ∈ suite.toList then [suite] else ["reportkit.testsuites." ++ suite, suite]) ∧
    ((search importing suite s).1 = .error (.notFound suite) ↔
      ∃ s', Misses importing (candidates suite) s s') ∧
    (∀ s', Misses importing (candidates suite) s s' → (search importing suite s).2 = s') ∧
    ∀ name s₁, ComesTo importing (candidates suite) s name s₁ →
      (∀ m s₂, importing name s₁ = (.ok m, s₂) →
        (search importing suite s).2 = s₂ ∧
        ((∃ fault, (search importing suite s).1 = .error fault ∧ fault.IsOwn) ↔ m.offer = .none) ∧
        (m.offer = .none → (search importing suite s).1 = .error (.noDiscovery m.name)) ∧
        ∀ engines, (search importing suite s).1 = .ok engines ↔ m.offer.Yields engines) ∧
      ∀ fault s₂, importing name s₁ = (.error fault, s₂) → ¬ IsMissing name fault →
        search importing suite s = (.error (.raised fault.thrown), s₂) := by
  have hcandidates : candidates suite =
      if '.' ∈ suite.toList then [suite] else ["reportkit.testsuites." ++ suite, suite] := by
    unfold candidates
    simp only [List.contains_iff_mem]
    rfl
  refine ⟨hcandidates, ⟨?_, ?_⟩, ?_, ?_⟩
  · intro hnotFound
    rcases misses_or_comesTo (candidates suite) s with hall | ⟨name, s₁, hcomes, hthere⟩
    · exact hall
    · -- the search ended at this name, with another answer
      exfalso
      cases hresult : importing name s₁ with
      | mk result s₂ =>
        cases result with
        | error fault =>
          rw [search_of_broken hcomes hresult (hthere fault s₂ hresult)] at hnotFound
          cases hnotFound
        | ok m =>
          rw [search_of_found hcomes hresult] at hnotFound
          exact engines_ne_notFound hnotFound
  · rintro ⟨s', hall⟩
    rw [search_of_misses hall]
  · intro s' hall
    rw [search_of_misses hall]
  · intro name s₁ hcomes
    refine ⟨fun m s₂ hfound => ?_, fun fault s₂ => search_of_broken hcomes⟩
    rw [search_of_found hcomes hfound]
    refine ⟨rfl, engines_own_iff, fun hnone => ?_, fun engines => engines_eq_ok_iff⟩
    rw [hnone]
    rfl

end Search

/-- The built-in candidate fails for want of a module. A name that the candidate merely begins with
ends the search there; a package above the candidate leads on to the other one, whose single engine
is found. -/
theorem search_hides_nothing_cut_name :
    let engine : SuiteNode := .group true ⟨"mine", none, none⟩ .none []
    let nightly : SuiteModule := ⟨"nightly", false, [], none, .first [engine]⟩
    let t : Thrown := .make (.builtin "ModuleNotFoundError") [] true
    let world (missing : String) : Importing (List String) := fun name tried =>
      (if name = "nightly" then .ok nightly else .error (.missing (some missing) t), name :: tried)
    search (world "reportkit.testsuites.night") "nightly" [] =
      (.error (.raised t), ["reportkit.testsuites.nightly"]) ∧
    search (world "reportkit.testsuites") "nightly" [] =
      (.ok [engine], ["nightly", "reportkit.testsuites.nightly"]) := by
  intro engine nightly t world
  constructor
  · have hcut : ¬ IsMissing "reportkit.testsuites.nightly"
        (.missing (some "reportkit.testsuites.night") t) := by
      rintro ⟨_, h⟩
      exact absurd h (by decide)
    exact ((search_hides_nothing (world "reportkit.testsuites.night") "nightly" []).2.2.2
      _ [] ⟨[], ["nightly"], rfl, .nil _⟩).2 _ _ rfl hcut
  · have habove : IsMissing "reportkit.testsuites.nightly"
        (.missing (some "reportkit.testsuites") t) := .above t (by decide)
    obtain ⟨htried, -, -, hengines⟩ :=
      ((search_hides_nothing (world "reportkit.testsuites") "nightly" []).2.2.2 "nightly"
        ["reportkit.testsuites.nightly"]
        ⟨["reportkit.testsuites.nightly"], [], rfl, .cons rfl habove (.nil _)⟩).1 nightly _ rfl
    exact Prod.ext ((hengines _).2 (.single [] rfl)) htried

end Library

end TestRun
