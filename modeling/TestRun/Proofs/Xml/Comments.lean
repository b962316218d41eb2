import TestRun.Proofs.Xml.Legal
set_option autoImplicit false

namespace TestRun.Xml

def hyphens : List Char := ['-', '-', '-']

variable {block rest cs : List Char}

namespace Item

mutual

def silent : Item → Item
  | comment _ => comment ""
  | element tag attributes text children => element tag attributes text (silentAll children)

def silentAll : List Item → List Item
  | [] => []
  | item :: rest => silent item :: silentAll rest

end

mutual

def comments : Item → List String
  | comment text => [text]
  | element _ _ _ children => commentsAll children

def commentsAll : List Item → List String
  | [] => []
  | item :: rest => comments item ++ commentsAll rest

end

theorem silentAll_eq_map (items : List Item) : silentAll items = items.map silent := by
  induction items with
  | nil => rfl
  | cons item items ih => rw [silentAll, ih, List.map_cons]

theorem commentsAll_eq_flatMap (items : List Item) :
    commentsAll items = items.flatMap comments := by
  induction items with
  | nil => rfl
  | cons item items ih => rw [commentsAll, ih, List.flatMap_cons]

end Item

theorem hyphens_infix_append (h : '-' ∉ block) :
    hyphens <:+: block ++ rest ↔ hyphens <:+: rest := by
  induction block with
  | nil => rfl
  | cons c block ih =>
    obtain ⟨hc, hblock⟩ := List.ne_and_not_mem_of_not_mem_cons h
    rw [List.cons_append, List.infix_cons_iff, ih hblock]
    exact or_iff_right fun hfront => hc (List.cons_prefix_cons.1 hfront).1

theorem hyphen_not_mem_cleanChar {c : Char} (h : isLegal c = false) :
    '-' ∉ cleanChar c ∧ cleanChar c ≠ [] ∧ c ≠ '-' := by
  have hclean : cleanChar c = '&' :: '#' :: (Text.decimal c.toNat ++ [';']) := by
    unfold cleanChar
    rw [h]
    rfl
  refine ⟨fun hmem => ?_, hclean ▸ List.cons_ne_nil _ _, ?_⟩
  · rw [hclean] at hmem
    simp only [List.mem_cons, List.mem_append, List.not_mem_nil, or_false] at hmem
    rcases hmem with heq | heq | hmem | heq
    · exact absurd heq (by decide)
    · exact absurd heq (by decide)
    · exact absurd (Nat.isDigit_of_mem_toDigits (by decide) (by decide) hmem) (by decide)
    · exact absurd heq (by decide)
  · rintro rfl
    exact absurd h (by decide)

theorem cleanChar_of_legal {c : Char} (h : isLegal c = true) : cleanChar c = [c] := if_pos h

theorem replicate_prefix_flatMap_cleanChar (n : Nat) (cs : List Char) :
    List.replicate n '-' <+: cs.flatMap cleanChar ↔ List.replicate n '-' <+: cs := by
  induction n generalizing cs with
  | zero => exact iff_of_true List.nil_prefix List.nil_prefix
  | succ n ih =>
    cases cs with
    | nil => rfl
    | cons c cs =>
      rw [List.flatMap_cons, List.replicate_succ]
      cases hlegal : isLegal c with
      | true =>
        rw [cleanChar_of_legal hlegal, List.singleton_append, List.cons_prefix_cons,
          List.cons_prefix_cons, ih]
      | false =>
        obtain ⟨hfree, hne, hc⟩ := hyphen_not_mem_cleanChar hlegal
        refine iff_of_false (fun hfront => ?_) fun hfront => ?_
        · obtain ⟨d, ds, hd⟩ := List.exists_cons_of_ne_nil hne
          rw [hd, List.cons_append] at hfront
          rw [hd] at hfree
          exact hfree ((List.cons_prefix_cons.1 hfront).1 ▸ List.mem_cons_self)
        · exact hc (List.cons_prefix_cons.1 hfront).1.symm

theorem hyphens_infix_flatMap_cleanChar (cs : List Char) :
    hyphens <:+: cs.flatMap cleanChar ↔ hyphens <:+: cs := by
  induction cs with
  | nil => rfl
  | cons c cs ih =>
    cases hlegal : isLegal c with
    | true =>
      have hfront := replicate_prefix_flatMap_cleanChar 3 (c :: cs)
      rw [List.flatMap_cons, cleanChar_of_legal hlegal, List.singleton_append] at hfront ⊢
      rw [List.infix_cons_iff, List.infix_cons_iff, ih]
      exact or_congr_left hfront
    | false =>
      obtain ⟨hfree, -, hc⟩ := hyphen_not_mem_cleanChar hlegal
      have hsingle : '-' ∉ [c] := fun hmem => hc (List.mem_singleton.1 hmem).symm
      rw [List.flatMap_cons, hyphens_infix_append hfree, ih]
      exact (hyphens_infix_append hsingle).symm

theorem hyphen_prefix_splitHyphens (cs : List Char) :
    ['-'] <+: splitHyphens cs ↔ ['-'] <+: cs := by
  fun_cases splitHyphens cs with
  | case1 rest => exact iff_of_true (List.prefix_append _ _) (List.prefix_append _ _)
  | case2 c rest _ => rw [List.cons_prefix_cons, List.cons_prefix_cons]; simp
  | case3 => rfl

/-- A pair of hyphens is left where there were three in a row, and nowhere else. -/
theorem pair_infix_splitHyphens (cs : List Char) :
    ['-', '-'] <:+: splitHyphens cs ↔ hyphens <:+: cs := by
  fun_induction splitHyphens cs with
  | case1 rest ih =>
    -- a pair is split: only its second hyphen can be part of another pair, with what follows
    have hfree : ¬ ['-', '-'] <+: '-' :: ' ' :: '-' :: splitHyphens rest := by
      simp [List.cons_prefix_cons]
    have hfree' : ¬ ['-', '-'] <+: ' ' :: '-' :: splitHyphens rest := by
      simp [List.cons_prefix_cons]
    have hleft : ['-', '-'] <:+: '-' :: ' ' :: '-' :: splitHyphens rest ↔
        ['-'] <+: rest ∨ hyphens <:+: rest := by
      rw [List.infix_cons_iff, or_iff_right hfree, List.infix_cons_iff, or_iff_right hfree',
        List.infix_cons_iff, List.cons_prefix_cons, ih, hyphen_prefix_splitHyphens]
      simp
    have hshort : ['-', '-'] <+: rest → ['-'] <+: rest := (List.prefix_append ['-'] ['-']).trans
    rw [hleft, List.infix_cons_iff, List.infix_cons_iff, hyphens]
    simp only [List.cons_prefix_cons, true_and]
    constructor
    · rintro (hfront | hinfix)
      · exact .inl hfront
      · exact .inr (.inr hinfix)
    · rintro (hfront | hfront | hinfix)
      · exact .inl hfront
      · exact .inl (hshort hfront)
      · exact .inr hinfix
  | case2 c rest hsingle ih =>
    have hnone : ∀ more, ¬ ('-' = c ∧ '-' :: more <+: rest) := by
      rintro more ⟨hc, hfront⟩
      obtain ⟨after, hrest⟩ := hfront
      exact hsingle _ hc.symm hrest.symm
    rw [List.infix_cons_iff, List.infix_cons_iff, ih, hyphens]
    simp only [List.cons_prefix_cons, hyphen_prefix_splitHyphens]
    rw [or_iff_right (hnone []), or_iff_right (hnone ['-'])]
  | case3 => simp [hyphens]

theorem commentRule_cleanComment (s : String) :
    CommentRule (cleanComment s).toList ↔ ¬ hyphens <:+: s.toList := by
  rw [← hyphens_infix_flatMap_cleanChar, ← pair_infix_splitHyphens]
  unfold cleanComment CommentRule
  rw [String.toList_ofList]
  generalize splitHyphens (s.toList.flatMap cleanChar) = cs
  split
  · have hpair : ['-', '-'] <:+: cs ++ [' '] ↔ ['-', '-'] <:+: cs := by
      rw [List.infix_concat_iff]
      refine or_iff_right fun ⟨before, hbefore⟩ => ?_
      have hlast := congrArg List.getLast? hbefore
      rw [List.getLast?_concat, List.getLast?_append] at hlast
      cases hlast
    rw [hpair, List.getLast?_concat]
    exact and_iff_left (by decide)
  · exact and_iff_left ‹_›

example : cleanComment "Unique ID: ---><evil/>" = "Unique ID: - --><evil/>" := by decide

/-- Nothing in a text that keeps to the rule can be taken for the end of the comment. -/
theorem CommentRule.ends_last {text : List Char} (h : CommentRule text) {before after : List Char}
    (heq : text ++ ['-', '-', '>'] = before ++ '-' :: '-' :: after) : before = text := by
  rcases List.append_eq_append_iff.1 heq with ⟨more, rfl, hmore⟩ | ⟨more, rfl, hmore⟩
  · -- the pair begins behind the text
    match more with
    | [] => exact List.append_nil text
    | [_] | [_, _] | [_, _, _] | _ :: _ :: _ :: _ :: _ => simp at hmore
  · -- the pair begins in the text
    match more with
    | [] => exact (List.append_nil before).symm
    | [c] =>
      obtain ⟨rfl, -⟩ := List.cons.inj hmore
      exact absurd (List.getLast?_concat ..) h.2
    | c :: d :: more =>
      obtain ⟨rfl, hrest⟩ := List.cons.inj hmore
      obtain ⟨rfl, -⟩ := List.cons.inj hrest
      exact absurd ⟨before, more, by simp⟩ h.1

end TestRun.Xml
