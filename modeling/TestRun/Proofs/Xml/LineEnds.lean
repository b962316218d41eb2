import Mathlib.Data.List.Infix
import TestRun.Proofs.Xml.RoundTrip
set_option autoImplicit false

namespace TestRun.Xml

def unify : List Char → List Char
  | '\r' :: '\n' :: rest => '\n' :: unify rest
  | '\r' :: rest => '\n' :: unify rest
  | c :: rest => c :: unify rest
  | [] => []

def unifyText (text : String) : String := String.ofList (unify text.toList)

/-- The element that a processor delivers: the document is read with its line ends unified. -/
def process (document : String) : Option Item := read (unifyText document)

namespace Item

mutual

def unified : Item → Item
  | comment text => comment (unifyText text)
  | element tag attributes text children =>
    element tag attributes (unifyText text) (unifiedAll children)

def unifiedAll : List Item → List Item
  | [] => []
  | item :: rest => unified item :: unifiedAll rest

end

theorem unifiedAll_eq_map (items : List Item) : unifiedAll items = items.map unified := by
  induction items with
  | nil => rfl
  | cons item items ih => rw [unifiedAll, ih, List.map_cons]

end Item

variable {cs pre text rest : List Char} {c : Char}

theorem not_mem_unify (cs : List Char) : '\r' ∉ unify cs := by
  fun_induction unify cs with
  | case1 rest ih => simpa using ih
  | case2 rest _ ih => simpa using ih
  | case3 c rest _ hc ih =>
    have hne : '\r' ≠ c := fun h => hc h.symm
    simpa [hne] using ih
  | case4 => simp

theorem unify_append_of_not_mem (h : '\r' ∉ pre) : unify (pre ++ rest) = pre ++ unify rest := by
  induction pre with
  | nil => rfl
  | cons c pre ih =>
    obtain ⟨hc, hpre⟩ := List.ne_and_not_mem_of_not_mem_cons h
    rw [List.cons_append, unify.eq_3, ih hpre, List.cons_append]
    · exact fun _ h _ => hc h.symm
    · exact fun h => hc h.symm

theorem unify_eq_self (h : '\r' ∉ cs) : unify cs = cs := by
  have happend : unify (cs ++ []) = cs ++ unify [] := unify_append_of_not_mem h
  rwa [List.append_nil, unify, List.append_nil] at happend

theorem unify_eq_self_iff : unify cs = cs ↔ '\r' ∉ cs :=
  ⟨fun h => h ▸ not_mem_unify cs, unify_eq_self⟩

theorem unify_append_cons (hc : c ≠ '\n') (text rest : List Char) :
    unify (text ++ c :: rest) = unify text ++ unify (c :: rest) := by
  fun_induction unify text with
  | case1 text ih => rw [List.cons_append, List.cons_append, unify, ih, List.cons_append]
  | case2 text hlone ih =>
    have hnext : ∀ more, text ++ c :: rest = '\n' :: more → False := by
      intro more h
      cases text with
      | nil => exact hc (List.cons.inj h).1
      | cons d text => exact hlone text (congrArg (· :: text) (List.cons.inj h).1)
    rw [List.cons_append, unify.eq_2 _ hnext, ih, List.cons_append]
  | case3 d text _ hd ih =>
    rw [List.cons_append, unify.eq_3 _ _ (fun _ h _ => hd h) hd, ih, List.cons_append]
  | case4 => rfl

theorem unify_around {post : List Char} (hpre : '\r' ∉ pre) (hc : c ≠ '\n')
    (hpost : '\r' ∉ c :: post) :
    unify (pre ++ (text ++ (c :: post ++ rest))) = pre ++ (unify text ++ (c :: post ++ unify rest)) := by
  rw [unify_append_of_not_mem hpre, List.cons_append, unify_append_cons hc, ← List.cons_append,
    unify_append_of_not_mem hpost]

theorem unify_eq_nil_iff : unify cs = [] ↔ cs = [] := by
  fun_cases unify cs with
  | _ => simp

theorem mem_of_mem_unify {d : Char} (h : d ∈ unify cs) : d ∈ cs ∨ d = '\n' := by
  fun_induction unify cs with
  | case1 rest ih =>
    rcases List.mem_cons.1 h with rfl | h
    · exact .inr rfl
    · exact (ih h).imp_left fun hmem => List.mem_cons_of_mem _ (List.mem_cons_of_mem _ hmem)
  | case2 rest _ ih =>
    rcases List.mem_cons.1 h with rfl | h
    · exact .inr rfl
    · exact (ih h).imp_left (List.mem_cons_of_mem _)
  | case3 c rest _ _ ih =>
    rcases List.mem_cons.1 h with rfl | h
    · exact .inl List.mem_cons_self
    · exact (ih h).imp_left (List.mem_cons_of_mem _)
  | case4 => cases h

theorem cr_not_mem_escapeTextChar (hc : c ≠ '\r') : '\r' ∉ escapeTextChar c := by
  unfold escapeTextChar
  split
  · decide
  · decide
  · decide
  · decide
  · decide
  · simpa using hc.symm

theorem head?_escapeTextChar (hc : c ≠ '\n') : (escapeTextChar c).head? ≠ some '\n' := by
  unfold escapeTextChar
  split
  · decide
  · decide
  · decide
  · decide
  · decide
  · simpa using hc

theorem unify_flatMap_escapeTextChar (cs : List Char) :
    unify (cs.flatMap escapeTextChar) = (unify cs).flatMap escapeTextChar := by
  have hcr : escapeTextChar '\r' = ['\r'] := by decide
  have hnl : escapeTextChar '\n' = ['\n'] := by decide
  fun_induction unify cs with
  | case1 rest ih =>
    simp only [List.flatMap_cons, hcr, hnl, List.singleton_append, unify, ih]
  | case2 rest hlone ih =>
    have hnext : ∀ more, rest.flatMap escapeTextChar = '\n' :: more → False := by
      intro more h
      cases rest with
      | nil => cases h
      | cons d rest =>
        have hd : d ≠ '\n' := fun heq => hlone rest (congrArg (· :: rest) heq)
        have hhead := head?_escapeTextChar hd
        rw [List.flatMap_cons] at h
        cases hescaped : escapeTextChar d with
        | nil => exact absurd hescaped (by unfold escapeTextChar; split <;> simp)
        | cons e es =>
          rw [hescaped, List.cons_append] at h
          rw [hescaped, (List.cons.inj h).1] at hhead
          exact hhead rfl
    simp only [List.flatMap_cons, hcr, hnl, List.singleton_append, unify.eq_2 _ hnext, ih]
  | case3 d rest _ hd ih =>
    have hne : d ≠ '\r' := fun h => hd h
    rw [List.flatMap_cons, unify_append_of_not_mem (cr_not_mem_escapeTextChar hne), ih,
      List.flatMap_cons]
  | case4 => rfl

theorem unify_escapeText (text : String) :
    unify (escapeText text).toList = (escapeText (unifyText text)).toList := by
  unfold escapeText unifyText
  rw [String.toList_ofList, String.toList_ofList, String.toList_ofList,
    unify_flatMap_escapeTextChar]

theorem cr_not_mem_name {name : String} (h : Reader.isName name.toList = true) :
    '\r' ∉ name.toList :=
  fun hmem => absurd (Reader.isNameChar_of_mem h _ hmem) (by decide)

theorem cr_not_mem_escapeAttribute (value : String) : '\r' ∉ (escapeAttribute value).toList := by
  unfold escapeAttribute
  rw [String.toList_ofList]
  intro hmem
  obtain ⟨c, -, hc⟩ := List.mem_flatMap.1 hmem
  unfold escapeAttributeChar at hc
  split at hc
  · exact absurd hc (by decide)
  · exact absurd hc (by decide)
  · exact absurd hc (by decide)
  next hne _ => exact cr_not_mem_escapeTextChar hne hc

theorem cr_not_mem_append {s t : String} (hs : '\r' ∉ s.toList) (ht : '\r' ∉ t.toList) :
    '\r' ∉ (s ++ t).toList := by
  rw [String.toList_append, List.mem_append]
  exact fun h => h.elim hs ht

theorem cr_not_mem_attributesText {attributes : List (String × String)}
    (h : ∀ a ∈ attributes, Reader.isName a.1.toList = true) :
    '\r' ∉ (attributesText attributes).toList := by
  induction attributes with
  | nil => decide
  | cons a attributes ih =>
    have hname := cr_not_mem_name (h a List.mem_cons_self)
    have hrest := ih fun b hb => h b (List.mem_cons_of_mem _ hb)
    unfold attributesText at hrest ⊢
    rw [List.map_cons, String.join_cons]
    refine cr_not_mem_append (cr_not_mem_append (cr_not_mem_append ?_ ?_) (by decide)) hrest
    · exact cr_not_mem_append (cr_not_mem_append (by decide) hname) (by decide)
    · exact cr_not_mem_escapeAttribute a.2

namespace Item

open Reader

variable {deeper margin : String} {lineEnd : List Char}

/-- In the lines of an item, line ends are unified where its texts and comments stand, and what
follows is unified on its own. -/
def IsUnifiedIn (deeper : String) (lineEnd : List Char) (item : Item) : Prop :=
  ∀ (margin : String) (rest : List Char), '\r' ∉ margin.toList →
    unify (lineChars lineEnd (item.lines deeper margin) ++ rest) =
      lineChars lineEnd (item.unified.lines deeper margin) ++ unify rest

theorem isUnifiedIn_comment (hend : '\r' ∉ lineEnd) (text : String) :
    (comment text).IsUnifiedIn deeper lineEnd := by
  intro margin rest hmargin
  have hpre : '\r' ∉ lineEnd ++ (margin ++ "<!--").toList := by
    rw [List.mem_append]
    exact fun h => h.elim hend (cr_not_mem_append hmargin (by decide))
  have hchars : ∀ text rest, lineChars lineEnd ((comment text).lines deeper margin) ++ rest =
      (lineEnd ++ (margin ++ "<!--").toList) ++ (text.toList ++ ('-' :: ['-', '>'] ++ rest)) := by
    intro text rest
    rw [lines, lineChars_singleton]
    simp
  rw [hchars, unify_around hpre (by decide) (by decide), unified, hchars, unifyText,
    String.toList_ofList]

theorem isEmpty_unifyText (text : String) : (unifyText text).isEmpty = text.isEmpty := by
  rw [Bool.eq_iff_iff, String.isEmpty_iff, String.isEmpty_iff, ← String.toList_eq_nil_iff,
    ← String.toList_eq_nil_iff, unifyText, String.toList_ofList, unify_eq_nil_iff]

section Elements

variable {tag : String} {attributes : List (String × String)}

theorem cr_not_mem_opening (htag : isName tag.toList = true)
    (hnames : ∀ a ∈ attributes, isName a.1.toList = true) (hend : '\r' ∉ lineEnd)
    (hmargin : '\r' ∉ margin.toList) :
    '\r' ∉ lineEnd ++ (margin ++ "<" ++ tag ++ attributesText attributes).toList := by
  have hopening : '\r' ∉ (margin ++ "<" ++ tag ++ attributesText attributes).toList :=
    cr_not_mem_append (cr_not_mem_append (cr_not_mem_append hmargin (by decide))
      (cr_not_mem_name htag)) (cr_not_mem_attributesText hnames)
  rw [List.mem_append]
  exact fun h => h.elim hend hopening

theorem isUnifiedIn_leaf (hend : '\r' ∉ lineEnd) (htag : isName tag.toList = true)
    (hnames : ∀ a ∈ attributes, isName a.1.toList = true) (text : String) :
    (element tag attributes text []).IsUnifiedIn deeper lineEnd := by
  intro margin rest hmargin
  have hopening := cr_not_mem_opening htag hnames hend hmargin
  rw [unified, unifiedAll, lines, lines, isEmpty_unifyText]
  cases text.isEmpty with
  | true =>
    simp only [if_true, lineChars_singleton]
    refine unify_append_of_not_mem ?_
    rw [String.toList_append, ← List.append_assoc, List.mem_append]
    exact fun h => h.elim hopening (by decide)
  | false =>
    have hclosing : '\r' ∉ '<' :: ('/' :: tag.toList ++ ['>']) := by
      have htail := cr_not_mem_append (cr_not_mem_append (s := "</") (by decide)
        (cr_not_mem_name htag)) (t := ">") (by decide)
      simpa using htail
    have hpre : '\r' ∉ lineEnd ++
        (margin ++ "<" ++ tag ++ attributesText attributes ++ ">").toList := by
      rw [String.toList_append, ← List.append_assoc, List.mem_append]
      exact fun h => h.elim hopening (by decide)
    have hchars : ∀ escaped : String, ∀ rest, lineChars lineEnd
        [margin ++ "<" ++ tag ++ attributesText attributes ++ ">" ++ escaped ++ "</" ++ tag ++ ">"] ++
          rest = (lineEnd ++ (margin ++ "<" ++ tag ++ attributesText attributes ++ ">").toList) ++
            (escaped.toList ++ ('<' :: ('/' :: tag.toList ++ ['>']) ++ rest)) := by
      intro escaped rest
      rw [lineChars_singleton]
      simp
    simp only [Bool.false_eq_true, if_false]
    rw [hchars, unify_around hpre (by decide) hclosing, unify_escapeText, hchars]

theorem isUnifiedIn_all {items : List Item} (h : ∀ item ∈ items, item.IsUnifiedIn deeper lineEnd)
    (hmargin : '\r' ∉ margin.toList) (rest : List Char) :
    unify (lineChars lineEnd (linesAll deeper margin items) ++ rest) =
      lineChars lineEnd (linesAll deeper margin (unifiedAll items)) ++ unify rest := by
  induction items with
  | nil => rfl
  | cons item items ih =>
    calc unify (lineChars lineEnd (linesAll deeper margin (item :: items)) ++ rest)
      _ = unify (lineChars lineEnd (item.lines deeper margin) ++
            (lineChars lineEnd (linesAll deeper margin items) ++ rest)) := by
          rw [linesAll, lineChars_append, List.append_assoc]
      _ = lineChars lineEnd (item.unified.lines deeper margin) ++
            unify (lineChars lineEnd (linesAll deeper margin items) ++ rest) :=
          h item List.mem_cons_self margin _ hmargin
      _ = lineChars lineEnd (item.unified.lines deeper margin) ++
            (lineChars lineEnd (linesAll deeper margin (unifiedAll items)) ++ unify rest) := by
          rw [ih fun i hi => h i (List.mem_cons_of_mem _ hi)]
      _ = lineChars lineEnd (linesAll deeper margin (unifiedAll (item :: items))) ++ unify rest := by
          rw [unifiedAll, linesAll, lineChars_append, List.append_assoc]

theorem isUnifiedIn_parent (hend : '\r' ∉ lineEnd) (hdeeper : '\r' ∉ deeper.toList)
    (htag : isName tag.toList = true) (hnames : ∀ a ∈ attributes, isName a.1.toList = true)
    {text : String} {child : Item} {children : List Item}
    (h : ∀ item ∈ child :: children, item.IsUnifiedIn deeper lineEnd) :
    (element tag attributes text (child :: children)).IsUnifiedIn deeper lineEnd := by
  intro margin rest hmargin
  have hpre : '\r' ∉ lineEnd ++
      (margin ++ "<" ++ tag ++ attributesText attributes ++ ">").toList := by
    rw [String.toList_append, ← List.append_assoc, List.mem_append]
    exact fun h => h.elim (cr_not_mem_opening htag hnames hend hmargin) (by decide)
  have hpost : '\r' ∉ lineEnd ++ (margin ++ "</" ++ tag ++ ">").toList := by
    have hclosing : '\r' ∉ (margin ++ "</" ++ tag ++ ">").toList :=
      cr_not_mem_append (cr_not_mem_append (cr_not_mem_append hmargin (by decide))
        (cr_not_mem_name htag)) (by decide)
    rw [List.mem_append]
    exact fun h => h.elim hend hclosing
  have hchars : ∀ (child : Item) children text rest,
      lineChars lineEnd ((element tag attributes text (child :: children)).lines deeper margin) ++
        rest = (lineEnd ++ (margin ++ "<" ++ tag ++ attributesText attributes ++ ">").toList) ++
          (lineChars lineEnd (linesAll deeper (margin ++ deeper) (child :: children)) ++
            ((lineEnd ++ (margin ++ "</" ++ tag ++ ">").toList) ++ rest)) := by
    intro child children text rest
    rw [lines, lineChars_cons, lineChars_append, lineChars_singleton, linesAll]
    simp only [List.append_assoc]
  rw [unified, unifiedAll, hchars, hchars, unify_append_of_not_mem hpre,
    isUnifiedIn_all h (cr_not_mem_append hmargin hdeeper), unify_append_of_not_mem hpost, unifiedAll]

end Elements

theorem Proper.isUnifiedIn {item : Item} (h : item.Proper) (hend : '\r' ∉ lineEnd)
    (hdeeper : '\r' ∉ deeper.toList) : item.IsUnifiedIn deeper lineEnd := by
  induction h with
  | comment _ _ => exact isUnifiedIn_comment hend _
  | @element tag attributes text children htag hattributes _ _ _ _ ih =>
    have hnames : ∀ a ∈ attributes, isName a.1.toList = true := fun a ha => (hattributes a ha).1
    cases children with
    | nil => exact isUnifiedIn_leaf hend htag hnames text
    | cons child children => exact isUnifiedIn_parent hend hdeeper htag hnames ih

end Item

theorem hyphen_prefix_unify : ['-'] <+: unify cs ↔ ['-'] <+: cs := by
  fun_cases unify cs with
  | case1 rest => simp [List.cons_prefix_cons]
  | case2 rest _ => simp [List.cons_prefix_cons]
  | case3 c rest _ _ => simp [List.cons_prefix_cons]
  | case4 => rfl

theorem pair_infix_of_unify (h : ['-', '-'] <:+: unify cs) : ['-', '-'] <:+: cs := by
  fun_induction unify cs with
  | case1 rest ih =>
    rcases List.infix_cons_iff.1 h with hfront | h
    · exact absurd (List.cons_prefix_cons.1 hfront).1 (by decide)
    · exact (ih h).trans (List.suffix_append ['\r', '\n'] rest).isInfix
  | case2 rest _ ih =>
    rcases List.infix_cons_iff.1 h with hfront | h
    · exact absurd (List.cons_prefix_cons.1 hfront).1 (by decide)
    · exact (ih h).trans (List.suffix_cons _ rest).isInfix
  | case3 c rest _ _ ih =>
    rcases List.infix_cons_iff.1 h with hfront | h
    · obtain ⟨hc, hfront⟩ := List.cons_prefix_cons.1 hfront
      exact (List.cons_prefix_cons.2 ⟨hc, hyphen_prefix_unify.1 hfront⟩).isInfix
    · exact (ih h).trans (List.suffix_cons _ rest).isInfix
  | case4 => exact h

theorem getLast?_cons_eq_some {d : Char} :
    (c :: cs).getLast? = some d ↔ cs.getLast? = some d ∨ (cs = [] ∧ c = d) := by
  rw [List.getLast?_cons]
  cases hlast : cs.getLast? with
  | none => simp [List.getLast?_eq_none_iff.1 hlast]
  | some e =>
    have hne : cs ≠ [] := by
      rintro rfl
      cases hlast
    simp [hne]

theorem getLast?_of_unify (h : (unify cs).getLast? = some '-') : cs.getLast? = some '-' := by
  fun_induction unify cs with
  | case1 rest ih =>
    rcases getLast?_cons_eq_some.1 h with h | ⟨-, h⟩
    · exact getLast?_cons_eq_some.2 (.inl (getLast?_cons_eq_some.2 (.inl (ih h))))
    · cases h
  | case2 rest _ ih =>
    rcases getLast?_cons_eq_some.1 h with h | ⟨-, h⟩
    · exact getLast?_cons_eq_some.2 (.inl (ih h))
    · cases h
  | case3 c rest _ _ ih =>
    refine getLast?_cons_eq_some.2 ((getLast?_cons_eq_some.1 h).imp ih fun hlast => ?_)
    exact ⟨unify_eq_nil_iff.1 hlast.1, hlast.2⟩
  | case4 => exact h

theorem CommentRule.unify (h : CommentRule cs) : CommentRule (unify cs) :=
  ⟨fun hpair => h.1 (pair_infix_of_unify hpair), fun hlast => h.2 (getLast?_of_unify hlast)⟩

theorem isXmlText_unifyText {text : String} (h : IsXmlText text) : IsXmlText (unifyText text) := by
  intro c hc
  rw [unifyText, String.toList_ofList] at hc
  rcases mem_of_mem_unify hc with hc | rfl
  · exact h c hc
  · decide

theorem unifyText_eq_self_iff {text : String} : unifyText text = text ↔ '\r' ∉ text.toList := by
  rw [← unify_eq_self_iff, ← String.toList_inj, unifyText, String.toList_ofList]

theorem Item.Proper.unified {item : Item} (h : item.Proper) : item.unified.Proper := by
  induction h with
  | @comment text hrule htext =>
    refine .comment ?_ (isXmlText_unifyText htext)
    rw [unifyText, String.toList_ofList]
    exact hrule.unify
  | @element tag attributes text children htag hattributes hnodup htext halone _ ih =>
    refine .element htag hattributes hnodup (isXmlText_unifyText htext) ?_ ?_
    · refine halone.imp (fun h => by rw [h]; rfl) fun h => by rw [h]; rfl
    · rw [unifiedAll_eq_map]
      exact List.forall_mem_map.2 ih

theorem unifyText_documentText {indent : Option String} {root : Item} (hindent : IsBlank indent)
    (h : root.Proper) :
    unifyText (documentText indent root) = documentText indent root.unified := by
  have hend : '\r' ∉ lineEndOf indent := by
    unfold lineEndOf
    split <;> decide
  have hdeeper : '\r' ∉ (indent.getD "").toList := by
    cases indent with
    | none => decide
    | some text =>
      intro hmem
      rcases hindent text rfl _ hmem with h | h <;> cases h
  have hheader : '\r' ∉ header.toList := by decide
  rw [← String.toList_inj, unifyText, String.toList_ofList]
  calc unify (documentText indent root).toList
    _ = header.toList ++
          unify (Item.lineChars (lineEndOf indent) (root.lines (indent.getD "") "") ++ ['\n']) := by
        rw [toList_documentText, unify_append_of_not_mem hheader]
    _ = header.toList ++
          (Item.lineChars (lineEndOf indent) (root.unified.lines (indent.getD "") "") ++ unify ['\n']) := by
        rw [h.isUnifiedIn hend hdeeper "" _ (by decide)]
    _ = (documentText indent root.unified).toList := (toList_documentText indent root.unified).symm

/-- What a processor delivers of a document is what was written, with line ends unified. -/
theorem process_documentText {indent : Option String} {tag text : String}
    {attributes : List (String × String)} {children : List Item} (hindent : IsBlank indent)
    (h : (Item.element tag attributes text children).Proper) :
    process (documentText indent (.element tag attributes text children)) =
      some (Item.element tag attributes text children).unified := by
  rw [process, unifyText_documentText hindent h]
  exact read_documentText hindent h.unified

end TestRun.Xml
