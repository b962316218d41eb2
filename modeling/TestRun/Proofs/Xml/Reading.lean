import TestRun.Proofs.Xml.Reader
set_option autoImplicit false

namespace TestRun.Xml

theorem CommentRule.tail {c : Char} {cs : List Char} (h : CommentRule (c :: cs)) : CommentRule cs := by
  obtain ⟨hpair, hlast⟩ := h
  refine ⟨fun hin => hpair (hin.trans (List.suffix_cons c cs).isInfix), fun hcs => hlast ?_⟩
  rw [List.getLast?_cons, hcs]
  rfl

theorem CommentRule.ne_of_hyphen {c : Char} {cs : List Char} (h : CommentRule ('-' :: c :: cs)) :
    c ≠ '-' := by
  rintro rfl
  exact h.1 (List.prefix_append ['-', '-'] cs).isInfix

namespace Reader

open State

variable {f g : Frame} {outer : List Frame} {rest : List Char}

theorem run_cons {s t : State} {c : Char} (h : s.step c = some t) : s.run (c :: rest) = t.run rest := by
  unfold run
  rw [List.foldlM_cons, h]
  rfl

theorem run_gather {encode : Char → List Char} {state : List Char → State} {cs : List Char}
    (h : ∀ c ∈ cs, ∀ got rest, (state got).run (encode c ++ rest) = (state (got ++ [c])).run rest)
    (got rest : List Char) :
    (state got).run (cs.flatMap encode ++ rest) = (state (got ++ cs)).run rest := by
  induction cs generalizing got with
  | nil => rw [List.flatMap_nil, List.nil_append, List.append_nil]
  | cons c cs ih =>
    rw [List.flatMap_cons, List.append_assoc, h c List.mem_cons_self,
      ih fun d hd => h d (List.mem_cons_of_mem _ hd), List.append_assoc]
    rfl

theorem run_gather_plain {state : List Char → State} {cs : List Char}
    (h : ∀ c ∈ cs, ∀ got, (state got).step c = some (state (got ++ [c]))) (got rest : List Char) :
    (state got).run (cs ++ rest) = (state (got ++ cs)).run rest := by
  have hchar : ∀ c ∈ cs, ∀ got rest,
      (state got).run ([c] ++ rest) = (state (got ++ [c])).run rest :=
    fun c hc got rest => run_cons (h c hc got)
  have hrun := run_gather hchar got rest
  rwa [List.flatMap_singleton'] at hrun

theorem addText_nil (f : Frame) : f.addText [] = f := by
  unfold Frame.addText
  rw [List.append_nil]

theorem addText_addText (f : Frame) (cs ds : List Char) :
    (f.addText cs).addText ds = f.addText (cs ++ ds) := by
  unfold Frame.addText
  rw [List.append_assoc]

theorem step_content {c : Char} (hlt : c ≠ '<') (hamp : c ≠ '&') (hgt : c ≠ '>') :
    (⟨f, outer, .content⟩ : State).step c = some ⟨f.addText [c], outer, .content⟩ := by
  have hend : ¬ ((c = '>' && [']', ']'].isSuffixOf f.text) = true) := by
    rw [decide_eq_false hgt]
    exact Bool.false_ne_true
  change inContent _ _ = _
  unfold inContent
  rw [if_neg hlt, if_neg hamp, if_neg hend]

theorem run_escapeTextChar (c : Char) :
    (⟨f, outer, .content⟩ : State).run (escapeTextChar c ++ rest) =
      (⟨f.addText [c], outer, .content⟩ : State).run rest := by
  unfold escapeTextChar
  split
  · rfl
  · rfl
  · rfl
  · rfl
  · rfl
  · next hamp hlt hgt _ _ => exact run_cons (step_content hlt hamp hgt)

theorem run_escapeText (text : String) :
    (⟨f, outer, .content⟩ : State).run ((escapeText text).toList ++ rest) =
      (⟨f.addText text.toList, outer, .content⟩ : State).run rest := by
  have hchar : ∀ c ∈ text.toList, ∀ got rest,
      (⟨f.addText got, outer, .content⟩ : State).run (escapeTextChar c ++ rest) =
        (⟨f.addText (got ++ [c]), outer, .content⟩ : State).run rest := by
    intro c _ got rest
    rw [← addText_addText]
    exact run_escapeTextChar c
  have hrun := run_gather hchar [] rest
  rw [addText_nil, List.nil_append] at hrun
  unfold escapeText
  rw [String.toList_ofList]
  exact hrun

theorem run_blank {blank : List Char} (h : ∀ c ∈ blank, isSpace c = true) :
    (⟨f, outer, .content⟩ : State).run (blank ++ rest) =
      (⟨f.addText blank, outer, .content⟩ : State).run rest := by
  have hchar : ∀ c ∈ blank, ∀ got,
      (⟨f.addText got, outer, .content⟩ : State).step c =
        some ⟨f.addText (got ++ [c]), outer, .content⟩ := by
    intro c hc got
    rw [← addText_addText]
    have hspace := h c hc
    refine step_content ?_ ?_ ?_ <;> rintro rfl <;> cases hspace
  have hrun := run_gather_plain hchar [] rest
  rwa [addText_nil, List.nil_append] at hrun

/-- What a value has after the escapes is no white space but plain spaces. -/
theorem spaced_eq {c : Char} (hnl : c ≠ '\n') (hcr : c ≠ '\r') (htab : c ≠ '\t') :
    (if isSpace c then ' ' else c) = c := by
  split
  · next h =>
    simp only [isSpace, Bool.or_eq_true, decide_eq_true_eq] at h
    rcases h with ((h | h) | h) | h
    · exact h.symm
    · exact absurd h htab
    · exact absurd h hnl
    · exact absurd h hcr
  · rfl

theorem run_escapeAttributeChar (o : Opening) (name value : List Char) (c : Char) :
    (⟨f, outer, .value o name value⟩ : State).run (escapeAttributeChar c ++ rest) =
      (⟨f, outer, .value o name (value ++ [c])⟩ : State).run rest := by
  unfold escapeAttributeChar
  split
  · rfl
  · rfl
  · rfl
  · next hnl hcr htab =>
    unfold escapeTextChar
    split
    · rfl
    · rfl
    · rfl
    · rfl
    · rfl
    · next hamp hlt _ hquote _ =>
      refine run_cons ?_
      change inValue _ o name value c = _
      unfold inValue
      rw [if_neg hquote, if_neg hlt, if_neg hamp, spaced_eq hnl hcr htab]
      rfl

theorem run_escapeAttribute (o : Opening) (name : List Char) (value : String) :
    (⟨f, outer, .value o name []⟩ : State).run ((escapeAttribute value).toList ++ rest) =
      (⟨f, outer, .value o name value.toList⟩ : State).run rest := by
  have hchar : ∀ c ∈ value.toList, ∀ got rest,
      (⟨f, outer, .value o name got⟩ : State).run (escapeAttributeChar c ++ rest) =
        (⟨f, outer, .value o name (got ++ [c])⟩ : State).run rest :=
    fun c _ got rest => run_escapeAttributeChar o name got c
  have hrun := run_gather hchar [] rest
  unfold escapeAttribute
  rw [String.toList_ofList]
  exact hrun

theorem isNameChar_of_start {c : Char} (h : isNameStart c = true) : isNameChar c = true := by
  unfold isNameChar
  rw [h]
  rfl

theorem isNameChar_of_mem {name : List Char} (h : isName name = true) :
    ∀ c ∈ name, isNameChar c = true := by
  cases name with
  | nil => cases h
  | cons c name =>
    obtain ⟨hc, hname⟩ := (Bool.and_eq_true _ _).mp h
    intro d hd
    rcases List.mem_cons.1 hd with rfl | hd
    · exact isNameChar_of_start hc
    · exact List.all_eq_true.1 hname d hd

theorem run_tag {name : List Char} (h : isName name = true) :
    (⟨f, outer, .angle⟩ : State).run (name ++ rest) = (⟨f, outer, .tag name⟩ : State).run rest := by
  cases name with
  | nil => cases h
  | cons c name =>
    obtain ⟨hc, hname⟩ := (Bool.and_eq_true _ _).mp h
    have hstart : (⟨f, outer, .angle⟩ : State).step c = some ⟨f, outer, .tag [c]⟩ := by
      have hslash : c ≠ '/' := by
        rintro rfl
        cases hc
      have hbang : c ≠ '!' := by
        rintro rfl
        cases hc
      change afterAngle _ _ = _
      unfold afterAngle
      rw [if_neg hslash, if_neg hbang, if_pos hc]
      rfl
    have hchar : ∀ d ∈ name, ∀ got,
        (⟨f, outer, .tag got⟩ : State).step d = some ⟨f, outer, .tag (got ++ [d])⟩ :=
      fun d hd got => if_pos (List.all_eq_true.1 hname d hd)
    rw [List.cons_append, run_cons hstart]
    exact run_gather_plain hchar [c] rest

theorem run_tag_end {c : Char} (h : isNameChar c = false) (name : List Char) :
    (⟨f, outer, .tag name⟩ : State).run (c :: rest) =
      (⟨f, outer, .quoted ⟨name, []⟩⟩ : State).run (c :: rest) := by
  have hstep : (⟨f, outer, .tag name⟩ : State).step c =
      (⟨f, outer, .quoted ⟨name, []⟩⟩ : State).step c := by
    change (if isNameChar c then _ else _) = _
    rw [if_neg (h ▸ Bool.false_ne_true)]
    rfl
  unfold run
  rw [List.foldlM_cons, List.foldlM_cons, hstep]

theorem run_attributeName {name : List Char} (h : isName name = true) (o : Opening) :
    (⟨f, outer, .space o⟩ : State).run (name ++ rest) =
      (⟨f, outer, .attribute o name⟩ : State).run rest := by
  cases name with
  | nil => cases h
  | cons c name =>
    obtain ⟨hc, hname⟩ := (Bool.and_eq_true _ _).mp h
    have hstart : (⟨f, outer, .space o⟩ : State).step c = some ⟨f, outer, .attribute o [c]⟩ :=
      if_pos hc
    have hchar : ∀ d ∈ name, ∀ got, (⟨f, outer, .attribute o got⟩ : State).step d =
        some ⟨f, outer, .attribute o (got ++ [d])⟩ :=
      fun d hd got => if_pos (List.all_eq_true.1 hname d hd)
    rw [List.cons_append, run_cons hstart]
    exact run_gather_plain hchar [c] rest

def attributeChars (a : String × String) : List Char :=
  ' ' :: (a.1.toList ++ '=' :: '"' :: ((escapeAttribute a.2).toList ++ ['"']))

theorem toList_attributesText (attributes : List (String × String)) :
    (attributesText attributes).toList = attributes.flatMap attributeChars := by
  unfold attributesText
  rw [String.toList_join, List.flatMap_map]
  have hchars : (fun a : String × String =>
      (" " ++ a.1 ++ "=\"" ++ escapeAttribute a.2 ++ "\"").toList) = attributeChars := by
    funext a
    simp [attributeChars]
  rw [hchars]

theorem run_attribute {o : Opening} {a : String × String} (hname : isName a.1.toList = true)
    (hnew : a.1 ∉ o.attributes.map (·.1)) :
    (⟨f, outer, .quoted o⟩ : State).run (attributeChars a ++ rest) =
      (⟨f, outer, .quoted ⟨o.tag, o.attributes ++ [a]⟩⟩ : State).run rest := by
  have hspace : (⟨f, outer, .quoted o⟩ : State).step ' ' = some ⟨f, outer, .space o⟩ := rfl
  have hequals : (⟨f, outer, .attribute o a.1.toList⟩ : State).step '=' =
      some ⟨f, outer, .equals o a.1.toList⟩ := rfl
  have hopen : (⟨f, outer, .equals o a.1.toList⟩ : State).step '"' =
      some ⟨f, outer, .value o a.1.toList []⟩ := rfl
  have hclose : (⟨f, outer, .value o a.1.toList a.2.toList⟩ : State).step '"' =
      some ⟨f, outer, .quoted ⟨o.tag, o.attributes ++ [a]⟩⟩ := by
    change (if String.ofList a.1.toList ∈ o.attributes.map (·.1) then none else _) = _
    rw [String.ofList_toList, if_neg hnew, String.ofList_toList]
    rfl
  calc (⟨f, outer, .quoted o⟩ : State).run (attributeChars a ++ rest)
    _ = (⟨f, outer, .attribute o a.1.toList⟩ : State).run
          ('=' :: '"' :: ((escapeAttribute a.2).toList ++ '"' :: rest)) := by
        unfold attributeChars
        rw [List.cons_append, run_cons hspace, List.append_assoc, run_attributeName hname,
          List.cons_append, List.cons_append, List.append_assoc, List.singleton_append]
    _ = (⟨f, outer, .value o a.1.toList []⟩ : State).run
          ((escapeAttribute a.2).toList ++ '"' :: rest) := by
        rw [run_cons hequals, run_cons hopen]
    _ = (⟨f, outer, .value o a.1.toList a.2.toList⟩ : State).run ('"' :: rest) :=
        run_escapeAttribute o a.1.toList a.2
    _ = (⟨f, outer, .quoted ⟨o.tag, o.attributes ++ [a]⟩⟩ : State).run rest := run_cons hclose

theorem run_attributes {attributes : List (String × String)} {o : Opening}
    (hnames : ∀ a ∈ attributes, isName a.1.toList = true)
    (hnodup : ((o.attributes ++ attributes).map (·.1)).Nodup) :
    (⟨f, outer, .quoted o⟩ : State).run (attributes.flatMap attributeChars ++ rest) =
      (⟨f, outer, .quoted ⟨o.tag, o.attributes ++ attributes⟩⟩ : State).run rest := by
  induction attributes generalizing o with
  | nil => rw [List.flatMap_nil, List.nil_append, List.append_nil]
  | cons a attributes ih =>
    have hnew : a.1 ∉ o.attributes.map (·.1) := by
      rw [List.map_append, List.map_cons] at hnodup
      intro hmem
      exact (List.nodup_append.1 hnodup).2.2 _ hmem _ List.mem_cons_self rfl
    have hrest : ((o.attributes ++ [a] ++ attributes).map (·.1)).Nodup := by
      rw [List.append_assoc]
      exact hnodup
    rw [List.flatMap_cons, List.append_assoc, run_attribute (hnames a List.mem_cons_self) hnew,
      ih (fun b hb => hnames b (List.mem_cons_of_mem _ hb)) hrest, List.append_assoc]
    rfl

theorem run_opening {tag : List Char} {attributes : List (String × String)} {c : Char}
    (htag : isName tag = true) (hnames : ∀ a ∈ attributes, isName a.1.toList = true)
    (hnodup : (attributes.map (·.1)).Nodup) (hc : isNameChar c = false) :
    (⟨f, outer, .content⟩ : State).run
        ('<' :: (tag ++ (attributes.flatMap attributeChars ++ c :: rest))) =
      (⟨f, outer, .quoted ⟨tag, attributes⟩⟩ : State).run (c :: rest) := by
  have hangle : (⟨f, outer, .content⟩ : State).step '<' = some ⟨f, outer, .angle⟩ := rfl
  have hquoted : (⟨f, outer, .tag tag⟩ : State).run (attributes.flatMap attributeChars ++ c :: rest) =
      (⟨f, outer, .quoted ⟨tag, []⟩⟩ : State).run (attributes.flatMap attributeChars ++ c :: rest) := by
    cases attributes with
    | nil => exact run_tag_end hc tag
    | cons a attributes => exact run_tag_end rfl tag
  rw [run_cons hangle, run_tag htag, hquoted]
  exact run_attributes hnames hnodup

variable {tag : String} {attributes : List (String × String)}

theorem run_startTag (htag : isName tag.toList = true)
    (hnames : ∀ a ∈ attributes, isName a.1.toList = true)
    (hnodup : (attributes.map (·.1)).Nodup) :
    (⟨f, outer, .content⟩ : State).run
        (("<" ++ tag ++ attributesText attributes ++ ">").toList ++ rest) =
      (⟨⟨⟨tag.toList, attributes⟩, [], []⟩, f :: outer, .content⟩ : State).run rest := by
  have hend : (⟨f, outer, .quoted ⟨tag.toList, attributes⟩⟩ : State).step '>' =
      some ⟨⟨⟨tag.toList, attributes⟩, [], []⟩, f :: outer, .content⟩ := rfl
  have hopening : (⟨f, outer, .content⟩ : State).run
      ('<' :: (tag.toList ++ (attributes.flatMap attributeChars ++ '>' :: rest))) =
        (⟨f, outer, .quoted ⟨tag.toList, attributes⟩⟩ : State).run ('>' :: rest) :=
    run_opening htag hnames hnodup rfl
  rw [run_cons hend] at hopening
  rw [← hopening]
  simp [toList_attributesText]

theorem run_emptyTag (htag : isName tag.toList = true)
    (hnames : ∀ a ∈ attributes, isName a.1.toList = true)
    (hnodup : (attributes.map (·.1)).Nodup) :
    (⟨f, outer, .content⟩ : State).run
        (("<" ++ tag ++ attributesText attributes ++ "/>").toList ++ rest) =
      (⟨f.addChild (.element tag attributes "" []), outer, .content⟩ : State).run rest := by
  have hslash : (⟨f, outer, .quoted ⟨tag.toList, attributes⟩⟩ : State).step '/' =
      some ⟨f, outer, .slash ⟨tag.toList, attributes⟩⟩ := rfl
  have hend : (⟨f, outer, .slash ⟨tag.toList, attributes⟩⟩ : State).step '>' =
      some ⟨f.addChild (.element (String.ofList tag.toList) attributes "" []), outer, .content⟩ := rfl
  have hopening : (⟨f, outer, .content⟩ : State).run
      ('<' :: (tag.toList ++ (attributes.flatMap attributeChars ++ '/' :: '>' :: rest))) =
        (⟨f, outer, .quoted ⟨tag.toList, attributes⟩⟩ : State).run ('/' :: '>' :: rest) :=
    run_opening htag hnames hnodup rfl
  rw [run_cons hslash, run_cons hend, String.ofList_toList] at hopening
  rw [← hopening]
  simp [toList_attributesText]

theorem run_endTag (htag : isName tag.toList = true) (hname : f.opening.tag = tag.toList)
    {item : Item} (hitem : f.close? = some item) :
    (⟨f, g :: outer, .content⟩ : State).run (("</" ++ tag ++ ">").toList ++ rest) =
      (⟨g.addChild item, outer, .content⟩ : State).run rest := by
  have hangle : (⟨f, g :: outer, .content⟩ : State).step '<' = some ⟨f, g :: outer, .angle⟩ := rfl
  have hslash : (⟨f, g :: outer, .angle⟩ : State).step '/' =
      some ⟨f, g :: outer, .closing []⟩ := rfl
  have hchar : ∀ c ∈ tag.toList, ∀ got, (⟨f, g :: outer, .closing got⟩ : State).step c =
      some ⟨f, g :: outer, .closing (got ++ [c])⟩ :=
    fun c hc got => if_pos (isNameChar_of_mem htag c hc)
  have hend : (⟨f, g :: outer, .closing tag.toList⟩ : State).step '>' =
      some ⟨g.addChild item, outer, .content⟩ := by
    change (if tag.toList = f.opening.tag then _ else none) = _
    rw [if_pos hname.symm, hitem]
    rfl
  have hsplit : ("</" ++ tag ++ ">").toList ++ rest = '<' :: '/' :: (tag.toList ++ '>' :: rest) := by
    simp
  calc (⟨f, g :: outer, .content⟩ : State).run (("</" ++ tag ++ ">").toList ++ rest)
    _ = (⟨f, g :: outer, .closing []⟩ : State).run (tag.toList ++ '>' :: rest) := by
        rw [hsplit, run_cons hangle, run_cons hslash]
    _ = (⟨f, g :: outer, .closing tag.toList⟩ : State).run ('>' :: rest) :=
        run_gather_plain hchar [] ('>' :: rest)
    _ = (⟨g.addChild item, outer, .content⟩ : State).run rest := run_cons hend

theorem run_commentChars {cs : List Char} :
    (CommentRule cs → ∀ got, (⟨f, outer, .comment got⟩ : State).run (cs ++ '-' :: '-' :: '>' :: rest) =
      (⟨f.addChild (.comment (String.ofList (got ++ cs))), outer, .content⟩ : State).run rest) ∧
    (CommentRule ('-' :: cs) → ∀ got,
      (⟨f, outer, .hyphen got⟩ : State).run (cs ++ '-' :: '-' :: '>' :: rest) =
        (⟨f.addChild (.comment (String.ofList (got ++ '-' :: cs))), outer, .content⟩ : State).run
          rest) := by
  induction cs with
  | nil =>
    refine ⟨fun _ got => ?_, fun h => absurd rfl h.2⟩
    rw [List.append_nil]
    rfl
  | cons c cs ih =>
    refine ⟨fun h got => ?_, fun h got => ?_⟩
    · by_cases hc : c = '-'
      · subst hc
        have hstep : (⟨f, outer, .comment got⟩ : State).step '-' = some ⟨f, outer, .hyphen got⟩ := rfl
        rw [List.cons_append, run_cons hstep, ih.2 h]
      · have hstep : (⟨f, outer, .comment got⟩ : State).step c =
            some ⟨f, outer, .comment (got ++ [c])⟩ := if_neg hc
        rw [List.cons_append, run_cons hstep, ih.1 h.tail, List.append_assoc]
        rfl
    · have hstep : (⟨f, outer, .hyphen got⟩ : State).step c =
          some ⟨f, outer, .comment (got ++ ['-', c])⟩ := if_neg h.ne_of_hyphen
      rw [List.cons_append, run_cons hstep, ih.1 h.tail.tail, List.append_assoc]
      rfl

theorem run_comment {text : String} (h : CommentRule text.toList) :
    (⟨f, outer, .content⟩ : State).run (("<!--" ++ text ++ "-->").toList ++ rest) =
      (⟨f.addChild (.comment text), outer, .content⟩ : State).run rest := by
  have hopen : (⟨f, outer, .content⟩ : State).run
      ('<' :: '!' :: '-' :: '-' :: (text.toList ++ '-' :: '-' :: '>' :: rest)) =
        (⟨f, outer, .comment []⟩ : State).run (text.toList ++ '-' :: '-' :: '>' :: rest) := rfl
  have hclose : (⟨f, outer, .comment []⟩ : State).run (text.toList ++ '-' :: '-' :: '>' :: rest) =
      (⟨f.addChild (.comment (String.ofList ([] ++ text.toList))), outer, .content⟩ : State).run
        rest := run_commentChars.1 h []
  rw [List.nil_append, String.ofList_toList] at hclose
  rw [← hclose, ← hopen]
  simp

end Reader

end TestRun.Xml
