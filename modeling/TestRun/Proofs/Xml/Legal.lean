import TestRun.Proofs.Xml.Reading
set_option autoImplicit false

namespace TestRun.Xml

open Reader

theorem isXmlChar_of_space {c : Char} (h : isSpace c = true) : IsXmlChar c := by
  simp only [isSpace, Bool.or_eq_true, decide_eq_true_eq] at h
  rcases h with ((rfl | rfl) | rfl) | rfl <;> decide

theorem isXmlChar_of_name {c : Char} (h : isNameChar c = true) : IsXmlChar c := by
  refine .inr (.inr (.inr (.inl ?_)))
  unfold isNameChar isNameStart Char.isAlpha Char.isUpper Char.isLower Char.isDigit at h
  simp only [Bool.or_eq_true, Bool.and_eq_true, decide_eq_true_eq, UInt32.le_iff_toNat_le,
    ge_iff_le] at h
  have hval : c.val.toNat = c.toNat := rfl
  rcases h with (((((h | h) | rfl) | rfl) | h) | rfl) | rfl
  · have hlow : 'A'.val.toNat = 65 := rfl
    have hhigh : 'Z'.val.toNat = 90 := rfl
    omega
  · have hlow : 'a'.val.toNat = 97 := rfl
    have hhigh : 'z'.val.toNat = 122 := rfl
    omega
  · decide
  · decide
  · have hlow : '0'.val.toNat = 48 := rfl
    have hhigh : '9'.val.toNat = 57 := rfl
    omega
  · decide
  · decide

theorem isXmlText_append {s t : String} (hs : IsXmlText s) (ht : IsXmlText t) :
    IsXmlText (s ++ t) := by
  intro c hc
  rw [String.toList_append] at hc
  rcases List.mem_append.1 hc with hc | hc
  · exact hs c hc
  · exact ht c hc

theorem isXmlText_flatMap {encode : Char → List Char} {cs : List Char}
    (h : ∀ c ∈ cs, ∀ d ∈ encode c, IsXmlChar d) : IsXmlText (String.ofList (cs.flatMap encode)) := by
  intro d hd
  rw [String.toList_ofList] at hd
  obtain ⟨c, hc, hdc⟩ := List.mem_flatMap.1 hd
  exact h c hc d hdc

theorem isXmlText_name {name : String} (h : isName name.toList = true) : IsXmlText name :=
  fun c hc => isXmlChar_of_name (isNameChar_of_mem h c hc)

theorem isXmlChar_escapeTextChar {c : Char} (h : IsXmlChar c) :
    ∀ d ∈ escapeTextChar c, IsXmlChar d := by
  have hentities : ∀ entity ∈ ["&amp;", "&lt;", "&gt;", "&quot;", "&apos;"], IsXmlText entity := by
    decide
  unfold escapeTextChar
  split
  · exact hentities "&amp;" (by simp)
  · exact hentities "&lt;" (by simp)
  · exact hentities "&gt;" (by simp)
  · exact hentities "&quot;" (by simp)
  · exact hentities "&apos;" (by simp)
  · exact List.forall_mem_singleton.2 h

theorem isXmlChar_escapeAttributeChar {c : Char} (h : IsXmlChar c) :
    ∀ d ∈ escapeAttributeChar c, IsXmlChar d := by
  have hreferences : ∀ reference ∈ ["&#10;", "&#13;", "&#9;"], IsXmlText reference := by decide
  unfold escapeAttributeChar
  split
  · exact hreferences "&#10;" (by simp)
  · exact hreferences "&#13;" (by simp)
  · exact hreferences "&#9;" (by simp)
  · exact isXmlChar_escapeTextChar h

theorem isXmlText_escapeText {text : String} (h : IsXmlText text) : IsXmlText (escapeText text) :=
  isXmlText_flatMap fun c hc => isXmlChar_escapeTextChar (h c hc)

theorem isXmlText_attributesText {attributes : List (String × String)}
    (h : ∀ a ∈ attributes, isName a.1.toList = true ∧ IsXmlText a.2) :
    IsXmlText (attributesText attributes) := by
  induction attributes with
  | nil => decide
  | cons a attributes ih =>
    obtain ⟨hname, hvalue⟩ := h a List.mem_cons_self
    have hvalue : IsXmlText (escapeAttribute a.2) :=
      isXmlText_flatMap fun c hc => isXmlChar_escapeAttributeChar (hvalue c hc)
    have hrest := ih fun b hb => h b (List.mem_cons_of_mem _ hb)
    unfold attributesText at hrest ⊢
    rw [List.map_cons, String.join_cons]
    refine isXmlText_append ?_ hrest
    refine isXmlText_append (isXmlText_append (isXmlText_append ?_ (by decide)) hvalue) (by decide)
    exact isXmlText_append (by decide) (isXmlText_name hname)

theorem isLegal_iff {c : Char} : isLegal c = true ↔ IsXmlChar c := by
  have hvalid : c.toNat < 0xd800 ∨ (0xdfff < c.toNat ∧ c.toNat < 0x110000) := c.valid
  have htab : '\t'.toNat = 0x9 := rfl
  have hnl : '\n'.toNat = 0xa := rfl
  have hcr : '\r'.toNat = 0xd := rfl
  simp only [isLegal, IsXmlChar, Bool.or_eq_true, Bool.and_eq_true, beq_iff_eq,
    decide_eq_true_eq, ← Char.toNat_inj]
  omega

theorem isXmlChar_digit {c : Char} (h : c.isDigit = true) : IsXmlChar c :=
  isXmlChar_of_name (by
    unfold isNameChar
    rw [h, Bool.or_true]
    rfl)

theorem isXmlChar_decimal (n : Nat) : ∀ c ∈ Text.decimal n, IsXmlChar c :=
  fun _ hc => isXmlChar_digit (Nat.isDigit_of_mem_toDigits (by decide) (by decide) hc)

theorem isXmlChar_cleanChar (c : Char) : ∀ d ∈ cleanChar c, IsXmlChar d := by
  unfold cleanChar
  split
  · next h => exact List.forall_mem_singleton.2 (isLegal_iff.1 h)
  · intro d hd
    rcases List.mem_cons.1 hd with rfl | hd
    · decide
    rcases List.mem_cons.1 hd with rfl | hd
    · decide
    rcases List.mem_append.1 hd with hd | hd
    · exact isXmlChar_decimal _ d hd
    · obtain rfl := List.mem_singleton.1 hd
      decide

theorem isXmlText_clean (s : String) : IsXmlText (clean s) :=
  isXmlText_flatMap fun c _ => isXmlChar_cleanChar c

theorem isXmlChar_splitHyphens {cs : List Char} (h : ∀ c ∈ cs, IsXmlChar c) :
    ∀ c ∈ splitHyphens cs, IsXmlChar c := by
  have hhyphen : IsXmlChar '-' := by decide
  have hspace : IsXmlChar ' ' := by decide
  fun_induction splitHyphens cs with
  | case1 rest ih =>
    have hrest := ih fun c hc => h c (List.mem_cons_of_mem _ (List.mem_cons_of_mem _ hc))
    exact List.forall_mem_cons.2 ⟨hhyphen, List.forall_mem_cons.2 ⟨hspace,
      List.forall_mem_cons.2 ⟨hhyphen, hrest⟩⟩⟩
  | case2 c rest _ ih =>
    have hrest := ih fun d hd => h d (List.mem_cons_of_mem _ hd)
    exact List.forall_mem_cons.2 ⟨h c List.mem_cons_self, hrest⟩
  | case3 => exact h

theorem isXmlText_cleanComment (s : String) : IsXmlText (cleanComment s) := by
  have hclean : ∀ c ∈ s.toList.flatMap cleanChar, IsXmlChar c := by
    intro d hd
    obtain ⟨c, -, hdc⟩ := List.mem_flatMap.1 hd
    exact isXmlChar_cleanChar c d hdc
  have hsplit := isXmlChar_splitHyphens hclean
  intro c hc
  unfold cleanComment at hc
  rw [String.toList_ofList] at hc
  split at hc
  · rcases List.mem_append.1 hc with hc | hc
    · exact hsplit c hc
    · obtain rfl := List.mem_singleton.1 hc
      decide
  · exact hsplit c hc

end TestRun.Xml
