import TestRun.Proofs.Xml.Legal
set_option autoImplicit false

namespace TestRun.Xml

namespace Item

open Reader

/-- Names and comments are in order, no character is illegal, and no text stands beside children. -/
inductive Proper : Item → Prop
  | comment {text : String} : CommentRule text.toList → IsXmlText text → Proper (.comment text)
  | element {tag : String} {attributes : List (String × String)} {text : String}
      {children : List Item} : isName tag.toList = true →
      (∀ a ∈ attributes, isName a.1.toList = true ∧ IsXmlText a.2) →
      (attributes.map (·.1)).Nodup → IsXmlText text → (children = [] ∨ text = "") → (∀ item ∈ children, Proper item) →
      Proper (.element tag attributes text children)

def lineChars (lineEnd : List Char) (lines : List String) : List Char :=
  lines.flatMap fun line => lineEnd ++ line.toList

theorem lineChars_cons (lineEnd : List Char) (line : String) (lines : List String) :
    lineChars lineEnd (line :: lines) = lineEnd ++ line.toList ++ lineChars lineEnd lines :=
  List.flatMap_cons

theorem lineChars_append (lineEnd : List Char) (lines more : List String) :
    lineChars lineEnd (lines ++ more) = lineChars lineEnd lines ++ lineChars lineEnd more :=
  List.flatMap_append

theorem lineChars_singleton (lineEnd : List Char) (line : String) :
    lineChars lineEnd [line] = lineEnd ++ line.toList := by
  rw [lineChars_cons]
  exact List.append_nil _

def addLine (gap : List Char) (f : Frame) (item : Item) : Frame := (f.addText gap).addChild item

section Lines

variable {gap : List Char} {items : List Item} {f : Frame}

theorem opening_addLines : (items.foldl (addLine gap) f).opening = f.opening := by
  induction items generalizing f with
  | nil => rfl
  | cons item items ih => exact ih

theorem children_addLines : (items.foldl (addLine gap) f).children = f.children ++ items := by
  induction items generalizing f with
  | nil => exact (List.append_nil _).symm
  | cons item items ih =>
    rw [List.foldl_cons, ih]
    exact List.append_assoc f.children [item] items

theorem text_addLines (hf : ∀ c ∈ f.text, isSpace c = true) (hgap : ∀ c ∈ gap, isSpace c = true) :
    ∀ c ∈ (items.foldl (addLine gap) f).text, isSpace c = true := by
  induction items generalizing f with
  | nil => exact hf
  | cons item items ih =>
    refine ih fun c hc => ?_
    rcases List.mem_append.1 hc with hc | hc
    · exact hf c hc
    · exact hgap c hc

end Lines

variable {deeper margin : String} {lineEnd : List Char}

/-- The reader gets back an item from its lines, behind a line end and a margin. -/
def IsReadFrom (deeper : String) (lineEnd : List Char) (item : Item) : Prop :=
  ∀ (margin : String) (f : Frame) (outer : List Frame) (rest : List Char),
    (∀ c ∈ margin.toList, isSpace c = true) →
    (⟨f, outer, .content⟩ : State).run (lineChars lineEnd (item.lines deeper margin) ++ rest) =
      (⟨addLine (lineEnd ++ margin.toList) f item, outer, .content⟩ : State).run rest

theorem isReadFrom_all {items : List Item} (h : ∀ item ∈ items, item.IsReadFrom deeper lineEnd)
    (hmargin : ∀ c ∈ margin.toList, isSpace c = true) (f : Frame) (outer : List Frame)
    (rest : List Char) :
    (⟨f, outer, .content⟩ : State).run (lineChars lineEnd (linesAll deeper margin items) ++ rest) =
      (⟨items.foldl (addLine (lineEnd ++ margin.toList)) f, outer, .content⟩ : State).run rest := by
  induction items generalizing f with
  | nil => rfl
  | cons item items ih =>
    rw [linesAll, lineChars_append, List.append_assoc,
      h item List.mem_cons_self margin f outer _ hmargin,
      ih fun i hi => h i (List.mem_cons_of_mem _ hi)]
    rfl

theorem isSpace_gap (hend : ∀ c ∈ lineEnd, isSpace c = true)
    (hmargin : ∀ c ∈ margin.toList, isSpace c = true) :
    ∀ c ∈ lineEnd ++ margin.toList, isSpace c = true := by
  intro c hc
  rcases List.mem_append.1 hc with hc | hc
  · exact hend c hc
  · exact hmargin c hc

theorem isReadFrom_comment {text : String} (hend : ∀ c ∈ lineEnd, isSpace c = true)
    (hrule : CommentRule text.toList) : (comment text).IsReadFrom deeper lineEnd := by
  intro margin f outer rest hmargin
  have hchars : lineChars lineEnd ((comment text).lines deeper margin) ++ rest =
      (lineEnd ++ margin.toList) ++ (("<!--" ++ text ++ "-->").toList ++ rest) := by
    rw [lines, lineChars_singleton]
    simp
  rw [hchars, run_blank (isSpace_gap hend hmargin), run_comment hrule]
  rfl

section Elements

variable {tag : String} {attributes : List (String × String)}

theorem isReadFrom_leaf (hend : ∀ c ∈ lineEnd, isSpace c = true) (htag : isName tag.toList = true)
    (hnames : ∀ a ∈ attributes, isName a.1.toList = true) (hnodup : (attributes.map (·.1)).Nodup)
    (text : String) : (element tag attributes text []).IsReadFrom deeper lineEnd := by
  intro margin f outer rest hmargin
  have hgap := isSpace_gap hend hmargin
  cases hempty : text.isEmpty with
  | true =>
    have hchars : lineChars lineEnd ((element tag attributes text []).lines deeper margin) ++ rest =
        (lineEnd ++ margin.toList) ++
          (("<" ++ tag ++ attributesText attributes ++ "/>").toList ++ rest) := by
      simp only [lines, hempty, if_true]
      rw [lineChars_singleton]
      simp
    rw [hchars, run_blank hgap, run_emptyTag htag hnames hnodup, String.isEmpty_iff.1 hempty]
    rfl
  | false =>
    have hchars : lineChars lineEnd ((element tag attributes text []).lines deeper margin) ++ rest =
        (lineEnd ++ margin.toList) ++
          (("<" ++ tag ++ attributesText attributes ++ ">").toList ++
            ((escapeText text).toList ++ (("</" ++ tag ++ ">").toList ++ rest))) := by
      simp only [lines, hempty, Bool.false_eq_true, if_false]
      rw [lineChars_singleton]
      simp
    have hclose : (Frame.addText ⟨⟨tag.toList, attributes⟩, [], []⟩ text.toList).close? =
        some (element tag attributes text []) := by
      change some (element (String.ofList tag.toList) attributes (String.ofList text.toList) []) = _
      rw [String.ofList_toList, String.ofList_toList]
    rw [hchars, run_blank hgap, run_startTag htag hnames hnodup, run_escapeText,
      run_endTag htag rfl hclose]
    rfl

theorem isReadFrom_parent (hend : ∀ c ∈ lineEnd, isSpace c = true)
    (hdeeper : ∀ c ∈ deeper.toList, isSpace c = true) (htag : isName tag.toList = true)
    (hnames : ∀ a ∈ attributes, isName a.1.toList = true) (hnodup : (attributes.map (·.1)).Nodup)
    {child : Item} {children : List Item}
    (h : ∀ item ∈ child :: children, item.IsReadFrom deeper lineEnd) :
    (element tag attributes "" (child :: children)).IsReadFrom deeper lineEnd := by
  intro margin f outer rest hmargin
  have hgap := isSpace_gap hend hmargin
  have hinner : ∀ c ∈ (margin ++ deeper).toList, isSpace c = true := by
    rw [String.toList_append]
    exact isSpace_gap hmargin hdeeper
  have hchars : lineChars lineEnd ((element tag attributes "" (child :: children)).lines deeper
      margin) ++ rest =
        (lineEnd ++ margin.toList) ++
          (("<" ++ tag ++ attributesText attributes ++ ">").toList ++
            (lineChars lineEnd (linesAll deeper (margin ++ deeper) (child :: children)) ++
              ((lineEnd ++ margin.toList) ++ (("</" ++ tag ++ ">").toList ++ rest)))) := by
    rw [lines, lineChars_cons, lineChars_append, lineChars_singleton, linesAll]
    simp
  let inner : Frame := (child :: children).foldl (addLine (lineEnd ++ (margin ++ deeper).toList))
    ⟨⟨tag.toList, attributes⟩, [], []⟩
  have hopening : inner.opening = ⟨tag.toList, attributes⟩ := opening_addLines
  have hchildren : inner.children = child :: children := children_addLines
  have htext : ∀ c ∈ inner.text, isSpace c = true :=
    text_addLines (List.forall_mem_nil _) (isSpace_gap hend hinner)
  have hclose : (inner.addText (lineEnd ++ margin.toList)).close? =
      some (element tag attributes "" (child :: children)) := by
    have hblank : (inner.text ++ (lineEnd ++ margin.toList)).all isSpace = true := by
      refine List.all_eq_true.2 fun c hc => ?_
      rcases List.mem_append.1 hc with hc | hc
      · exact htext c hc
      · exact hgap c hc
    unfold Frame.close? Frame.addText
    dsimp only
    rw [hchildren]
    dsimp only
    rw [if_pos hblank, hopening, String.ofList_toList]
  have hname : (inner.addText (lineEnd ++ margin.toList)).opening.tag = tag.toList :=
    congrArg Opening.tag hopening
  let closing := ("</" ++ tag ++ ">").toList ++ rest
  rw [hchars]
  calc (⟨f, outer, .content⟩ : State).run _
    _ = (⟨⟨⟨tag.toList, attributes⟩, [], []⟩, f.addText (lineEnd ++ margin.toList) :: outer,
          .content⟩ : State).run
            (lineChars lineEnd (linesAll deeper (margin ++ deeper) (child :: children)) ++
              ((lineEnd ++ margin.toList) ++ closing)) := by
        rw [run_blank hgap, run_startTag htag hnames hnodup]
    _ = (⟨inner, f.addText (lineEnd ++ margin.toList) :: outer, .content⟩ : State).run
          ((lineEnd ++ margin.toList) ++ closing) := isReadFrom_all h hinner _ _ _
    _ = (⟨inner.addText (lineEnd ++ margin.toList), f.addText (lineEnd ++ margin.toList) :: outer,
          .content⟩ : State).run closing := run_blank hgap
    _ = _ := run_endTag htag hname hclose

end Elements

theorem Proper.isReadFrom {item : Item} (h : item.Proper)
    (hend : ∀ c ∈ lineEnd, isSpace c = true) (hdeeper : ∀ c ∈ deeper.toList, isSpace c = true) :
    item.IsReadFrom deeper lineEnd := by
  induction h with
  | comment hrule _ => exact isReadFrom_comment hend hrule
  | @element tag attributes text children htag hattributes hnodup _ htext _ ih =>
    have hnames : ∀ a ∈ attributes, isName a.1.toList = true := fun a ha => (hattributes a ha).1
    cases children with
    | nil => exact isReadFrom_leaf hend htag hnames hnodup text
    | cons child children =>
      obtain rfl := htext.resolve_left (List.cons_ne_nil _ _)
      exact isReadFrom_parent hend hdeeper htag hnames hnodup ih

theorem mem_linesAll {items : List Item} {line : String} :
    line ∈ linesAll deeper margin items ↔ ∃ item ∈ items, line ∈ item.lines deeper margin := by
  induction items with
  | nil => simp [linesAll]
  | cons item items ih => simp [linesAll, ih]

theorem Proper.isXmlText_lines {item : Item} (h : item.Proper) (hdeeper : IsXmlText deeper) :
    ∀ margin, IsXmlText margin → ∀ line ∈ item.lines deeper margin, IsXmlText line := by
  induction h with
  | @comment text _ htext =>
    intro margin hmargin line hline
    rw [lines] at hline
    obtain rfl := List.mem_singleton.1 hline
    have hopen := isXmlText_append hmargin (t := "<!--") (by decide)
    exact isXmlText_append (isXmlText_append hopen htext) (by decide)
  | @element tag attributes text children htag hattributes _ htext _ _ ih =>
    intro margin hmargin line hline
    have hname := isXmlText_name htag
    have hopen : IsXmlText (margin ++ "<" ++ tag ++ attributesText attributes) :=
      isXmlText_append (isXmlText_append (isXmlText_append hmargin (by decide)) hname)
        (isXmlText_attributesText hattributes)
    have hstart := isXmlText_append hopen (t := ">") (by decide)
    cases children with
    | nil =>
      simp only [lines] at hline
      split at hline
      · obtain rfl := List.mem_singleton.1 hline
        exact isXmlText_append hopen (by decide)
      · obtain rfl := List.mem_singleton.1 hline
        have hinner := isXmlText_append hstart (isXmlText_escapeText htext)
        have hslash := isXmlText_append hinner (t := "</") (by decide)
        exact isXmlText_append (isXmlText_append hslash hname) (by decide)
    | cons child children =>
      have hinner := isXmlText_append hmargin hdeeper
      rw [lines] at hline
      rcases List.mem_cons.1 hline with rfl | hline
      · exact hstart
      rcases List.mem_append.1 hline with hline | hline
      · change line ∈ linesAll deeper (margin ++ deeper) (child :: children) at hline
        obtain ⟨item, hitem, hline⟩ := mem_linesAll.1 hline
        exact ih item hitem _ hinner line hline
      · obtain rfl := List.mem_singleton.1 hline
        have hslash := isXmlText_append hmargin (t := "</") (by decide)
        exact isXmlText_append (isXmlText_append hslash hname) (by decide)

end Item

theorem intercalate_cons {α : Type} (sep xs : List α) (xss : List (List α)) :
    sep.intercalate (xs :: xss) = xs ++ xss.flatMap (sep ++ ·) := by
  induction xss generalizing xs with
  | nil => simp
  | cons ys xss ih =>
    rw [List.intercalate_cons_cons, ih, List.flatMap_cons, List.append_assoc, List.append_assoc]

def lineEndOf (indent : Option String) : List Char :=
  if (indent.getD "").isEmpty then [] else ['\n']

theorem toList_documentText (indent : Option String) (root : Item) :
    (documentText indent root).toList = header.toList ++
      (Item.lineChars (lineEndOf indent) (root.lines (indent.getD "") "") ++ ['\n']) := by
  have hsep : (if (indent.getD "").isEmpty then "" else "\n").toList = lineEndOf indent := by
    unfold lineEndOf
    split <;> rfl
  let lines := root.lines (indent.getD "") ""
  calc (documentText indent root).toList
    _ = List.intercalate (lineEndOf indent) (header.toList :: lines.map String.toList) ++ ['\n'] := by
        unfold documentText
        rw [String.toList_append, String.toList_intercalate, List.map_cons, hsep]
        rfl
    _ = header.toList ++ (Item.lineChars (lineEndOf indent) lines ++ ['\n']) := by
        unfold Item.lineChars
        rw [intercalate_cons, List.flatMap_map, List.append_assoc]

def IsBlank (indent : Option String) : Prop :=
  ∀ text, indent = some text → ∀ c ∈ text.toList, c = ' ' ∨ c = '\t'

theorem isSpace_lineEndOf (indent : Option String) :
    ∀ c ∈ lineEndOf indent, Reader.isSpace c = true := by
  unfold lineEndOf
  split
  · exact List.forall_mem_nil _
  · exact List.forall_mem_singleton.2 rfl

theorem IsBlank.isSpace {indent : Option String} (h : IsBlank indent) :
    ∀ c ∈ (indent.getD "").toList, Reader.isSpace c = true := by
  cases indent with
  | none => exact List.forall_mem_nil _
  | some text =>
    intro c hc
    rcases h text rfl c hc with rfl | rfl <;> rfl

theorem isXmlText_documentText {indent : Option String} {root : Item} (hindent : IsBlank indent)
    (h : root.Proper) : IsXmlText (documentText indent root) := by
  have hdeeper : IsXmlText (indent.getD "") :=
    fun c hc => isXmlChar_of_space (hindent.isSpace c hc)
  have hlines := h.isXmlText_lines hdeeper "" (by decide)
  intro c hc
  rw [toList_documentText] at hc
  rcases List.mem_append.1 hc with hc | hc
  · have hheader : IsXmlText header := by decide
    exact hheader c hc
  rcases List.mem_append.1 hc with hc | hc
  · obtain ⟨line, hline, hc⟩ := List.mem_flatMap.1 hc
    rcases List.mem_append.1 hc with hc | hc
    · exact isXmlChar_of_space (isSpace_lineEndOf indent c hc)
    · exact hlines line hline c hc
  · obtain rfl := List.mem_singleton.1 hc
    decide

theorem read_documentText {indent : Option String} {tag text : String}
    {attributes : List (String × String)} {children : List Item} (hindent : IsBlank indent)
    (h : (Item.element tag attributes text children).Proper) :
    read (documentText indent (.element tag attributes text children)) =
      some (.element tag attributes text children) := by
  let root : Item := .element tag attributes text children
  let f : Reader.Frame := Item.addLine (lineEndOf indent ++ "".toList) Reader.start.frame root
  have hend := isSpace_lineEndOf indent
  have hbody : Reader.body (documentText indent root).toList =
      Item.lineChars (lineEndOf indent) (root.lines (indent.getD "") "") ++ ['\n'] := by
    rw [toList_documentText]
    rfl
  have hlines : Reader.start.run (Reader.body (documentText indent root).toList) =
      Reader.State.run ⟨f, [], .content⟩ ['\n'] := by
    rw [hbody]
    exact h.isReadFrom hend hindent.isSpace "" Reader.start.frame [] ['\n'] (List.forall_mem_nil _)
  have hmargin : ∀ c ∈ "".toList, Reader.isSpace c = true := List.forall_mem_nil _
  have hblank : (f.text ++ ['\n']).all Reader.isSpace = true := by
    refine List.all_eq_true.2 fun c hc => ?_
    rcases List.mem_append.1 hc with hc | hc
    · exact Item.isSpace_gap hend hmargin c hc
    · obtain rfl := List.mem_singleton.1 hc
      rfl
  unfold read
  rw [hlines]
  exact if_pos hblank

end TestRun.Xml