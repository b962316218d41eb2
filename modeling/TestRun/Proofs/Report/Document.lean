import Mathlib.Data.List.Forall2
import TestRun.Proofs.Cause
import TestRun.Proofs.Text.Decimal
import TestRun.Proofs.Xml.RoundTrip
import TestRun.Report.Document
set_option autoImplicit false

namespace TestRun

open Xml Time

theorem isXmlChar_digits {width n : Nat} : ∀ c ∈ Text.digits 10 width n, IsXmlChar c :=
  fun c hc => isXmlChar_digit (Text.isDigit_of_mem_digits c hc)

theorem isXmlText_toString (n : Nat) : IsXmlText (toString n) := by
  intro c hc
  have hdigits : (toString n).toList = Text.decimal n := String.toList_ofList
  rw [hdigits] at hc
  exact isXmlChar_decimal n c hc

theorem isXmlChar_around {cs ds : List Char} {mark : Char} (hcs : ∀ c ∈ cs, IsXmlChar c)
    (hmark : IsXmlChar mark) (hds : ∀ c ∈ ds, IsXmlChar c) :
    ∀ c ∈ cs ++ mark :: ds, IsXmlChar c :=
  List.forall_mem_append.2 ⟨hcs, List.forall_mem_cons.2 ⟨hmark, hds⟩⟩

theorem isXmlText_secondsText (d : Duration) : IsXmlText (secondsText d) := by
  unfold secondsText
  dsimp only
  split
  · decide
  · intro c hc
    rw [String.toList_ofList] at hc
    exact isXmlChar_around (isXmlChar_decimal _) (by decide) isXmlChar_digits c hc

theorem isXmlChar_date (d : CivilDate) : ∀ c ∈ d.text, IsXmlChar c :=
  isXmlChar_around (isXmlChar_around isXmlChar_digits (by decide) isXmlChar_digits) (by decide)
    isXmlChar_digits

theorem isXmlText_readingText (micros : Int) : IsXmlText (readingText micros) := by
  intro c hc
  unfold readingText at hc
  rw [String.toList_ofList] at hc
  refine isXmlChar_around (isXmlChar_around ?_ (by decide) isXmlChar_digits) (by decide)
    isXmlChar_digits c hc
  exact isXmlChar_around (isXmlChar_date _) (by decide) isXmlChar_digits

theorem isXmlText_timestampText {localOffset : Int} {i : Instant} {text : String}
    (h : timestampText localOffset i = .ok text) : IsXmlText text := by
  unfold timestampText at h
  cases hreading : localReading localOffset i with
  | error e =>
    rw [hreading] at h
    cases h
  | ok micros =>
    rw [hreading] at h
    cases h
    exact isXmlText_readingText micros

theorem proper_idComment {id : String}
    (h : CommentRule (cleanComment ("Unique ID: " ++ id)).toList) : (idComment id).Proper :=
  .comment h (isXmlText_cleanComment _)

theorem proper_attribute {name value : String} (hname : Reader.isName name.toList = true)
    (hvalue : IsXmlText value) :
    Reader.isName (name, value).1.toList = true ∧ IsXmlText (name, value).2 :=
  ⟨hname, hvalue⟩

theorem proper_leaf {tag text : String} {attributes : List (String × String)}
    (htag : Reader.isName tag.toList = true)
    (hattributes : ∀ a ∈ attributes, Reader.isName a.1.toList = true ∧ IsXmlText a.2)
    (hnodup : (attributes.map (·.1)).Nodup) (htext : IsXmlText text) :
    (Item.element tag attributes text []).Proper :=
  .element htag hattributes hnodup htext (.inl rfl) (List.forall_mem_nil _)

theorem proper_causeItem {tag : String} (htag : Reader.isName tag.toList = true) (c : Cause) :
    (Verdict.causeItem tag c).Proper := by
  have htype : Reader.isName "type".toList = true ∧ IsXmlText (clean c.typeName) :=
    ⟨by decide, isXmlText_clean _⟩
  unfold Verdict.causeItem
  dsimp only
  split
  · exact proper_leaf htag (List.forall_mem_singleton.2 htype) (by simp) (isXmlText_clean _)
  · refine proper_leaf htag ?_ (by simp) (isXmlText_clean _)
    exact List.forall_mem_cons.2 ⟨proper_attribute (by decide) (isXmlText_clean _),
      List.forall_mem_singleton.2 htype⟩

theorem proper_items (v : Verdict) : ∀ item ∈ v.items, item.Proper := by
  cases v with
  | success => exact List.forall_mem_nil _
  | skipped reason =>
    exact List.forall_mem_singleton.2
      (proper_leaf (by decide) (List.forall_mem_nil _) List.nodup_nil (isXmlText_clean _))
  | failure cause =>
    cases cause with
    | none => exact List.forall_mem_nil _
    | some c => exact List.forall_mem_singleton.2 (proper_causeItem (by decide) c)
  | error cause =>
    cases cause with
    | none => exact List.forall_mem_nil _
    | some c => exact List.forall_mem_singleton.2 (proper_causeItem (by decide) c)

theorem proper_propertyItem (p : String × String) : (propertyItem p).Proper := by
  refine proper_leaf (by decide) ?_ (by simp) (by decide)
  exact List.forall_mem_cons.2 ⟨proper_attribute (by decide) (isXmlText_clean _),
    List.forall_mem_singleton.2 (proper_attribute (by decide) (isXmlText_clean _))⟩

theorem Testcase.proper_item {t : Testcase}
    (h : CommentRule (cleanComment ("Unique ID: " ++ t.id)).toList) : t.item.Proper := by
  refine .element (by decide) ?_ (by simp) (by decide) (.inr rfl) ?_
  · intro a ha
    simp only [List.mem_cons, List.not_mem_nil, or_false] at ha
    rcases ha with rfl | rfl | rfl
    · exact proper_attribute (by decide) (isXmlText_clean _)
    · exact proper_attribute (by decide) (isXmlText_clean _)
    · exact proper_attribute (by decide) (isXmlText_secondsText _)
  · exact List.forall_mem_cons.2 ⟨proper_idComment h, proper_items t.verdict⟩

theorem EngineReport.proper_item {r : EngineReport} {timestamp : String}
    (htimestamp : IsXmlText timestamp)
    (h : CommentRule (cleanComment ("Unique ID: " ++ r.id)).toList)
    (htests : ∀ t ∈ r.testcases, CommentRule (cleanComment ("Unique ID: " ++ t.id)).toList) :
    (r.item timestamp).Proper := by
  refine .element (by decide) ?_ (by simp) (by decide) (.inr rfl) ?_
  · intro a ha
    simp only [List.mem_cons, List.not_mem_nil, or_false] at ha
    rcases ha with rfl | rfl | rfl | rfl | rfl | rfl | rfl | rfl
    · exact proper_attribute (by decide) (isXmlText_clean _)
    · exact proper_attribute (by decide) (isXmlText_toString _)
    · exact proper_attribute (by decide) (isXmlText_toString _)
    · exact proper_attribute (by decide) (isXmlText_toString _)
    · exact proper_attribute (by decide) (isXmlText_toString _)
    · exact proper_attribute (by decide) (isXmlText_clean _)
    · exact proper_attribute (by decide) (isXmlText_secondsText _)
    · exact proper_attribute (by decide) htimestamp
  · have hproperties : (Item.element "properties" [] "" (r.properties.map propertyItem)).Proper := by
      refine .element (by decide) (List.forall_mem_nil _) List.nodup_nil (by decide) (.inr rfl) ?_
      intro item hitem
      obtain ⟨p, -, rfl⟩ := List.mem_map.1 hitem
      exact proper_propertyItem p
    have hcases : ∀ item ∈ r.testcases.map Testcase.item, item.Proper := by
      intro item hitem
      obtain ⟨t, ht, rfl⟩ := List.mem_map.1 hitem
      exact Testcase.proper_item (htests t ht)
    exact List.forall_mem_cons.2 ⟨proper_idComment h,
      List.forall_mem_cons.2 ⟨hproperties, hcases⟩⟩

/-- An element that tells a cause: its message, unless that is empty, its type and all of it. -/
inductive Cause.ToldBy (c : Cause) (tag : String) : Item → Prop
  | silent {text : String} : c.message = "" → c.RenderedAs text →
      ToldBy c tag (.element tag [("type", clean c.typeName)] (clean text) [])
  | message {text : String} : c.message ≠ "" → c.RenderedAs text →
      ToldBy c tag (.element tag [("message", clean c.message), ("type", clean c.typeName)]
        (clean text) [])

inductive Verdict.ToldBy : Verdict → List Item → Prop
  | success : ToldBy .success []
  | skipped {reason : String} :
      ToldBy (.skipped reason) [.element "skipped" [] (clean reason) []]
  | failure {c : Cause} {item : Item} : c.ToldBy "failure" item → ToldBy (.failure (some c)) [item]
  | error {c : Cause} {item : Item} : c.ToldBy "error" item → ToldBy (.error (some c)) [item]
  | bareFailure : ToldBy (.failure none) []
  | bareError : ToldBy (.error none) []

theorem Cause.toldBy_causeItem (c : Cause) (tag : String) :
    c.ToldBy tag (Verdict.causeItem tag c) := by
  have hrender : c.RenderedAs c.render := renderedAs_iff.2 rfl
  unfold Verdict.causeItem
  cases hempty : c.message.isEmpty with
  | true => exact .silent (String.isEmpty_iff.1 hempty) hrender
  | false =>
    refine .message (fun h => ?_) hrender
    rw [h] at hempty
    cases hempty

theorem Verdict.toldBy_items (v : Verdict) : v.ToldBy v.items := by
  cases v with
  | success => exact .success
  | skipped reason => exact .skipped
  | failure cause =>
    cases cause with
    | none => exact .bareFailure
    | some c => exact .failure (c.toldBy_causeItem "failure")
  | error cause =>
    cases cause with
    | none => exact .bareError
    | some c => exact .error (c.toldBy_causeItem "error")

def Testcase.ToldBy (t : Testcase) (item : Item) : Prop :=
  ∃ outcome, t.verdict.ToldBy outcome ∧
    item = .element "testcase"
      [("name", clean t.name), ("classname", clean t.className), ("time", secondsText t.time)] ""
      (.comment (cleanComment ("Unique ID: " ++ t.id)) :: outcome)

namespace EngineReport

variable {r : EngineReport} {indent : Option String} {localOffset : Int} {timestamp : String}

/-- The text of a report is legal, and the reader gets back from it all that the report tells. -/
theorem render_reads_back (htime : timestampText localOffset r.timestamp = .ok timestamp)
    (hindent : IsBlank indent) (hid : CommentRule (cleanComment ("Unique ID: " ++ r.id)).toList)
    (hids : ∀ t ∈ r.testcases, CommentRule (cleanComment ("Unique ID: " ++ t.id)).toList) :
    ∃ text cases, r.render indent localOffset = .ok text ∧ IsXmlText text ∧
      List.Forall₂ Testcase.ToldBy r.testcases cases ∧
      read text = some (.element "testsuite"
        [("name", clean r.name), ("tests", toString r.tests), ("skipped", toString r.skipped),
          ("failures", toString r.failures), ("errors", toString r.errors),
          ("hostname", clean r.hostName), ("time", secondsText r.time), ("timestamp", timestamp)] ""
        (.comment (cleanComment ("Unique ID: " ++ r.id)) ::
          .element "properties" [] "" (r.properties.map fun p =>
            .element "property" [("name", clean p.1), ("value", clean p.2)] "" []) ::
          cases)) := by
  have hproper := proper_item (isXmlText_timestampText htime) hid hids
  have hrender : r.render indent localOffset = .ok (documentText indent (r.item timestamp)) := by
    unfold render
    rw [htime]
    rfl
  refine ⟨_, r.testcases.map Testcase.item, hrender, isXmlText_documentText hindent hproper, ?_,
    read_documentText hindent hproper⟩
  rw [List.forall₂_map_right_iff, List.forall₂_same]
  exact fun t _ => ⟨t.verdict.items, t.verdict.toldBy_items, rfl⟩

/-- Markup, quotes, white space and an illegal character in the texts of a report. -/
theorem render_reads_back_escaped :
    let boom : Cause := ⟨"suite.Boom", "1 < 2 & \"x\"\n", "line\r\n", true⟩
    let t : Testcase := ⟨"e:t-1", "it's <1>", "e", 1500, .failure (some boom)⟩
    let r : EngineReport := ⟨"e", "say \"hi\"", "host", .epoch, 2500, [("k\t", "\x00]]>")], [t]⟩
    timestampText 0 r.timestamp = .ok "1970-01-01T00:00:00" ∧ IsBlank (some " \t") ∧
      CommentRule (cleanComment ("Unique ID: " ++ r.id)).toList ∧
      (∀ t ∈ r.testcases, CommentRule (cleanComment ("Unique ID: " ++ t.id)).toList) ∧
      ∃ text, r.render (some " \t") 0 = .ok text ∧ IsXmlText text ∧
        read text = some (.element "testsuite"
          [("name", "say \"hi\""), ("tests", "1"), ("skipped", "0"), ("failures", "1"),
            ("errors", "0"), ("hostname", "host"), ("time", "0.002"),
            ("timestamp", "1970-01-01T00:00:00")] ""
          [.comment "Unique ID: e",
            .element "properties" [] ""
              [.element "property" [("name", "k\t"), ("value", "&#0;]]>")] "" []],
            .element "testcase" [("name", "it's <1>"), ("classname", "e"), ("time", "0.001")] ""
              [.comment "Unique ID: e:t-1",
                .element "failure" [("message", "1 < 2 & \"x\"\n"), ("type", "suite.Boom")]
                  "suite.Boom: 1 < 2 & \"x\"\n\nline\r\n" []]]) := by
  intro boom t r
  have htime : timestampText 0 r.timestamp = .ok "1970-01-01T00:00:00" := by decide
  have hindent : IsBlank (some " \t") := by
    intro text htext
    cases htext
    simp
  have hid : CommentRule (cleanComment ("Unique ID: " ++ r.id)).toList := by decide
  have hids : ∀ t ∈ r.testcases, CommentRule (cleanComment ("Unique ID: " ++ t.id)).toList :=
    List.forall_mem_singleton.2 (by decide)
  obtain ⟨text, cases, hrender, htext, hcases, hread⟩ :=
    render_reads_back htime hindent hid hids
  have hname : clean r.name = "say \"hi\"" := by decide
  have hhost : clean r.hostName = "host" := by decide
  have hseconds : secondsText r.time = "0.002" := by decide
  have hcomment : cleanComment ("Unique ID: " ++ r.id) = "Unique ID: e" := by decide
  have hkey : clean "k\t" = "k\t" := by decide
  have hvalue : clean "\x00]]>" = "&#0;]]>" := by decide
  have hcounts : toString r.tests = "1" ∧ toString r.skipped = "0" ∧ toString r.failures = "1" ∧
      toString r.errors = "0" := by decide
  obtain ⟨htests, hskipped, hfailures, herrors⟩ := hcounts
  obtain ⟨case, rest, hcase, hrest, rfl⟩ := List.forall₂_cons_left_iff.1 hcases
  obtain rfl := List.forall₂_nil_left_iff.1 hrest
  have htold : case = .element "testcase"
      [("name", "it's <1>"), ("classname", "e"), ("time", "0.001")] ""
      [.comment "Unique ID: e:t-1",
        .element "failure" [("message", "1 < 2 & \"x\"\n"), ("type", "suite.Boom")]
          "suite.Boom: 1 < 2 & \"x\"\n\nline\r\n" []] := by
    obtain ⟨outcome, houtcome, rfl⟩ := hcase
    have hnames : clean t.name = "it's <1>" ∧ clean t.className = "e" ∧
        secondsText t.time = "0.001" ∧
        cleanComment ("Unique ID: " ++ t.id) = "Unique ID: e:t-1" := by decide
    obtain ⟨hcaseName, hclass, htime, hcaseComment⟩ := hnames
    rw [hcaseName, hclass, htime, hcaseComment]
    cases houtcome with
    | failure hitem =>
      cases hitem with
      | silent hmessage => exact absurd hmessage (by decide)
      | message _ hbody =>
        have hmessage : clean boom.message = "1 < 2 & \"x\"\n" := by decide
        have htype : clean boom.typeName = "suite.Boom" := by decide
        have hrendered : clean boom.render = "suite.Boom: 1 < 2 & \"x\"\n\nline\r\n" := by decide
        rw [← Cause.renderedAs_iff.1 hbody, hmessage, htype, hrendered]
  rw [hname, hhost, hseconds, hcomment, htests, hskipped, hfailures, herrors, List.map_singleton,
    hkey, hvalue, htold] at hread
  exact ⟨htime, hindent, hid, hids, text, hrender, htext, hread⟩

end EngineReport

end TestRun
