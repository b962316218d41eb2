import TestRun.Proofs.Files.Directories
import TestRun.Proofs.Files.Names
import TestRun.Proofs.Listener.Reports
import TestRun.Proofs.Text.Percent
set_option autoImplicit false

namespace TestRun

open Files Text

theorem reportFileName_injective : Function.Injective reportFileName := by
  intro id id' h
  unfold reportFileName at h
  exact percentEncode_injective
    ((String.append_right_inj _).1 ((String.append_left_inj _).1 h))

theorem length_reportFileName (id : String) : 9 ≤ (reportFileName id).length := by
  have hfront : "TEST-".length = 5 := rfl
  have hback : ".xml".length = 4 := rfl
  unfold reportFileName
  rw [String.length_append, String.length_append]
  omega

theorem reportFileName_ne {s : String} (hs : s.length < 9) (id : String) : reportFileName id ≠ s :=
  fun h => absurd (h ▸ length_reportFileName id) (Nat.not_le.2 hs)

theorem bytes_reportFileName_ne {s : String} (hs : s.length < 9) (id : String) :
    (CodeText.ofString (reportFileName id)).bytes ≠ (CodeText.ofString s).bytes :=
  fun h => reportFileName_ne hs id (CodeText.bytes_ofString_injective h)

theorem reportFileName_ne_up (id : String) :
    (CodeText.ofString (reportFileName id)).bytes ≠ Location.up :=
  bytes_reportFileName_ne (by decide) id

namespace Writer

def fileLocation (directory : Path) (id : String) : Location :=
  directory.location ++ [(reportFileName id : Name)]

variable {directory : Path} {indent : Option String} {localOffset : Int} {d d' : Disk}
  {r r' : EngineReport} {reports : List EngineReport} {id id' : String} {l : Location}

theorem location_file (directory : Path) (id : String) :
    (directory.child (reportFileName id)).location = fileLocation directory id :=
  Path.location_child (reportFileName_ne_up id)

theorem fileLocation_injective (directory : Path) :
    Function.Injective (fileLocation directory) := by
  intro id id' h
  exact reportFileName_injective
    (CodeText.bytes_ofString_injective (List.head_eq_of_cons_eq (List.append_cancel_left h)))

theorem eq_of_fileLocation_isPrefix (h : fileLocation directory id <+: fileLocation directory id') :
    id = id' := by
  have hlength : (fileLocation directory id).length = (fileLocation directory id').length := by
    unfold fileLocation
    rw [List.length_append, List.length_append]
    rfl
  exact fileLocation_injective directory (h.eq_of_length hlength)

theorem stored_of_render {text : String} (h : r.render indent localOffset = .ok text) (path : Path)
    (d : Disk) : stored indent path r localOffset d =
      ((d.write path text.toUTF8).1.mapError .file, (d.write path text.toUTF8).2) := by
  unfold stored
  rw [h]

theorem stored_eq_ok {path : Path} (h : (stored indent path r localOffset d).1 = .ok ()) :
    ∃ text, r.render indent localOffset = .ok text ∧ (d.write path text.toUTF8).1 = .ok () ∧
      (stored indent path r localOffset d).2 = (d.write path text.toUTF8).2 := by
  cases htext : r.render indent localOffset with
  | error e =>
    unfold stored at h
    rw [htext] at h
    cases h
  | ok text =>
    rw [stored_of_render htext] at h ⊢
    refine ⟨text, rfl, ?_, rfl⟩
    cases hwrite : (d.write path text.toUTF8).1 with
    | error e =>
      rw [hwrite] at h
      cases h
    | ok _ => rfl

theorem store_cases (indent : Option String) (directory? : Option Path) (localOffset : Int)
    (d : Disk) (r : EngineReport) :
    store indent directory? localOffset d r = d ∨
      ∃ directory text, directory? = some directory ∧ r.render indent localOffset = .ok text ∧
        store indent directory? localOffset d r =
          (d.write (directory.child (reportFileName r.id)) text.toUTF8).2 := by
  cases directory? with
  | none => exact .inl rfl
  | some directory =>
    unfold store
    dsimp only
    cases htext : r.render indent localOffset with
    | error e =>
      unfold stored
      rw [htext]
      exact .inl rfl
    | ok text =>
      rw [stored_of_render htext]
      exact .inr ⟨directory, text, rfl, rfl, rfl⟩

theorem store_spares (indent : Option String) (directory? : Option Path) (localOffset : Int)
    (d : Disk) (r : EngineReport) : d.Spares (store indent directory? localOffset d r) := by
  rcases store_cases indent directory? localOffset d r with heq | ⟨directory, text, -, -, heq⟩
  · rw [heq]
    exact .refl d
  · rw [heq]
    exact Disk.write_spares d _ _

/-- What the storing of a report may have changed at a location: it may be the engine's file, and
then it holds the text of the report, or a front part of it. -/
def Filed (indent : Option String) (directory : Path) (localOffset : Int) (r : EngineReport)
    (l : Location) (d : Disk) : Prop :=
  l = fileLocation directory r.id ∧ ∃ text n, r.render indent localOffset = .ok text ∧
    d.get? l = some (.file (text.toUTF8.extract 0 n))

theorem store_get? (indent : Option String) (directory : Path) (localOffset : Int) (d : Disk)
    (r : EngineReport) (l : Location) :
    (store indent (some directory) localOffset d r).get? l = d.get? l ∨
      Filed indent directory localOffset r l (store indent (some directory) localOffset d r) := by
  rcases store_cases indent (some directory) localOffset d r with
    heq | ⟨directory', text, hdirectory, htext, heq⟩
  · exact .inl (heq.symm ▸ rfl)
  · cases hdirectory
    rw [heq]
    refine (d.get?_write _ text.toUTF8 l).imp_right fun ⟨hl, n, hheld⟩ => ?_
    exact ⟨hl.trans (location_file directory r.id), text, n, htext, hheld⟩

theorem store_get?_of_ne (h : l ≠ fileLocation directory r.id) (indent : Option String)
    (localOffset : Int) (d : Disk) :
    (store indent (some directory) localOffset d r).get? l = d.get? l :=
  (store_get? indent directory localOffset d r l).resolve_right fun hfiled => h hfiled.1

theorem foldl_store_spares (indent : Option String) (directory? : Option Path)
    (localOffset : Int) (d : Disk) (reports : List EngineReport) :
    d.Spares (reports.foldl (store indent directory? localOffset) d) := by
  induction reports generalizing d with
  | nil => exact .refl d
  | cons r reports ih =>
    exact (store_spares indent directory? localOffset d r).trans (ih _)

theorem foldl_store_none (indent : Option String) (localOffset : Int) (d : Disk)
    (reports : List EngineReport) : reports.foldl (store indent none localOffset) d = d := by
  induction reports generalizing d with
  | nil => rfl
  | cons r reports ih => exact ih d

theorem troubles_none (indent : Option String) (localOffset : Int) (d : Disk)
    (reports : List EngineReport) : troubles indent none localOffset d reports = "" := by
  induction reports generalizing d with
  | nil => rfl
  | cons r reports ih =>
    rw [troubles, ih, String.append_empty]
    rfl

theorem foldl_store_get? (indent : Option String) (directory : Path) (localOffset : Int)
    (d : Disk) (reports : List EngineReport) (l : Location) :
    (reports.foldl (store indent (some directory) localOffset) d).get? l = d.get? l ∨
      ∃ r ∈ reports, Filed indent directory localOffset r l
        (reports.foldl (store indent (some directory) localOffset) d) := by
  induction reports generalizing d with
  | nil => exact .inl rfl
  | cons r reports ih =>
    rw [List.foldl_cons]
    rcases ih (store indent (some directory) localOffset d r) with hsame | ⟨r', hr', hfiled⟩
    · rcases store_get? indent directory localOffset d r l with hkept | ⟨hl, text, n, htext, hheld⟩
      · exact .inl (hsame.trans hkept)
      · exact .inr ⟨r, List.mem_cons_self, hl, text, n, htext, hsame.trans hheld⟩
    · exact .inr ⟨r', List.mem_cons_of_mem _ hr', hfiled⟩

theorem foldl_store_get?_of_forall_ne (h : ∀ r ∈ reports, l ≠ fileLocation directory r.id)
    (indent : Option String) (localOffset : Int) (d : Disk) :
    (reports.foldl (store indent (some directory) localOffset) d).get? l = d.get? l := by
  refine (foldl_store_get? indent directory localOffset d reports l).resolve_right ?_
  rintro ⟨r, hr, hl, -⟩
  exact h r hr hl

/-- A report that was written is found in its file once all reports had their turn. -/
theorem read_foldl_store {before after : List EngineReport}
    (hnodup : ((before ++ r :: after).map (·.id)).Nodup)
    (hok : (stored indent (directory.child (reportFileName r.id)) r localOffset
      (before.foldl (store indent (some directory) localOffset) d)).1 = .ok ()) :
    ∃ text, r.render indent localOffset = .ok text ∧
      ((before ++ r :: after).foldl (store indent (some directory) localOffset) d).read
        (directory.child (reportFileName r.id)) = .ok text.toUTF8 := by
  obtain ⟨text, htext, hwrite, hstored⟩ := stored_eq_ok hok
  refine ⟨text, htext, ?_⟩
  rw [List.foldl_append, List.foldl_cons]
  have hread := Disk.read_write hwrite
  rw [← hstored] at hread
  refine Disk.read_mono hread (foldl_store_spares _ _ _ _ after) ?_
  rw [location_file]
  refine foldl_store_get?_of_forall_ne (fun r' hr' heq => ?_) indent localOffset _
  rw [List.map_append, List.map_cons] at hnodup
  have hlater := (List.nodup_cons.1 (List.nodup_append.1 hnodup).2.1).1
  exact hlater (List.mem_map.2 ⟨r', hr', (fileLocation_injective directory heq).symm⟩)

/-- The report on an engine can be written to a file of its own, whatever stands elsewhere. -/
structure CanFile (directory : Path) (d : Disk) (id : String) : Prop where
  names : d.Names directory (reportFileName id)
  free : d.get? (fileLocation directory id) ≠ some .directory
  opening : ∀ es, d.policy.open? es (fileLocation directory id) = none
  breaks : ∀ es content, d.policy.breaks? es (fileLocation directory id) content = none

theorem CanFile.mono (h : CanFile directory d id) (hd : d.Spares d')
    (hsame : d'.get? (fileLocation directory id) = d.get? (fileLocation directory id)) :
    CanFile directory d' id := by
  obtain ⟨⟨hpath, hname, hsearch⟩, hfree, hopening, hbreaks⟩ := h
  rw [← hd.policy_eq] at hsearch hopening hbreaks
  exact ⟨⟨hpath, hname, hsearch⟩, hsame ▸ hfree, hopening, hbreaks⟩

theorem stored_ok (hd : d.Reaches directory) {timestamp : String}
    (htime : Time.timestampText localOffset r.timestamp = .ok timestamp)
    (hnames : d.Names directory (reportFileName r.id))
    (htakes : ∀ content, d.Takes (fileLocation directory r.id) content) (indent : Option String) :
    r.render indent localOffset = .ok (Xml.documentText indent (r.item timestamp)) ∧
      (stored indent (directory.child (reportFileName r.id)) r localOffset d).1 = .ok () := by
  have hrender : r.render indent localOffset =
      .ok (Xml.documentText indent (r.item timestamp)) := by
    unfold EngineReport.render
    rw [htime]
    rfl
  refine ⟨hrender, ?_⟩
  rw [stored_of_render hrender, hd.write_child (reportFileName_ne_up r.id) hnames (htakes _)]
  rfl

theorem read_document (hd : d.Reaches directory) (hnodup : (reports.map (·.id)).Nodup)
    (hr : r ∈ reports) {timestamp : String}
    (htime : Time.timestampText localOffset r.timestamp = .ok timestamp)
    (hfile : CanFile directory d r.id) (indent : Option String) :
    (reports.foldl (store indent (some directory) localOffset) d).read
      (directory.child (reportFileName r.id)) =
        .ok (Xml.documentText indent (r.item timestamp)).toUTF8 := by
  obtain ⟨before, after, rfl⟩ := List.append_of_mem hr
  have hspares := foldl_store_spares indent (some directory) localOffset d before
  have hother : ∀ r' ∈ before, fileLocation directory r.id ≠ fileLocation directory r'.id := by
    intro r' hr' heq
    rw [List.map_append] at hnodup
    exact (List.nodup_append.1 hnodup).2.2 _ (List.mem_map_of_mem hr') _
      (List.mem_map_of_mem List.mem_cons_self) (fileLocation_injective directory heq).symm
  have hsame := foldl_store_get?_of_forall_ne hother indent localOffset d
  obtain ⟨hnames, hfree, hopening, hbreaks⟩ := hfile.mono hspares hsame
  obtain ⟨hrender, hok⟩ := stored_ok (hd.mono hspares) htime hnames
    (fun content => ⟨hfree, hopening _, hbreaks _ content⟩) indent
  obtain ⟨text, htext, hread⟩ := read_foldl_store hnodup hok
  rw [hread, Except.ok.inj (htext.symm.trans hrender)]

theorem store_agree {P : Location → Prop} (h : Disk.AgreeOn P d d')
    (hP : ∀ l ∈ directory.origin :: directory.trail, P l) (indent : Option String)
    (localOffset : Int) (r : EngineReport) :
    Disk.AgreeOn P (store indent (some directory) localOffset d r)
      (store indent (some directory) localOffset d' r) := by
  by_cases hfile : P (fileLocation directory r.id)
  · have hway : ∀ l ∈ (directory.child (reportFileName r.id)).origin ::
        (directory.child (reportFileName r.id)).trail, P l := by
      intro l hl
      rw [Path.trail_child (reportFileName_ne_up r.id), ← List.cons_append, List.mem_append,
        List.mem_singleton] at hl
      rcases hl with hl | rfl
      · exact hP l hl
      · exact hfile
    unfold store
    dsimp only
    cases htext : r.render indent localOffset with
    | error e =>
      unfold stored
      rw [htext]
      exact h
    | ok text =>
      rw [stored_of_render htext, stored_of_render htext]
      exact (Disk.write_agree h hway text.toUTF8).2
  · intro l hl
    have hne : l ≠ fileLocation directory r.id := fun heq => hfile (heq ▸ hl)
    rw [store_get?_of_ne hne, store_get?_of_ne hne,
      (store_spares indent (some directory) localOffset d r).policy_eq,
      (store_spares indent (some directory) localOffset d' r).policy_eq]
    exact h l hl

theorem foldl_store_agree {P : Location → Prop} (h : Disk.AgreeOn P d d')
    (hP : ∀ l ∈ directory.origin :: directory.trail, P l) (indent : Option String)
    (localOffset : Int) (reports : List EngineReport) :
    Disk.AgreeOn P (reports.foldl (store indent (some directory) localOffset) d)
      (reports.foldl (store indent (some directory) localOffset) d') := by
  induction reports generalizing d d' with
  | nil => exact h
  | cons r reports ih => exact ih (store_agree h hP indent localOffset r)

end Writer

end TestRun
