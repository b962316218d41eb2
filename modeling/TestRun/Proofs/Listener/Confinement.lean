import TestRun.Proofs.Listener.Containment
import TestRun.Proofs.Listener.Recalling
set_option autoImplicit false

namespace TestRun

open Files Text

theorem toList_reportFileName (id : String) : (reportFileName id).toList =
    "TEST-".toList ++ (percentEncode id).toList ++ ".xml".toList := by
  unfold reportFileName
  rw [String.toList_append, String.toList_append]

theorem isCodeChar_of_mem_reportFileName {id : String} {c : Char}
    (h : c ∈ (reportFileName id).toList) : isCodeChar c = true := by
  have hfront : "TEST-".toList.all isCodeChar = true := by cbv
  have hback : ".xml".toList.all isCodeChar = true := by cbv
  rw [toList_reportFileName, List.mem_append, List.mem_append] at h
  rcases h with (h | h) | h
  · exact List.all_eq_true.1 hfront c h
  · exact isCodeChar_of_mem_percentEncode h
  · exact List.all_eq_true.1 hback c h

theorem not_mem_reportFileName {c : Char} (hc : isCodeChar c = false) (id : String) :
    c ∉ (reportFileName id).toList := fun h =>
  absurd (isCodeChar_of_mem_reportFileName h) (hc ▸ Bool.false_ne_true)

theorem ofString_reportFileName (id : String) :
    Path.ofString (reportFileName id) = ⟨0, [reportFileName id]⟩ := by
  have hne {s : String} (hs : s.length < 9) :
      CodeText.ofString (reportFileName id) ≠ CodeText.ofString s :=
    fun h => bytes_reportFileName_ne hs id (congrArg CodeText.bytes h)
  exact Path.ofText_of_name
    (fun hmem => not_mem_reportFileName rfl id (CodeText.mem_ofString.1 hmem))
    (hne (by decide)) (hne (by decide))

namespace Writer

variable {directory : Path} {reports more : List EngineReport} {d d' d'' : Disk} {id : String}

/-- What may have become of the files while reports were stored: nothing has changed but the files of
their engines, and no directory is gone. -/
structure Confined (directory : Path) (reports : List EngineReport) (d d' : Disk) : Prop where
  elsewhere : ∀ l, (∀ r ∈ reports, l ≠ fileLocation directory r.id) → d'.get? l = d.get? l
  spares : d.Spares d'

theorem Confined.refl (directory : Path) (d : Disk) : Confined directory [] d d :=
  ⟨fun _ _ => rfl, .refl d⟩

theorem Confined.append (h : Confined directory reports d d')
    (h' : Confined directory more d' d'') : Confined directory (reports ++ more) d d'' := by
  refine ⟨fun l hl => ?_, h.spares.trans h'.spares⟩
  rw [h'.elsewhere l fun r hr => hl r (List.mem_append_right _ hr),
    h.elsewhere l fun r hr => hl r (List.mem_append_left _ hr)]

theorem confined_foldl_store (indent : Option String) (directory : Path) (localOffset : Int)
    (d : Disk) (reports : List EngineReport) : Confined directory reports d
      (reports.foldl (store indent (some directory) localOffset) d) :=
  ⟨fun _ hl => foldl_store_get?_of_forall_ne hl indent localOffset d,
    foldl_store_spares indent _ localOffset d reports⟩

theorem Confined.read (h : Confined directory reports d d') (hother : ∀ r ∈ reports, r.id ≠ id)
    {content : ByteArray} (hread : d.read (directory.child (reportFileName id)) = .ok content) :
    d'.read (directory.child (reportFileName id)) = .ok content := by
  refine Disk.read_mono hread h.spares ?_
  rw [location_file]
  exact h.elsewhere _ fun r hr heq => hother r hr (fileLocation_injective directory heq).symm

namespace Watch

variable {h : Watch}

def WritesTo (h : Watch) (directory : Path) : Prop :=
  ∀ run, h.writer.run? = some run → run.directory? = some directory

theorem Sound.hear_confined (hs : h.Sound) (hdir : h.WritesTo directory) {e : Event}
    (he : ∀ p, e ≠ .planStarted p) : (h.hear e).WritesTo directory ∧
      Confined directory (h.built e) h.surroundings.disk (h.hear e).surroundings.disk := by
  cases hrun : h.writer.run? with
  | none =>
    obtain ⟨hbuilt, hwriter, message, hsurroundings⟩ := hear_idle hrun he
    rw [hbuilt, hsurroundings]
    exact ⟨fun run hlater => hdir run (hwriter ▸ hlater), .refl directory _⟩
  | some run =>
    obtain ⟨x, run', -, -, hnext⟩ := hs.continues hrun he
    have hdirectory := hdir run hrun
    refine ⟨fun later hlater => ?_, ?_⟩
    · rcases hnext.run?_eq with hnone | hsome
      · exact absurd (hnone.symm.trans hlater) nofun
      · obtain rfl := Option.some.inj (hsome.symm.trans hlater)
        exact hnext.moves.directory?_eq.trans hdirectory
    · rw [hnext.moves.disk_eq, hdirectory]
      exact confined_foldl_store _ directory _ _ _

theorem Sound.foldl_hear_confined (hs : h.Sound) (hdir : h.WritesTo directory)
    {later : List Event} (hlater : ∀ e ∈ later, ∀ p, e ≠ .planStarted p) :
    (later.foldl Watch.hear h).WritesTo directory ∧
      Confined directory (h.builds later) h.surroundings.disk
        (later.foldl Watch.hear h).surroundings.disk := by
  induction later generalizing h with
  | nil => exact ⟨hdir, .refl directory _⟩
  | cons e later ih =>
    obtain ⟨hdir', hconfined⟩ := hs.hear_confined hdir (hlater e List.mem_cons_self)
    obtain ⟨hdir'', hrest⟩ :=
      ih (hs.hear e) hdir' fun e' he' => hlater e' (List.mem_cons_of_mem _ he')
    exact ⟨hdir'', hconfined.append hrest⟩

end Watch

/-- Names of report files differ where ids do, give the id back, and are plain names below the
reports directory. From any moment of a run on, whatever is heard of it changes the files of the
engines reported on and nothing else, and so leaves the file of any other engine as it is. -/
theorem report_files_confined (id : String) :
    let name := reportFileName id
    (∀ other, name = reportFileName other → id = other) ∧
    (∃ code, name = "TEST-" ++ code ++ ".xml" ∧ percentDecode? code = some id) ∧
    (∀ c ∈ name.toList, c.isAlphanum = true ∨ c ∈ ['_', '.', '-', '~', '%']) ∧
    '/' ∉ name.toList ∧ '\x00' ∉ name.toList ∧ name ≠ "." ∧ name ≠ ".." ∧
    Path.ofString name = ⟨0, [name]⟩ ∧
    (∀ directory : Path, (directory.child name).location = directory.location ++ [(name : Name)]) ∧
    ∀ (o : Settings) (s : Surroundings) (events later : List Event) (run : Run) (directory : Path),
      (∀ e ∈ later, ∀ p, e ≠ .planStarted p) → (watch o s events).writer.run? = some run →
      run.directory? = some directory →
        let before := watch o s events
        let after := watch o s (events ++ later)
        (∀ l, (∀ r ∈ before.builds later, l ≠ directory.location ++ [(reportFileName r.id : Name)]) →
          after.surroundings.disk.get? l = before.surroundings.disk.get? l) ∧
        ((∀ r ∈ before.builds later, r.id ≠ id) → ∀ content,
          before.surroundings.disk.read (directory.child name) = .ok content →
            after.surroundings.disk.read (directory.child name) = .ok content) := by
  intro name
  refine ⟨fun other h => reportFileName_injective h, ⟨_, rfl, percentDecode?_percentEncode id⟩,
    fun c hc => ?_, not_mem_reportFileName rfl id, not_mem_reportFileName rfl id,
    reportFileName_ne (by decide) id, reportFileName_ne (by decide) id,
    ofString_reportFileName id, fun directory => location_file directory id, ?_⟩
  · have hcode := isCodeChar_of_mem_reportFileName hc
    unfold isCodeChar at hcode
    rwa [Bool.or_eq_true, List.contains_iff_mem] at hcode
  · intro o s events later run directory hlater hrun hdir before after
    have hs : before.Sound := Watch.sound_watch o s events
    have hwrites : before.WritesTo directory := by
      intro run' hrun'
      obtain rfl := Option.some.inj (hrun.symm.trans hrun')
      exact hdir
    obtain ⟨-, hconfined⟩ := hs.foldl_hear_confined hwrites hlater
    rw [← watch_append] at hconfined
    exact ⟨hconfined.elsewhere, fun hother _ hread => hconfined.read hother hread⟩

/-- One engine's id reads as a path, and the other one's id as the percent code of it. The report on
the second engine leaves that on the first as it is. -/
theorem report_files_confined_quoted :
    let o : Settings := ⟨.ofString "out", none, [], false, none⟩
    let s : Surroundings := { Surroundings.bare (.fixed .epoch) with
      disk := ⟨[(["out"], .directory)], .lax⟩ }
    let first : Identifier := ⟨"../a", "a", none, .engine⟩
    let second : Identifier := ⟨"..%2Fa", "b", none, .engine⟩
    let events : List Event := [.planStarted (.ofList 1 [first, second]),
      .finished first ⟨.successful, none⟩]
    let later : List Event := [.finished second ⟨.successful, none⟩, .planFinished none]
    let file : Path := ⟨0, ["out", "TEST-..%2Fa.xml"]⟩
    (∀ e ∈ later, ∀ p, e ≠ .planStarted p) ∧
      ∃ content, (watch o s events).surroundings.disk.read file = .ok content ∧
        (watch o s (events ++ later)).surroundings.disk.read file = .ok content := by
  intro o s first second events later file
  have hlater : ∀ e ∈ later, ∀ p, e ≠ .planStarted p := by
    intro e he p
    rcases List.mem_pair.1 he with rfl | rfl <;> nofun
  have hs (n : Nat) : s.clock.Lasts true n := (Time.Clock.fixed_reliable .epoch).lasts n
  have hopened : (o.opened s.disk).1 = some ⟨0, ["out"]⟩ := rfl
  have hfile : (Path.child ⟨0, ["out"]⟩ (reportFileName first.id)) = file := by cbv
  -- the first report is written
  have htimestamp : Time.timestampText 0 .epoch = .ok "1970-01-01T00:00:00" := by cbv
  obtain ⟨content, hwritten⟩ := read_of_first_end (o := o) (hs 2) rfl rfl
    (p := .ofList 1 [first, second]) (i := first) (by decide) ⟨.successful, none⟩
    (show o.path? = some ⟨0, ["out"]⟩ from rfl) rfl
    ⟨by decide, by decide, rfl⟩ (fun _ => ⟨by decide, rfl, rfl⟩) htimestamp
  rw [hfile] at hwritten
  -- the run goes on in the same directory
  have hopen : Watch.Opens ⟨.fresh o, s, none⟩ (.ofList 1 [first, second]) .epoch _ _ :=
    Watch.hear_opens rfl rfl _
  have hwrites : (watch o s [.planStarted (.ofList 1 [first, second])]).WritesTo ⟨0, ["out"]⟩ := by
    intro run hrun
    obtain rfl := Option.some.inj ((congrArg run? hopen.writer_eq).symm.trans hrun)
    exact hopened
  have hgoes : ∀ e ∈ [Event.finished first ⟨.successful, none⟩], ∀ p, e ≠ .planStarted p := by
    intro e he p
    rw [List.mem_singleton.1 he]
    rintro ⟨⟩
  obtain ⟨hdir, -⟩ := (Watch.sound_watch o s [.planStarted (.ofList 1 [first, second])])
    |>.foldl_hear_confined hwrites hgoes
  rw [← watch_append, List.singleton_append] at hdir
  have ht : (watch o s events).Traced o s.host true (spanOf events) 0 := Watch.traced_watch o (hs 2)
  obtain ⟨x, hx, hspan⟩ := Option.map_eq_some_iff.1 ht.span_eq
  obtain ⟨run, hrun⟩ : ∃ run, (watch o s events).writer.run? = some run := by
    cases hrun : (watch o s events).writer.run? with
    | some run => exact ⟨run, rfl⟩
    | none =>
      have hclosed := ht.sound.idle hrun x hx
      rw [hspan] at hclosed
      cases hclosed
  -- and it builds one report on each engine
  obtain ⟨y, hy, hreports⟩ := ht.sound.reports_eq hx hlater
  rw [← watch_append] at hy
  have hmem : first.id ∈ x.reports.map (·.id) := by
    refine ((ht.kept x hx).accounted.mem_iff first.id).2 ?_
    rw [hspan]
    decide
  have ht' : (watch o s (events ++ later)).Traced o s.host true (spanOf (events ++ later)) 0 :=
    Watch.traced_watch o (hs 4)
  have hnodup' := (ht'.kept y hy).accounted.nodup
  rw [hreports, List.map_append, List.nodup_append] at hnodup'
  have hother : ∀ r ∈ (watch o s events).builds later, r.id ≠ first.id := fun r hr heq =>
    hnodup'.2.2 _ hmem _ (List.mem_map_of_mem hr) heq.symm
  obtain ⟨-, -, -, -, -, -, -, -, -, hfiles⟩ := report_files_confined first.id
  have hkept := (hfiles o s events later run ⟨0, ["out"]⟩ hlater hrun (hdir run hrun)).2 hother
  rw [hfile] at hkept
  exact ⟨hlater, _, hwritten, hkept _ hwritten⟩

end Writer

end TestRun
