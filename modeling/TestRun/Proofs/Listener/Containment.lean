import TestRun.Proofs.Listener.Epochs
import TestRun.Proofs.Listener.Filing
import TestRun.Proofs.Listener.Indifference
set_option autoImplicit false

/-!
# Containment of trouble

Whatever the disk holds and refuses, trouble with the reports directory or with the file of an engine
goes to the diagnostics and nowhere else: no event fails, each report that can be written is written,
and what stands at the file of one engine is nothing to the reports of the others.
-/

namespace TestRun.Writer

open Files (Path Disk Location)
open Surroundings (diagnostic)

/-- What became of files and diagnostics in an epoch: there is one diagnostic, if the reports
directory could not be created, and then no report is written; otherwise one for each report that
could not be written in its turn, and each other report is in its file. -/
def Epoch.Contained (x : Epoch) (o : Settings) (path : Path) (s : Surroundings) : Prop :=
  match x.start.disk.makeDirectories path with
  | (.error e, d) => s.disk = d ∧ s.sink = x.start.sink ++
      diagnostic ("Could not create reports directory: " ++ path.text) (.file e)
  | (.ok _, d) => s.sink = x.start.sink ++
      troubles o.indent (some path) s.host.localOffset d x.reports ∧
    ∀ before r after, x.reports = before ++ r :: after →
      (stored o.indent (path.child (reportFileName r.id)) r s.host.localOffset
        (before.foldl (store o.indent (some path) s.host.localOffset) d)).1 = .ok () →
      ∃ text, r.render o.indent s.host.localOffset = .ok text ∧
        s.disk.read (path.child (reportFileName r.id)) = .ok text.toUTF8

/-- What an event may do to a location: the start of a plan may create a directory on the way to the
reports, and other events may write to the files of the reports that they build. -/
def Watch.Touches (h : Watch) (o : Settings) (path : Path) (e : Event) (l : Location) : Prop :=
  ((∃ p, e = .planStarted p) ∧ l ∈ path.trail ∧ h.surroundings.disk.get? l = none ∧
      (h.hear e).surroundings.disk.get? l = some .directory) ∨
    ∃ r ∈ h.built e,
      Filed o.indent path h.surroundings.host.localOffset r l (h.hear e).surroundings.disk

/-- Whether a location is apart from the files of some engines, and from all below them. -/
def Apart (path : Path) (ids : List String) (l : Location) : Prop :=
  ∀ id ∈ ids, ¬ fileLocation path id <+: l

variable {o : Settings} {path : Path} {h h' : Watch} {host : Host} {aware : Bool}
  {span? : Option Span} {n : Nat} {P : Location → Prop}

theorem opened_of_ok (hpath : o.path? = some path) {d made : Disk} {u : Unit}
    (hmake : d.makeDirectories path = (.ok u, made)) :
    o.opened d = (some path, made) ∧ o.openingText d = "" := by
  unfold Settings.opened Settings.openingText
  rw [hpath]
  dsimp only
  rw [hmake]
  exact ⟨rfl, rfl⟩

theorem opened_of_error (hpath : o.path? = some path) {d made : Disk} {e : Files.FileError}
    (hmake : d.makeDirectories path = (.error e, made)) :
    o.opened d = (none, made) ∧ o.openingText d =
      diagnostic ("Could not create reports directory: " ++ path.text) (.file e) := by
  unfold Settings.opened Settings.openingText
  rw [hpath]
  dsimp only
  rw [hmake]
  exact ⟨rfl, rfl⟩

theorem reaches_of_ok {d made : Disk} {u : Unit}
    (hmake : d.makeDirectories path = (.ok u, made)) : made.Reaches path := by
  have hreaches := Disk.makeDirectories_reaches (d := d) (p := path) (by rw [hmake])
  rw [hmake] at hreaches
  exact hreaches

theorem opened_eq_some (hpath : o.path? = some path) {d : Disk} {directory : Path}
    (h : (o.opened d).1 = some directory) : directory = path ∧ (o.opened d).2.Reaches path := by
  rcases hmake : d.makeDirectories path with ⟨_ | u, made⟩
  · rw [(opened_of_error hpath hmake).1] at h
    cases h
  · rw [(opened_of_ok hpath hmake).1] at h ⊢
    exact ⟨(Option.some.inj h).symm, reaches_of_ok hmake⟩

theorem opened_agree (hpath : o.path? = some path) {d d' : Disk} (h : Disk.AgreeOn P d d')
    (htrail : ∀ l ∈ path.origin :: path.trail, P l) :
    (o.opened d').1 = (o.opened d).1 ∧ Disk.AgreeOn P (o.opened d).2 (o.opened d').2 := by
  obtain ⟨hanswer, hagree⟩ := Disk.makeDirectories_agree h htrail
  rcases hmake : d.makeDirectories path with ⟨answer, made⟩
  rcases hmake' : d'.makeDirectories path with ⟨answer', made'⟩
  rw [hmake, hmake'] at hanswer hagree
  obtain rfl : answer = answer' := hanswer
  cases answer with
  | error e =>
    rw [(opened_of_error hpath hmake).1, (opened_of_error hpath hmake').1]
    exact ⟨rfl, hagree⟩
  | ok u =>
    rw [(opened_of_ok hpath hmake).1, (opened_of_ok hpath hmake').1]
    exact ⟨rfl, hagree⟩

theorem Epoch.Kept.contained {x : Epoch} (hk : x.Kept h o host aware)
    (hhost : h.surroundings.host = host) (hpath : o.path? = some path) :
    x.Contained o path h.surroundings := by
  have hdisk := hk.disk_eq
  have hsink := hk.sink_eq
  unfold Epoch.Contained
  rcases hmake : x.start.disk.makeDirectories path with ⟨e | u, made⟩
  · obtain ⟨hopened, htext⟩ := opened_of_error hpath hmake
    rw [hopened] at hdisk hsink
    rw [htext, troubles_none, String.append_empty] at hsink
    exact ⟨hdisk.trans (foldl_store_none _ _ _ _), hsink⟩
  · obtain ⟨hopened, htext⟩ := opened_of_ok hpath hmake
    rw [hopened] at hdisk hsink
    rw [htext, String.append_empty] at hsink
    rw [hhost]
    refine ⟨hsink, fun before r after hreports hok => ?_⟩
    have hnodup := hk.accounted.nodup
    rw [hreports] at hdisk hnodup
    rw [hdisk]
    exact read_foldl_store hnodup hok

namespace Watch

theorem Traced.directory_eq (ht : h.Traced o host aware span? n) (hpath : o.path? = some path)
    {run : Run} (hrun : h.writer.run? = some run) {directory : Path}
    (hdirectory : run.directory? = some directory) : directory = path := by
  obtain ⟨x, hx, -⟩ := ht.sound.running run hrun
  exact (opened_eq_some hpath (((ht.kept x hx).directory run hrun).symm.trans hdirectory)).1

theorem Traced.opens (ht : h.Traced o host aware span? (n + 1)) (hhost : host.isReadable = true)
    (p : Plan) :
    ∃ now rows later, ∀ h' : Watch, h'.writer = h.writer → h.surroundings.Alike h'.surroundings →
      h'.Opens p now rows later := by
  obtain ⟨now, hread, -, -⟩ := ht.clock.read
  obtain ⟨rows, hrows⟩ := Host.properties_of_isReadable (h := h.surroundings.host)
    (ht.host_eq ▸ hhost) h.writer.settings.extra h.writer.settings.withEnvironment
  refine ⟨now, rows, h.surroundings.clock.read.2, fun h' hwriter halike => ?_⟩
  rw [← halike.clock_eq] at hread ⊢
  rw [← hwriter, ← halike.host_eq] at hrows
  exact hear_opens hread hrows p

theorem Traced.disk_hear (ht : h.Traced o host aware span? n) {run : Run}
    (hrun : h.writer.run? = some run) {e : Event} (he : ∀ p, e ≠ .planStarted p) :
    (h.hear e).surroundings.disk =
      (h.built e).foldl (store o.indent run.directory? host.localOffset) h.surroundings.disk := by
  obtain ⟨x, run', -, -, hnext⟩ := ht.sound.continues hrun he
  rw [hnext.moves.disk_eq, ht.settings_eq, ht.host_eq]

theorem Traced.touches (ht : h.Traced o host aware span? (n + 1)) (hhost : host.isReadable = true)
    (hpath : o.path? = some path) (e : Event) (l : Location) :
    (h.hear e).surroundings.disk.get? l = h.surroundings.disk.get? l ∨ h.Touches o path e l := by
  by_cases he : ∃ p, e = .planStarted p
  · obtain ⟨p, rfl⟩ := he
    obtain ⟨now, rows, later, hopens⟩ := ht.opens hhost p
    have hopen := hopens h rfl (.refl _)
    have hdisk : (h.hear (.planStarted p)).surroundings.disk =
        (h.surroundings.disk.makeDirectories path).2 := by
      rw [hopen.disk_eq, ht.settings_eq]
      rcases hmake : h.surroundings.disk.makeDirectories path with ⟨e | u, made⟩
      · rw [(opened_of_error hpath hmake).1]
      · rw [(opened_of_ok hpath hmake).1]
    refine (Disk.makeDirectories_gains h.surroundings.disk path l).imp (fun hsame => ?_)
      fun hgain => ?_
    · rw [hdisk, hsame]
    · obtain ⟨hl, hnone, hdirectory⟩ := hgain
      exact .inl ⟨⟨p, rfl⟩, hl, hnone, hdisk ▸ hdirectory⟩
  · have hother : ∀ p, e ≠ .planStarted p := fun p heq => he ⟨p, heq⟩
    cases hrun : h.writer.run? with
    | none =>
      obtain ⟨-, -, message, hsurroundings⟩ := Watch.hear_idle hrun hother
      rw [hsurroundings]
      exact .inl rfl
    | some run =>
      have hdisk := ht.disk_hear hrun hother
      cases hdirectory : run.directory? with
      | none =>
        rw [hdirectory, foldl_store_none] at hdisk
        exact .inl (congrArg (Disk.get? · l) hdisk)
      | some directory =>
        obtain rfl := ht.directory_eq hpath hrun hdirectory
        rw [hdirectory] at hdisk
        unfold Touches
        rw [hdisk, ht.host_eq]
        exact (foldl_store_get? o.indent directory host.localOffset _ (h.built e) l).imp_right .inr

theorem Traced.quiet_hear (ht : h.Traced o host aware span? (n + 1))
    (hhost : host.isReadable = true) {s : Surroundings}
    (hquiet : h.epoch? = none → s.Quiet h.surroundings) (e : Event)
    (hnone : (h.hear e).epoch? = none) : s.Quiet (h.hear e).surroundings := by
  by_cases he : ∃ p, e = .planStarted p
  · obtain ⟨p, rfl⟩ := he
    obtain ⟨now, rows, later, hopens⟩ := ht.opens hhost p
    have hopen := hopens h rfl (.refl _)
    exact absurd (hopen.epoch?_eq.symm.trans hnone) nofun
  · have hother : ∀ p, e ≠ .planStarted p := fun p heq => he ⟨p, heq⟩
    have hbefore := Option.map_eq_none_iff.1 ((epoch?_hear hother).symm.trans hnone)
    cases hrun : h.writer.run? with
    | some run =>
      obtain ⟨x, hx, -⟩ := ht.sound.running run hrun
      exact absurd (hbefore.symm.trans hx) nofun
    | none =>
      obtain ⟨-, -, message, hsurroundings⟩ := Watch.hear_idle hrun hother
      obtain ⟨c, log, heq⟩ := hquiet hbefore
      exact ⟨c, log.push ⟨.warning, message⟩, by rw [hsurroundings, heq]⟩

theorem Traced.quiet_foldl {events : List Event}
    (ht : h.Traced o host aware span? (n + events.length)) (hhost : host.isReadable = true)
    {s : Surroundings} (hquiet : h.epoch? = none → s.Quiet h.surroundings)
    (hnone : (events.foldl Watch.hear h).epoch? = none) :
    s.Quiet (events.foldl Watch.hear h).surroundings := by
  induction events generalizing h span? with
  | nil => exact hquiet hnone
  | cons e events ih =>
    exact ih (ht.hear e).1 (ht.quiet_hear hhost hquiet e) hnone

end Watch

/-- Two watched writers tell the same of their runs, and their disks are the same at the locations
of a kind. -/
structure Watch.Beside (P : Location → Prop) (h h' : Watch) : Prop where
  writer_eq : h'.writer = h.writer
  alike : h.surroundings.Alike h'.surroundings
  agree : Disk.AgreeOn P h.surroundings.disk h'.surroundings.disk

namespace Watch

theorem Beside.built_eq (hb : h.Beside P h') (e : Event) : h'.built e = h.built e := by
  unfold Watch.built
  rw [hb.writer_eq]
  exact built_alike hb.alike e h.writer

theorem Beside.hear_planStarted (hb : h.Beside P h') (ht : h.Traced o host aware span? (n + 1))
    (hhost : host.isReadable = true) (hpath : o.path? = some path)
    (htrail : ∀ l ∈ path.origin :: path.trail, P l) (p : Plan) :
    (h.hear (.planStarted p)).Beside P (h'.hear (.planStarted p)) := by
  obtain ⟨now, rows, later, hopens⟩ := ht.opens hhost p
  have hopen := hopens h rfl (.refl _)
  have hopen' := hopens h' hb.writer_eq hb.alike
  obtain ⟨hdirectory, hagree⟩ := opened_agree hpath hb.agree htrail
  constructor
  · rw [hopen.writer_eq, hopen'.writer_eq, hb.writer_eq, hb.alike.host_eq, ht.settings_eq,
      hdirectory]
  · constructor
    · rw [hopen.clock_eq, hopen'.clock_eq]
    · rw [hopen.host_eq, hopen'.host_eq, hb.alike.host_eq]
  · rw [hopen.disk_eq, hopen'.disk_eq, hb.writer_eq, ht.settings_eq]
    exact hagree

theorem Beside.hear (hb : h.Beside P h') (ht : h.Traced o host aware span? (n + 1))
    (ht' : h'.Traced o host aware span? (n + 1)) (hhost : host.isReadable = true)
    (hpath : o.path? = some path) (htrail : ∀ l ∈ path.origin :: path.trail, P l) (e : Event) :
    (h.hear e).Beside P (h'.hear e) := by
  by_cases he : ∃ p, e = .planStarted p
  · obtain ⟨p, rfl⟩ := he
    exact hb.hear_planStarted ht hhost hpath htrail p
  have hother : ∀ p, e ≠ .planStarted p := fun p heq => he ⟨p, heq⟩
  obtain ⟨answer, w, t, t', hact, hact', halike⟩ :=
    indifferent_hear hother h.writer h.surroundings h'.surroundings hb.alike
  rw [← hb.writer_eq] at hact'
  obtain ⟨hwriter, hsurroundings⟩ := hear_eq hact
  obtain ⟨hwriter', hsurroundings'⟩ := hear_eq hact'
  rw [← hsurroundings, ← hsurroundings'] at halike
  refine ⟨hwriter'.trans hwriter.symm, halike, ?_⟩
  have hrun_eq : h'.writer.run? = h.writer.run? := congrArg run? hb.writer_eq
  cases hrun : h.writer.run? with
  | none =>
    obtain ⟨-, -, message, hidle⟩ := Watch.hear_idle hrun hother
    obtain ⟨-, -, message', hidle'⟩ := Watch.hear_idle (hrun_eq.trans hrun) hother
    rw [hidle, hidle']
    exact hb.agree
  | some run =>
    have hrun' : h'.writer.run? = some run := hrun_eq.trans hrun
    rw [ht.disk_hear hrun hother, ht'.disk_hear hrun' hother, hb.built_eq]
    cases hdirectory : run.directory? with
    | none =>
      rw [foldl_store_none, foldl_store_none]
      exact hb.agree
    | some directory =>
      obtain rfl := ht.directory_eq hpath hrun hdirectory
      exact foldl_store_agree hb.agree htrail o.indent host.localOffset (h.built e)

theorem Beside.foldl {events : List Event} (hb : h.Beside P h')
    (ht : h.Traced o host aware span? (n + events.length))
    (ht' : h'.Traced o host aware span? (n + events.length)) (hhost : host.isReadable = true)
    (hpath : o.path? = some path) (htrail : ∀ l ∈ path.origin :: path.trail, P l) :
    (events.foldl Watch.hear h).Beside P (events.foldl Watch.hear h') := by
  induction events generalizing h h' span? with
  | nil => exact hb
  | cons e events ih =>
    exact ih (hb.hear ht ht' hhost hpath htrail e) (ht.hear e).1 (ht'.hear e).1

end Watch

theorem apart_fileLocation {ids : List String} {id : String} (hid : id ∉ ids) :
    Apart path ids (fileLocation path id) :=
  fun _ hother hfront => hid (eq_of_fileLocation_isPrefix hfront ▸ hother)

theorem apart_origin (path : Path) (ids : List String) : Apart path ids path.origin := by
  intro id _ hfront
  have hlast : (reportFileName id : Files.Name) ∈ path.origin :=
    hfront.subset (List.mem_append_right _ (List.mem_singleton_self _))
  unfold Path.origin at hlast
  split at hlast
  · cases hlast
  · exact bytes_reportFileName_ne (by decide) id (List.mem_singleton.1 hlast)

/-- A path that never leads up leads to its location past no file of an engine. -/
theorem apart_of_mem_trail {ids : List String} {l : Location} (hdirect : Location.up ∉ path.steps)
    (hl : l ∈ path.trail) : Apart path ids l := by
  intro id _ hfront
  have hfile : (fileLocation path id).length = path.location.length + 1 := List.length_append
  have hshort : l.length ≤ path.location.length := Location.length_of_mem_trail hdirect hl
  have hlong := hfront.length_le
  omega

/-- Trouble with files is told in the diagnostics, once for each directory and each report, and
concerns nothing else: no event fails, nothing but the way to the reports directory and the files
of reports changes, and what stands at the files of some engines is nothing to those of others. -/
theorem trouble_contained {o : Settings} {path : Path} (hpath : o.path? = some path)
    {s : Surroundings} {aware : Bool} (events : List Event)
    (hs : s.clock.Lasts aware (events.length + 1)) (hhost : s.host.isReadable = true) :
    let h := watch o s events
    (∀ e, ((hear e).perform (h.writer, h.surroundings)).1 = .ok ()) ∧
      (∀ p, (h.hear (.planStarted p)).epoch? = some ⟨⟨p, [], false⟩, h.surroundings, []⟩) ∧
      (h.epoch? = none → s.Quiet h.surroundings) ∧
      (∀ x, h.epoch? = some x → x.Contained o path h.surroundings) ∧
      (∀ e l, (h.hear e).surroundings.disk.get? l = h.surroundings.disk.get? l ∨
        h.Touches o path e l) ∧
      ∀ (ids : List String) (d' : Disk), (∀ l ∈ path.trail, Apart path ids l) →
        Disk.AgreeOn (Apart path ids) s.disk d' →
        let h' := watch o { s with disk := d' } events
        (∀ e, h'.built e = h.built e) ∧
          Disk.AgreeOn (Apart path ids) h.surroundings.disk h'.surroundings.disk ∧
          ∀ id ∉ ids, h.surroundings.disk.read (path.child (reportFileName id)) =
            h'.surroundings.disk.read (path.child (reportFileName id)) := by
  intro h
  have ht : h.Traced o s.host aware (spanOf events) 1 := Watch.traced_watch o hs
  have hone : s.clock.Lasts aware (1 + events.length) := Nat.add_comm _ _ ▸ hs
  have hfresh := Watch.traced_fresh o hone
  refine ⟨fun e => ?_, fun p => ?_, fun hnone => ?_, fun x hx => ?_, fun e l => ?_,
    fun ids d' htrail hagree => ?_⟩
  · exact (ht.hear e).2 (.inr ⟨hhost, hpath ▸ Option.some_ne_none path⟩)
  · obtain ⟨now, rows, later, hopens⟩ := ht.opens hhost p
    exact (hopens h rfl (.refl _)).epoch?_eq
  · exact hfresh.quiet_foldl hhost (fun _ => .refl s) hnone
  · exact (ht.kept x hx).contained ht.host_eq hpath
  · exact ht.touches hhost hpath e l
  · intro h'
    have hfresh' := Watch.traced_fresh (s := { s with disk := d' }) o hone
    have hstart : Watch.Beside (Apart path ids) ⟨.fresh o, s, none⟩
        ⟨.fresh o, { s with disk := d' }, none⟩ := ⟨rfl, ⟨rfl, rfl⟩, hagree⟩
    have hway : ∀ l ∈ path.origin :: path.trail, Apart path ids l :=
      List.forall_mem_cons.2 ⟨apart_origin path ids, htrail⟩
    have hbeside : h.Beside (Apart path ids) h' :=
      hstart.foldl hfresh hfresh' hhost hpath hway
    refine ⟨hbeside.built_eq, hbeside.agree, fun id hid =>
      Disk.read_congr hbeside.agree fun l hl => ?_⟩
    rw [Path.trail_child (reportFileName_ne_up id), ← List.cons_append, List.mem_append,
      List.mem_singleton] at hl
    rcases hl with hl | rfl
    · exact hway l hl
    · exact apart_fileLocation hid

/-- The report of one engine may not be written; that of the other one is none the worse. -/
theorem trouble_contained_blocked :
    let o : Settings := ⟨.ofString "out", none, [], false, none⟩
    let path : Path := ⟨0, ["out"]⟩
    let denied : Files.FileError.Reason := ⟨13, "Permission denied"⟩
    let s : Surroundings := { Surroundings.bare (.fixed .epoch) with
      disk := ⟨[(["out"], .directory)], .lax⟩ }
    let blocked : Surroundings := { s with
      disk := { s.disk with policy := { Files.Policy.lax with
        open? := fun _ l => if l = fileLocation path "e" then some denied else none } } }
    let events : List Event := [
      .planStarted (.ofList 1 [⟨"e", "e", none, .engine⟩, ⟨"f", "f", none, .engine⟩]),
      .finished ⟨"e", "e", none, .engine⟩ ⟨.successful, none⟩, .planFinished none]
    o.path? = some path ∧ s.clock.Lasts true 4 ∧ s.host.isReadable = true ∧
      ((hear (.planFinished none)).perform
        ((watch o blocked events).writer, (watch o blocked events).surroundings)).1 = .ok () ∧
      (watch o s events).surroundings.disk.read (path.child (reportFileName "f")) =
        (watch o blocked events).surroundings.disk.read (path.child (reportFileName "f")) := by
  intro o path denied s blocked events
  have hpath : o.path? = some path := rfl
  have hs : s.clock.Lasts true 4 := (Time.Clock.fixed_reliable .epoch).lasts 4
  have hhost : s.host.isReadable = true := rfl
  obtain ⟨-, -, -, -, -, hothers⟩ := trouble_contained hpath events hs hhost
  have hagree : Disk.AgreeOn (Apart path ["e"]) s.disk blocked.disk := by
    intro l hl
    have hne : l ≠ fileLocation path "e" := by
      rintro rfl
      exact hl "e" List.mem_cons_self List.prefix_rfl
    refine ⟨rfl, rfl, fun _ _ _ => rfl, fun _ _ _ => ?_, fun _ _ _ _ => rfl⟩
    change none = if l = fileLocation path "e" then some denied else none
    rw [if_neg hne]
  obtain ⟨-, -, hread⟩ := hothers ["e"] blocked.disk
    (fun l hl => apart_of_mem_trail (by decide) hl) hagree
  have hblocked := trouble_contained (s := blocked) hpath events hs hhost
  have hsame : ({ s with disk := blocked.disk } : Surroundings) = blocked := rfl
  have hother := hread "f" (by decide)
  rw [hsame] at hother
  exact ⟨hpath, hs, hhost, hblocked.1 (.planFinished none), hother⟩

theorem disk_of_first_end {s : Surroundings} (hs : s.clock.Lasts aware 2)
    (hhost : s.host.isReadable = true) {now : Time.Instant} {c : Time.Clock}
    (hread : s.clock.read = (.ok now, c)) {p : Plan} {i : Identifier} (hi : i ∈ p.roots)
    (result : ExecutionResult) :
    ∃ r : EngineReport, r.id = i.id ∧ r.timestamp = now ∧
      (watch o s [.planStarted p, .finished i result]).surroundings.disk =
        store o.indent (o.opened s.disk).1 s.host.localOffset (o.opened s.disk).2 r := by
  let h := watch o s [.planStarted p]
  have ht : h.Traced o s.host aware (spanOf [.planStarted p]) 1 := Watch.traced_watch o hs
  obtain ⟨rows, hrows⟩ := Host.properties_of_isReadable hhost o.extra o.withEnvironment
  have hopen : Watch.Opens ⟨.fresh o, s, none⟩ p now rows c := Watch.hear_opens hread hrows p
  have hrun : h.writer.run? = some (begun p now (o.hostName s.host) (shownProperties rows)
      (o.opened s.disk).1) := congrArg run? hopen.writer_eq
  have hspan : h.epoch?.map (·.toSpan) = some ⟨p, [], false⟩ := by
    rw [ht.span_eq, if_pos hhost]
    rfl
  have hids : (h.built (.finished i result)).map (·.id) = [i.id] := by
    rw [ht.built_eq, Watch.due_of_span hspan]
    exact (List.append_nil _).trans (if_pos ⟨rfl, ⟨i, hi, rfl⟩, rfl⟩)
  obtain ⟨r, hbuilt, hid⟩ := List.map_eq_singleton_iff.1 hids
  have hother : ∀ q, Event.finished i result ≠ .planStarted q := fun q => nofun
  obtain ⟨x, run', -, -, hnext⟩ := ht.sound.continues hrun hother
  obtain ⟨root, -, finishedAt?, hreport⟩ := hnext.moves.gives r (hbuilt ▸ List.mem_cons_self)
  obtain ⟨tree, left, rfl, -⟩ := hnext.moves.exists_pending
  refine ⟨r, hid, (Run.report_eq_ok hreport).2.2, ?_⟩
  have hdisk := ht.disk_hear hrun hother
  rw [hbuilt] at hdisk
  exact hdisk.trans (congrArg (store _ _ _ · r) hopen.disk_eq)

theorem read_of_first_end {s : Surroundings} (hs : s.clock.Lasts aware 2)
    (hhost : s.host.isReadable = true) {now : Time.Instant} {c : Time.Clock}
    (hread : s.clock.read = (.ok now, c)) {p : Plan} {i : Identifier} (hi : i ∈ p.roots)
    (result : ExecutionResult) (hpath : o.path? = some path) {made : Disk}
    (hmake : s.disk.makeDirectories path = (.ok (), made))
    (hnames : made.Names path (reportFileName i.id))
    (htakes : ∀ content, made.Takes (fileLocation path i.id) content) {timestamp : String}
    (htime : Time.timestampText s.host.localOffset now = .ok timestamp) :
    ∃ content, (watch o s [.planStarted p, .finished i result]).surroundings.disk.read
      (path.child (reportFileName i.id)) = .ok content := by
  obtain ⟨r, hid, hnow, hdisk⟩ := disk_of_first_end (o := o) hs hhost hread hi result
  rw [(opened_of_ok hpath hmake).1] at hdisk
  rw [← hnow] at htime
  rw [← hid] at hnames htakes ⊢
  obtain ⟨-, hok⟩ := stored_ok (reaches_of_ok hmake) htime hnames htakes o.indent
  obtain ⟨text, -, hwrite, hstored⟩ := stored_eq_ok hok
  refine ⟨text.toUTF8, ?_⟩
  rw [hdisk]
  exact (congrArg (Disk.read · _) hstored).trans (Disk.read_write hwrite)

theorem read_ne_of_first_end {s s' : Surroundings} (hs : s.clock.Lasts aware 2)
    (hs' : s'.clock.Lasts aware 2) (hhost : s.host.isReadable = true)
    (hhost' : s'.host.isReadable = true) {now : Time.Instant} {c : Time.Clock}
    (hread : s.clock.read = (.ok now, c)) (hread' : s'.clock.read = (.ok now, c)) {p : Plan}
    {i : Identifier} (hi : i ∈ p.roots) (result : ExecutionResult) (hpath : o.path? = some path)
    {made : Disk} (hmake : s.disk.makeDirectories path = (.ok (), made))
    (hnames : made.Names path (reportFileName i.id))
    (htakes : ∀ content, made.Takes (fileLocation path i.id) content) {timestamp : String}
    (htime : Time.timestampText s.host.localOffset now = .ok timestamp)
    (hnone : ∀ r : EngineReport, r.id = i.id → ∀ content,
      (store o.indent (o.opened s'.disk).1 s'.host.localOffset (o.opened s'.disk).2 r).read
        (path.child (reportFileName i.id)) ≠ .ok content) :
    (watch o s [.planStarted p, .finished i result]).surroundings.disk.read
        (path.child (reportFileName i.id)) ≠
      (watch o s' [.planStarted p, .finished i result]).surroundings.disk.read
        (path.child (reportFileName i.id)) := by
  obtain ⟨content, hwritten⟩ :=
    read_of_first_end hs hhost hread hi result hpath hmake hnames htakes htime
  obtain ⟨r, hid, -, hdisk⟩ := disk_of_first_end (o := o) hs' hhost' hread' hi result
  rw [hwritten, hdisk]
  exact (hnone r hid content).symm

/-- A path that leads up from the file of an engine leads nowhere if that is not a directory, and then
the others have no reports. Nor have they where the disk has room for one file, and it is there. -/
theorem trouble_uncontained :
    let settings (directory : String) : Settings := ⟨.ofString directory, none, [], false, none⟩
    let up : Path := ⟨0, ["out", "TEST-e.xml", ".."]⟩
    let out : Path := ⟨0, ["out"]⟩
    let one : Files.Policy := { Files.Policy.lax with
      open? := fun es l => if es.any fun x => x.1 ≠ l && x.2 ≠ .directory
        then some ⟨28, "No space left on device"⟩ else none }
    let held (policy : Files.Policy) (e : Files.Entry) : Surroundings :=
      { Surroundings.bare (.fixed .epoch) with
        disk := ⟨[(["out"], .directory), (["out", "TEST-e.xml"], e)], policy⟩ }
    let p := Plan.ofList 1 [⟨"e", "e", none, .engine⟩, ⟨"f", "f", none, .engine⟩]
    let events : List Event :=
      [.planStarted p, .finished ⟨"f", "f", none, .engine⟩ ⟨.successful, none⟩]
    (Surroundings.bare (.fixed .epoch)).clock.Lasts true 3 ∧
      (Surroundings.bare (.fixed .epoch)).host.isReadable = true ∧
      (settings "out/TEST-e.xml/..").path? = some up ∧ (settings "out").path? = some out ∧
      fileLocation up "e" = ["out", "TEST-e.xml"] ∧ fileLocation out "e" = ["out", "TEST-e.xml"] ∧
      (watch (settings "out/TEST-e.xml/..") (held .lax .directory) events).surroundings.disk.read
          (up.child (reportFileName "f")) ≠
        (watch (settings "out/TEST-e.xml/..") (held .lax (.file .empty))
          events).surroundings.disk.read (up.child (reportFileName "f")) ∧
      (watch (settings "out") (held one .directory) events).surroundings.disk.read
          (out.child (reportFileName "f")) ≠
        (watch (settings "out") (held one (.file .empty)) events).surroundings.disk.read
          (out.child (reportFileName "f")) := by
  intro settings up out one held p events
  have hs (policy : Files.Policy) (e : Files.Entry) : (held policy e).clock.Lasts true 2 :=
    (Time.Clock.fixed_reliable .epoch).lasts 2
  have htime : Time.timestampText 0 .epoch = .ok "1970-01-01T00:00:00" := by cbv
  have hroot : (⟨"f", "f", none, .engine⟩ : Identifier) ∈ p.roots := by decide
  refine ⟨(Time.Clock.fixed_reliable .epoch).lasts 3, rfl, rfl, rfl, rfl, rfl, ?_, ?_⟩
  · refine read_ne_of_first_end (hs .lax _) (hs .lax _) rfl rfl rfl rfl hroot _ rfl rfl
      ⟨by decide, by decide, rfl⟩ (fun _ => ⟨by decide, rfl, rfl⟩) htime fun r _ content => ?_
    have hopened : (settings "out/TEST-e.xml/..").opened (held .lax (.file .empty)).disk =
        (none, (held .lax (.file .empty)).disk) := rfl
    rw [hopened]
    intro h
    cases h
  · refine read_ne_of_first_end (hs one _) (hs one _) rfl rfl rfl rfl hroot _ rfl rfl
      ⟨by decide, by decide, rfl⟩ (fun _ => ⟨by decide, rfl, rfl⟩) htime fun r hid content => ?_
    have hopened : (settings "out").opened (held one (.file .empty)).disk =
        (some out, (held one (.file .empty)).disk) := rfl
    have hfull (text : ByteArray) : ((held one (.file .empty)).disk.write
        (out.child (reportFileName "f")) text).2 = (held one (.file .empty)).disk := rfl
    have hsame : store none (some out) 0 (held one (.file .empty)).disk r =
        (held one (.file .empty)).disk := by
      rcases store_cases none (some out) 0 (held one (.file .empty)).disk r with
        heq | ⟨_, text, hdirectory, -, heq⟩
      · exact heq
      · cases hdirectory
        rw [heq, hid]
        exact hfull text.toUTF8
    rw [hopened]
    change (store none (some out) 0 (held one (.file .empty)).disk r).read _ ≠ _
    rw [hsame]
    intro h
    cases h

end TestRun.Writer
