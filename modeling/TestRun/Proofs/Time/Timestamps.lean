import TestRun.Proofs.Text.Decimal
import TestRun.Proofs.Time.Days
import TestRun.Proofs.Time.Order
set_option autoImplicit false

/-!
# Timestamps

A timestamp has nineteen characters, which tell a date and a time of day. Read in the calendar, they
are the reading of the local clock without the fraction of its second. Instants of one kind are shown
in their order, and those at one moment are shown alike. Only an aware instant may have no
timestamp, where universal or local time leaves the years 1 to 9999.
-/

namespace TestRun.Time

open Text

structure Timestamp where
  date : CivilDate
  hour : Nat
  minute : Nat
  second : Nat

namespace Timestamp

def part? (mark : Char) (width : Nat) : List Char → Option (Nat × List Char)
  | [] => none
  | c :: cs => if c = mark then number? width cs else none

theorem part?_digits (mark : Char) {width n : Nat} (h : n < 10 ^ width) (cs : List Char) :
    part? mark width (mark :: (digits 10 width n ++ cs)) = some (n, cs) :=
  (if_pos rfl).trans (number?_digits h cs)

def ofText? (text : String) : Option Timestamp := do
  let (year, cs) ← number? 4 text.toList
  let (month, cs) ← part? '-' 2 cs
  let (day, cs) ← part? '-' 2 cs
  let (hour, cs) ← part? 'T' 2 cs
  let (minute, cs) ← part? ':' 2 cs
  let (second, cs) ← part? ':' 2 cs
  if cs.isEmpty then some ⟨⟨year, month, day⟩, hour, minute, second⟩ else none

/-- The date and time of day of a clock that shows so many microseconds from 1970-01-01T00:00:00. -/
def IsAt (t : Timestamp) (micros : Int) : Prop :=
  t.hour < 24 ∧ t.minute < 60 ∧ t.second < 60 ∧
  ∃ day epoch : Nat, t.date = .nth day ∧ CivilDate.nth epoch = ⟨1970, 1, 1⟩ ∧
    micros = ((((day - epoch : Int) * 24 + t.hour) * 60 + t.minute) * 60 + t.second) * 1000000

def text (t : Timestamp) : String :=
  String.ofList (t.date.text ++ 'T' :: digits 10 2 t.hour ++ ':' :: digits 10 2 t.minute ++
    ':' :: digits 10 2 t.second)

theorem toList_text (t : Timestamp) :
    t.text.toList = digits 10 4 t.date.year ++ '-' :: (digits 10 2 t.date.month ++
      '-' :: (digits 10 2 t.date.day ++ 'T' :: (digits 10 2 t.hour ++
        ':' :: (digits 10 2 t.minute ++ ':' :: (digits 10 2 t.second ++ []))))) := by
  simp only [text, CivilDate.text, String.toList_ofList, List.append_assoc, List.cons_append,
    List.append_nil]

theorem length_text (t : Timestamp) : t.text.length = 19 := by
  rw [← String.length_toList, toList_text]
  simp [length_digits]

structure Fits (t : Timestamp) : Prop where
  year : t.date.year < 10 ^ 4
  month : t.date.month < 10 ^ 2
  day : t.date.day < 10 ^ 2
  hour : t.hour < 10 ^ 2
  minute : t.minute < 10 ^ 2
  second : t.second < 10 ^ 2

theorem Fits.ofText?_text {t : Timestamp} (h : t.Fits) : ofText? t.text = some t := by
  rw [ofText?, toList_text]
  exact Option.bind_eq_some_iff.2 ⟨_, number?_digits h.year _,
    Option.bind_eq_some_iff.2 ⟨_, part?_digits '-' h.month _,
      Option.bind_eq_some_iff.2 ⟨_, part?_digits '-' h.day _,
        Option.bind_eq_some_iff.2 ⟨_, part?_digits 'T' h.hour _,
          Option.bind_eq_some_iff.2 ⟨_, part?_digits ':' h.minute _,
            Option.bind_eq_some_iff.2 ⟨_, part?_digits ':' h.second _, if_pos rfl⟩⟩⟩⟩⟩⟩

def ofSeconds (seconds : Nat) : Timestamp :=
  ⟨.nth (seconds / 86400), seconds % 86400 / 3600, seconds % 86400 / 60 % 60, seconds % 86400 % 60⟩

theorem isAt_ofSeconds (seconds : Nat) : (ofSeconds seconds).IsAt (lowest + seconds * 1000000) := by
  have hepoch : CivilDate.nth 719162 = ⟨1970, 1, 1⟩ := by
    rw [CivilDate.nth_eq_ofDay]
    decide
  unfold IsAt ofSeconds lowest
  dsimp only
  refine ⟨by omega, by omega, by omega, _, _, rfl, hepoch, ?_⟩
  omega

theorem fits_ofSeconds {seconds : Nat} (h : seconds < 3652059 * 86400) :
    (ofSeconds seconds).Fits := by
  have hlast : CivilDate.nth 3652058 = ⟨9999, 12, 31⟩ := by
    rw [CivilDate.nth_eq_ofDay]
    decide
  -- no day before the last one of 9999 has a year of five digits
  have hyear := CivilDate.year_nth_le (show seconds / 86400 ≤ 3652058 by omega)
  have hdate := CivilDate.fits_nth (seconds / 86400)
  rw [hlast] at hyear
  constructor <;> dsimp only [ofSeconds] at * <;> omega

def IsAtMost (t t' : Timestamp) : Prop :=
  t.date.IsBefore t'.date ∨ t.date = t'.date ∧
    (t.hour < t'.hour ∨ t.hour = t'.hour ∧
      (t.minute < t'.minute ∨ t.minute = t'.minute ∧ t.second ≤ t'.second))

theorem ofSeconds_isAtMost {seconds later : Nat} (h : seconds ≤ later) :
    (ofSeconds seconds).IsAtMost (ofSeconds later) := by
  unfold IsAtMost ofSeconds
  dsimp only
  rcases Nat.lt_or_ge (seconds / 86400) (later / 86400) with hlt | hge
  · exact .inl (CivilDate.nth_isBefore hlt)
  · have hday : seconds / 86400 = later / 86400 := by omega
    exact .inr ⟨congrArg CivilDate.nth hday, by omega⟩

theorem part_le {width m n : Nat} {mark : Char} {cs ds : List Char} (hn : n < 10 ^ width)
    (h : m < n ∨ m = n ∧ cs ≤ ds) :
    digits 10 width m ++ mark :: cs ≤ digits 10 width n ++ mark :: ds := by
  refine digits_append_le hn (h.imp_right fun ⟨hsame, hle⟩ => ⟨hsame, ?_⟩)
  rcases hle.eq_or_lt with rfl | hlt
  · exact le_refl _
  · exact (List.cons_lt_cons_iff.2 (.inr ⟨rfl, hlt⟩)).le

theorem IsAtMost.text_le {t t' : Timestamp} (h : t.IsAtMost t') (hfits : t'.Fits) :
    t.text ≤ t'.text := by
  rw [String.le_iff_toList_le, toList_text, toList_text]
  rcases h with hbefore | ⟨hdate, htime⟩
  · rcases hbefore with hyear | ⟨hyear, hmonth | ⟨hmonth, hday⟩⟩
    · exact part_le hfits.year (.inl hyear)
    · exact part_le hfits.year (.inr ⟨hyear, part_le hfits.month (.inl hmonth)⟩)
    · exact part_le hfits.year (.inr ⟨hyear, part_le hfits.month (.inr ⟨hmonth,
        part_le hfits.day (.inl hday)⟩)⟩)
  · rw [hdate]
    refine part_le hfits.year (.inr ⟨rfl, part_le hfits.month (.inr ⟨rfl,
      part_le hfits.day (.inr ⟨rfl, part_le hfits.hour ?_⟩)⟩)⟩)
    refine htime.imp_right fun ⟨hhour, hrest⟩ => ⟨hhour, part_le hfits.minute ?_⟩
    refine hrest.imp_right fun ⟨hminute, hsecond⟩ => ⟨hminute, digits_append_le hfits.second ?_⟩
    exact (Nat.lt_or_eq_of_le hsecond).imp_right fun hsame => ⟨hsame, le_refl []⟩

end Timestamp

namespace Instant

def face (localOffset : Int) (i : Instant) : Int :=
  match i.universal? with
  | none => i.micros
  | some u => u + localOffset

end Instant

variable {localOffset : Int} {i j : Instant}

theorem localReading_of_naive (h : i.universal? = none) :
    localReading localOffset i = .ok (i.face localOffset) := by
  unfold localReading Instant.face
  rw [h]

theorem localReading_of_aware {u : Int} (h : i.universal? = some u) (hu : InRange u)
    (hface : InRange (u + localOffset)) :
    localReading localOffset i = .ok (i.face localOffset) := by
  have hshift : Instant.shift ⟨u, some 0, hu.1, hu.2⟩ localOffset =
      .ok ⟨u + localOffset, some 0, hface.1, hface.2⟩ := Instant.shift_of_inRange hface
  unfold localReading Instant.face
  rw [h]
  simp only [Instant.ofMicros?_of_inRange hu, pure_bind, hshift]
  rfl

theorem localReading_of_outside {u : Int} (h : i.universal? = some u)
    (houtside : ¬ (InRange u ∧ InRange (u + localOffset))) :
    localReading localOffset i = .error .outOfRange := by
  unfold localReading
  rw [h]
  by_cases hu : InRange u
  · have hface : ¬ InRange (u + localOffset) := fun hface => houtside ⟨hu, hface⟩
    have hshift : Instant.shift ⟨u, some 0, hu.1, hu.2⟩ localOffset =
        .error .outOfRange := Instant.shift_of_outside hface
    simp only [Instant.ofMicros?_of_inRange hu, pure_bind, hshift]
    rfl
  · simp only [Instant.ofMicros?_of_outside hu]
    rfl

/-- An instant has a timestamp, unless it is aware and universal or local time is out of range. -/
theorem localReading_cases (localOffset : Int) (i : Instant) :
    (localReading localOffset i = .ok (i.face localOffset) ∧ InRange (i.face localOffset) ∧
      ∀ u, i.universal? = some u → InRange u ∧ InRange (u + localOffset)) ∨
    (localReading localOffset i = .error .outOfRange ∧
      ∃ u, i.universal? = some u ∧ ¬ (InRange u ∧ InRange (u + localOffset))) := by
  cases h : i.universal? with
  | none =>
    refine .inl ⟨localReading_of_naive h, ?_, nofun⟩
    rw [Instant.face, h]
    exact ⟨i.lowest_le, i.le_highest⟩
  | some u =>
    by_cases hrange : InRange u ∧ InRange (u + localOffset)
    · refine .inl ⟨localReading_of_aware h hrange.1 hrange.2, ?_, fun _ hu => ?_⟩
      · rw [Instant.face, h]
        exact hrange.2
      · cases hu
        exact hrange
    · exact .inr ⟨localReading_of_outside h hrange, u, rfl, hrange⟩

theorem readingText_eq (micros : Int) :
    readingText micros = (Timestamp.ofSeconds (wholeSeconds micros)).text := by
  rw [Timestamp.ofSeconds, CivilDate.nth_eq_ofDay]
  rfl

theorem wholeSeconds_eq (micros : Int) :
    wholeSeconds micros = ((micros - lowest) / 1000000).toNat := by
  rw [wholeSeconds, Int.fdiv_eq_ediv_of_nonneg _ (by decide)]

theorem wholeSeconds_mono {micros later : Int} (h : micros ≤ later) :
    wholeSeconds micros ≤ wholeSeconds later := by
  rw [wholeSeconds_eq, wholeSeconds_eq]
  omega

theorem wholeSeconds_lt {micros : Int} (h : InRange micros) :
    wholeSeconds micros < 3652059 * 86400 := by
  rw [wholeSeconds_eq]
  unfold InRange lowest highest at h
  unfold lowest
  omega

theorem lowest_add_wholeSeconds {micros : Int} (h : InRange micros) :
    lowest + wholeSeconds micros * 1000000 = micros - micros % 1000000 := by
  rw [wholeSeconds_eq]
  unfold InRange lowest at h
  unfold lowest
  omega

theorem face_le (hkind : i.offset.isSome = j.offset.isSome) (h : i.moment ≤ j.moment) :
    i.face localOffset ≤ j.face localOffset := by
  have hkind : i.universal?.isSome = j.universal?.isSome := by
    simpa [Instant.universal?] using hkind
  unfold Instant.moment at h
  unfold Instant.face
  cases hi : i.universal? with
  | none =>
    cases hj : j.universal? with
    | none => simpa [hi, hj] using h
    | some v => simp [hi, hj] at hkind
  | some u =>
    cases hj : j.universal? with
    | none => simp [hi, hj] at hkind
    | some v => simpa [hi, hj] using h

theorem timestampText_eq (localOffset : Int) (i : Instant) :
    timestampText localOffset i = (localReading localOffset i).map readingText := by
  unfold timestampText
  cases localReading localOffset i <;> rfl

theorem eq_readingText {text : String} (h : timestampText localOffset i = .ok text) :
    text = readingText (i.face localOffset) ∧ InRange (i.face localOffset) := by
  rw [timestampText_eq] at h
  rcases localReading_cases localOffset i with ⟨hreading, hface, -⟩ | ⟨hreading, -⟩
  · rw [hreading] at h
    cases h
    exact ⟨rfl, hface⟩
  · rw [hreading] at h
    cases h

/-- An instant has no timestamp exactly where it is aware and universal or local time leaves the
years 1 to 9999. Any other has one of nineteen characters, which read as the date and time of day of
the local clock without the fraction of its second. Aware instants of one moment are shown alike, and
of two instants of one kind the earlier one has never the greater text. -/
theorem timestampText_tells (localOffset : Int) (i : Instant) :
    (timestampText localOffset i = .error .outOfRange ↔
      ∃ u, i.universal? = some u ∧ ¬ (InRange u ∧ InRange (u + localOffset))) ∧
    ((∀ u, i.universal? = some u → InRange u ∧ InRange (u + localOffset)) →
      ∃ text t, timestampText localOffset i = .ok text ∧ text.length = 19 ∧
        Timestamp.ofText? text = some t ∧
        t.IsAt (i.face localOffset - i.face localOffset % 1000000)) ∧
    (∀ (j : Instant) (u : Int), i.universal? = some u → j.universal? = some u →
      timestampText localOffset i = timestampText localOffset j) ∧
    ∀ (j : Instant) (text text' : String), i.offset.isSome = j.offset.isSome →
      i.moment ≤ j.moment → timestampText localOffset i = .ok text →
      timestampText localOffset j = .ok text' → text ≤ text' := by
  refine ⟨?_, fun hrange => ?_, fun j u hi hj => ?_, fun j text text' hkind hle hi hj => ?_⟩
  · rw [timestampText_eq]
    rcases localReading_cases localOffset i with ⟨hreading, -, hrange⟩ | ⟨hreading, houtside⟩
    · rw [hreading]
      exact ⟨nofun, fun ⟨u, hu, hnot⟩ => absurd (hrange u hu) hnot⟩
    · rw [hreading]
      exact ⟨fun _ => houtside, fun _ => rfl⟩
  · rcases localReading_cases localOffset i with ⟨hreading, hface, -⟩ | ⟨-, u, hu, hnot⟩
    · have hfits := Timestamp.fits_ofSeconds (wholeSeconds_lt hface)
      refine ⟨_, Timestamp.ofSeconds (wholeSeconds (i.face localOffset)), ?_,
        Timestamp.length_text _, hfits.ofText?_text, ?_⟩
      · rw [timestampText_eq, hreading, ← readingText_eq]
        rfl
      · rw [← lowest_add_wholeSeconds hface]
        exact Timestamp.isAt_ofSeconds _
    · exact absurd (hrange u hu) hnot
  · unfold timestampText localReading
    rw [hi, hj]
  · obtain ⟨rfl, -⟩ := eq_readingText hi
    obtain ⟨rfl, hrange⟩ := eq_readingText hj
    rw [readingText_eq, readingText_eq]
    exact (Timestamp.ofSeconds_isAtMost (wholeSeconds_mono (face_le hkind hle))).text_le
      (Timestamp.fits_ofSeconds (wholeSeconds_lt hrange))

/-- The last microsecond of a leap day, an hour ahead of universal time, on a clock an hour behind
it; and the first reading of all, where it is already later than in universal time. -/
theorem timestampText_tells_leap_day :
    let hour : Duration := 3600000000
    let i : Instant := ⟨951872399999999, some hour, by decide, by decide⟩
    (∃ t, timestampText (-hour) i = .ok "2000-02-29T22:59:59" ∧
      Timestamp.ofText? "2000-02-29T22:59:59" = some t ∧ t.IsAt 951865199000000) ∧
    timestampText 0 ⟨lowest, some 1, by decide, by decide⟩ = .error .outOfRange := by
  intro hour i
  constructor
  · obtain ⟨text, t, htext, -, hread, hat⟩ :=
      (timestampText_tells (-hour) i).2.1 (fun u hu => by cases hu; decide)
    have hshown : timestampText (-hour) i = .ok "2000-02-29T22:59:59" := by decide
    rw [hshown] at htext
    cases htext
    exact ⟨t, hshown, hread, hat⟩
  · exact (timestampText_tells 0 ⟨lowest, some 1, by decide, by decide⟩).1.2
      ⟨_, rfl, by decide⟩

end TestRun.Time
