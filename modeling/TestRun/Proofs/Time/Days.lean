import Mathlib.Algebra.GroupWithZero.Nat
import Mathlib.Algebra.Order.Group.Nat
import Mathlib.Order.Monotone.Basic
import TestRun.Time.Calendar
set_option autoImplicit false

namespace TestRun.Time

theorem sum_monthLengths (leap : Bool) : (monthLengths leap).sum = if leap then 366 else 365 := by
  cases leap <;> rfl

theorem isLeap_iff (year : Nat) :
    isLeap year = true ↔ year % 4 = 0 ∧ (year % 100 ≠ 0 ∨ year % 400 = 0) := by
  simp [isLeap]

/-- A year more brings a leap day more each fourth year, one less each century and again one more
each four centuries. -/
theorem daysBefore_succ {year : Nat} (h : 1 ≤ year) :
    daysBefore (year + 1) = daysBefore year + (monthLengths (isLeap year)).sum := by
  obtain ⟨years, rfl⟩ := Nat.exists_eq_add_of_le' h
  have hcentury : (years + 1) % 100 = 0 → (years + 1) % 4 = 0 := by omega
  have hcycle : (years + 1) % 400 = 0 → (years + 1) % 100 = 0 := by omega
  have hle : years / 100 ≤ years / 4 := by omega
  simp only [sum_monthLengths, daysBefore, Nat.add_sub_cancel, isLeap_iff, Nat.succ_div,
    Nat.dvd_iff_mod_eq_zero]
  -- only the order of these two matters, not what they are
  generalize years / 4 = fourths at *
  generalize years / 100 = centuries at *
  split_ifs <;> omega

theorem daysBefore_mono : Monotone daysBefore := by
  refine monotone_nat_of_le_succ fun year => ?_
  rcases Nat.eq_zero_or_pos year with rfl | hyear
  · decide
  · rw [daysBefore_succ hyear]
    exact Nat.le_add_right _ _

theorem daysBefore_share (years : Nat) :
    400 * daysBefore (years + 1) ≤ 146097 * years + 396 ∧
      146097 * years ≤ 400 * daysBefore (years + 1) + 699 := by
  simp only [daysBefore, Nat.add_sub_cancel]
  omega

/-- The estimate by the mean year is off by at most one, and then it is corrected. -/
theorem yearOf_bounds (day : Nat) :
    1 ≤ yearOf day ∧ daysBefore (yearOf day) ≤ day ∧ day < daysBefore (yearOf day + 1) := by
  have hguess := daysBefore_share (day * 400 / 146097)
  have hlater := daysBefore_share (day * 400 / 146097 + 1 + 1)
  unfold yearOf
  dsimp only
  split
  · omega
  · split <;> omega

theorem yearOf_eq {day year : Nat} (hle : daysBefore year ≤ day)
    (hlt : day < daysBefore (year + 1)) : yearOf day = year := by
  obtain ⟨-, hle', hlt'⟩ := yearOf_bounds day
  have hbelow : ¬ yearOf day < year := fun h =>
    absurd (Nat.lt_of_lt_of_le hlt' (daysBefore_mono h)) (Nat.not_lt.2 hle)
  have habove : ¬ year < yearOf day := fun h =>
    absurd (Nat.lt_of_lt_of_le hlt (daysBefore_mono h)) (Nat.not_lt.2 hle')
  omega

theorem monthAndDay_bounds (month : Nat) {lengths : List Nat} {day : Nat} (h : day < lengths.sum) :
    month ≤ (monthAndDay lengths month day).1 ∧
      (monthAndDay lengths month day).1 < month + lengths.length := by
  induction lengths generalizing month day with
  | nil => exact absurd h (Nat.not_lt_zero day)
  | cons length rest ih =>
    rw [List.sum_cons] at h
    simp only [monthAndDay, List.length_cons]
    split
    · dsimp only
      omega
    · have hrest := @ih (month + 1) (day - length) (by omega)
      omega

theorem monthAndDay_succ (month : Nat) {lengths : List Nat} {day : Nat}
    (hpos : ∀ n ∈ lengths, 0 < n) (h : day + 1 < lengths.sum) :
    monthAndDay lengths month (day + 1) =
      if (monthAndDay lengths month day).2 <
          lengths.getD ((monthAndDay lengths month day).1 - month) 0 then
        ((monthAndDay lengths month day).1, (monthAndDay lengths month day).2 + 1)
      else ((monthAndDay lengths month day).1 + 1, 1) := by
  induction lengths generalizing month day with
  | nil => exact absurd h (Nat.not_lt_zero _)
  | cons length rest ih =>
    rw [List.sum_cons] at h
    by_cases hday : day < length
    · have hhere : monthAndDay (length :: rest) month day = (month, day + 1) := if_pos hday
      simp only [hhere, Nat.sub_self, List.getD_cons_zero]
      by_cases hnext : day + 1 < length
      · rw [if_pos hnext]
        exact if_pos hnext
      · rw [if_neg hnext, monthAndDay, if_neg hnext]
        -- the month is over, and another one follows because the days are not
        cases rest with
        | nil =>
          rw [List.sum_nil] at h
          omega
        | cons second more =>
          have hsecond : day + 1 - length < second := by
            have := hpos second (List.mem_cons_of_mem _ List.mem_cons_self)
            omega
          rw [monthAndDay, if_pos hsecond]
          congr 1
          omega
    · have hnext : ¬ day + 1 < length := by omega
      have hsub : day + 1 - length = day - length + 1 := by omega
      have hlater := (monthAndDay_bounds (month + 1) (show day - length < rest.sum by omega)).1
      have hindex : (monthAndDay rest (month + 1) (day - length)).1 - month =
          (monthAndDay rest (month + 1) (day - length)).1 - (month + 1) + 1 := by omega
      rw [monthAndDay, if_neg hnext, monthAndDay, if_neg hday, hsub, hindex,
        List.getD_cons_succ]
      exact ih (month + 1) (fun n hn => hpos n (List.mem_cons_of_mem length hn)) (by omega)

theorem monthLength_of_pos {month : Nat} (h : 1 ≤ month) (year : Nat) :
    monthLength year month = (monthLengths (isLeap year)).getD (month - 1) 0 :=
  if_neg (Nat.ne_of_gt h)

theorem monthLength_le (year month : Nat) : monthLength year month ≤ 31 := by
  have hlengths : ∀ leap, ∀ n ∈ monthLengths leap, n ≤ 31 := by decide
  unfold monthLength
  split
  · exact Nat.zero_le 31
  · rw [List.getD_eq_getElem?_getD]
    cases h : (monthLengths (isLeap year))[month - 1]? with
    | none => exact Nat.zero_le 31
    | some n => exact hlengths _ n (List.mem_of_getElem? h)

namespace CivilDate

def next (d : CivilDate) : CivilDate :=
  if d.day < monthLength d.year d.month then ⟨d.year, d.month, d.day + 1⟩
  else if d.month < 12 then ⟨d.year, d.month + 1, 1⟩
  else ⟨d.year + 1, 1, 1⟩

def nth : Nat → CivilDate
  | 0 => ⟨1, 1, 1⟩
  | n + 1 => (nth n).next

theorem ofDay_eq {n year : Nat} (hle : daysBefore year ≤ n) (hlt : n < daysBefore (year + 1)) :
    ofDay n = ⟨year, (monthAndDay (monthLengths (isLeap year)) 1 (n - daysBefore year)).1,
      (monthAndDay (monthLengths (isLeap year)) 1 (n - daysBefore year)).2⟩ := by
  unfold ofDay
  rw [yearOf_eq hle hlt]

theorem ofDay_succ_within {n year : Nat} (hyear : 1 ≤ year) (hle : daysBefore year ≤ n)
    (hlt : n + 1 < daysBefore (year + 1)) : ofDay (n + 1) = (ofDay n).next := by
  have hpos : ∀ leap, ∀ n ∈ monthLengths leap, 0 < n := by decide
  have hlength : (monthLengths (isLeap year)).length = 12 := rfl
  have hsub : n + 1 - daysBefore year = n - daysBefore year + 1 := by omega
  have hsum := daysBefore_succ hyear
  rw [ofDay_eq (by omega) hlt, ofDay_eq hle (by omega), hsub]
  have hwithin : n - daysBefore year + 1 < (monthLengths (isLeap year)).sum := by omega
  have hstep := monthAndDay_succ 1 (hpos (isLeap year)) hwithin
  have hbounds := monthAndDay_bounds 1 (Nat.lt_of_succ_lt hwithin)
  have hbounds' := monthAndDay_bounds 1 hwithin
  simp only [next, monthLength_of_pos hbounds.1]
  split at hstep
  · next hday => rw [if_pos hday, hstep]
  · next hday =>
    rw [hstep, hlength] at hbounds'
    rw [if_neg hday, if_pos (by omega), hstep]

theorem ofDay_succ_end {n year : Nat} (hyear : 1 ≤ year) (h : n + 1 = daysBefore (year + 1)) :
    ofDay (n + 1) = (ofDay n).next := by
  have hfirst : ∀ leap, monthAndDay (monthLengths leap) 1 0 = (1, 1) := by decide
  have hlast : ∀ leap, monthAndDay (monthLengths leap) 1 ((monthLengths leap).sum - 1) =
      (12, 31) := by decide
  have hdecember : ∀ leap, (monthLengths leap).getD 11 0 = 31 := by decide
  have hpos : ∀ leap, 28 ≤ (monthLengths leap).sum := by decide
  have hsum := daysBefore_succ hyear
  have hsum' := daysBefore_succ (Nat.le_add_left 1 year)
  have hthis := hpos (isLeap year)
  have hthat := hpos (isLeap (year + 1))
  have hnew : n + 1 - daysBefore (year + 1) = 0 := by omega
  have hold : n - daysBefore year = (monthLengths (isLeap year)).sum - 1 := by omega
  have hle : daysBefore year ≤ n := by omega
  calc ofDay (n + 1)
    _ = ⟨year + 1, 1, 1⟩ := by rw [ofDay_eq (Nat.le_of_eq h.symm) (by omega), hnew, hfirst]
    _ = next ⟨year, 12, 31⟩ := by
        unfold next
        rw [monthLength_of_pos (by decide : 1 ≤ 12), hdecember, if_neg (Nat.lt_irrefl 31),
          if_neg (Nat.lt_irrefl 12)]
    _ = (ofDay n).next := by rw [ofDay_eq hle (by omega), hold, hlast]

theorem ofDay_succ (n : Nat) : ofDay (n + 1) = (ofDay n).next := by
  obtain ⟨hyear, hle, hlt⟩ := yearOf_bounds n
  rcases Nat.lt_or_eq_of_le (Nat.succ_le_of_lt hlt) with hwithin | hend
  · exact ofDay_succ_within hyear hle hwithin
  · exact ofDay_succ_end hyear hend

/-- The date worked out from a number of days is the one that counting gives. -/
theorem nth_eq_ofDay (n : Nat) : nth n = ofDay n := by
  induction n with
  | zero => decide
  | succ n ih => rw [nth, ih, ofDay_succ]

theorem fits_next {d : CivilDate} (h : d.month ≤ 12 ∧ d.day ≤ 31) :
    d.next.month ≤ 12 ∧ d.next.day ≤ 31 := by
  have hlength := monthLength_le d.year d.month
  unfold next
  split_ifs <;> dsimp only <;> omega

theorem fits_nth (n : Nat) : (nth n).month ≤ 12 ∧ (nth n).day ≤ 31 := by
  induction n with
  | zero => decide
  | succ n ih => exact fits_next ih

def IsBefore (d d' : CivilDate) : Prop :=
  d.year < d'.year ∨ d.year = d'.year ∧
    (d.month < d'.month ∨ d.month = d'.month ∧ d.day < d'.day)

theorem isBefore_next (d : CivilDate) : d.IsBefore d.next := by
  unfold IsBefore next
  split_ifs <;> dsimp only <;> omega

theorem IsBefore.trans {d d' d'' : CivilDate} (h : d.IsBefore d') (h' : d'.IsBefore d'') :
    d.IsBefore d'' := by
  unfold IsBefore at *
  omega

theorem nth_isBefore {m n : Nat} (h : m < n) : (nth m).IsBefore (nth n) := by
  induction n with
  | zero => exact absurd h (Nat.not_lt_zero m)
  | succ n ih =>
    rcases Nat.lt_succ_iff_lt_or_eq.1 h with hlt | rfl
    · exact (ih hlt).trans (isBefore_next _)
    · exact isBefore_next _

theorem year_nth_le {m n : Nat} (h : m ≤ n) : (nth m).year ≤ (nth n).year := by
  rcases Nat.lt_or_eq_of_le h with hlt | rfl
  · have := nth_isBefore hlt
    unfold IsBefore at this
    omega
  · exact Nat.le_refl _

end CivilDate

end TestRun.Time
