import Mathlib.Algebra.Order.BigOperators.Group.List
import Mathlib.Tactic.Linarith
import TestRun.Proofs.Text.Decimal
import TestRun.Time.Duration
set_option autoImplicit false

namespace TestRun.Time

open Text

/-- A span of time in seconds, cut off at the millisecond. -/
def shownSeconds (d : Duration) : ℚ := wholeMillis d / 1000

theorem secondsText_of_ne_zero {d : Duration} (h : wholeMillis d ≠ 0) :
    secondsText d = String.ofList
      (decimal (wholeMillis d / 1000) ++ '.' :: digits 10 3 (wholeMillis d % 1000)) :=
  if_neg h

theorem secondsText_of_eq_zero {d : Duration} (h : wholeMillis d = 0) : secondsText d = "0" :=
  if_pos h

theorem rational?_secondsText (d : Duration) :
    rational? (secondsText d) = some (shownSeconds d) := by
  by_cases hzero : wholeMillis d = 0
  · have hnought : rational? "0" = some 0 := by
      simp [rational?, Nat.ofDigitChars]
    rw [secondsText_of_eq_zero hzero, hnought, shownSeconds, hzero]
    simp
  · have hnumeral := isNumeral_decimal (wholeMillis d / 1000)
    have hnumber : Nat.ofDigitChars 10
        (decimal (wholeMillis d / 1000) ++ digits 10 3 (wholeMillis d % 1000)) 0 =
          wholeMillis d := by
      rw [Nat.ofDigitChars_append, decimal, Nat.ofDigitChars_toDigits (by decide) (by decide),
        ofDigitChars_digits]
      omega
    calc rational? (secondsText d)
      _ = some ((wholeMillis d : ℚ) / 10 ^ 3) := by
          rw [secondsText_of_ne_zero hzero,
            rational?_point hnumeral.ne_nil hnumeral.isDigit isDigit_of_mem_digits, hnumber,
            length_digits]
      _ = some (shownSeconds d) := by
          rw [shownSeconds]
          norm_num

theorem wholeMillis_eq (d : Duration) : wholeMillis d = (d / 1000).toNat := by
  rw [wholeMillis, Int.fdiv_eq_ediv_of_nonneg d (by decide)]

theorem wholeMillis_mono {d d' : Duration} (h : d ≤ d') : wholeMillis d ≤ wholeMillis d' := by
  rw [wholeMillis_eq, wholeMillis_eq]
  have := Int.ediv_le_ediv (c := 1000) (by decide) h
  omega

theorem wholeMillis_eq_zero_iff (d : Duration) : wholeMillis d = 0 ↔ d < 1000 := by
  have hzero (n : Int) : (n / 1000).toNat = 0 ↔ n < 1000 := by omega
  rw [wholeMillis_eq]
  exact hzero d

theorem wholeMillis_bounds {d : Duration} (h : 0 ≤ d) :
    1000 * (wholeMillis d : Int) ≤ d ∧ d < 1000 * (wholeMillis d : Int) + 1000 := by
  have hbounds (n : Int) (hn : 0 ≤ n) : 1000 * ((n / 1000).toNat : Int) ≤ n ∧
      n < 1000 * ((n / 1000).toNat : Int) + 1000 := by omega
  rw [wholeMillis_eq]
  exact hbounds d h

theorem shownSeconds_nonneg (d : Duration) : 0 ≤ shownSeconds d := by
  unfold shownSeconds
  positivity

theorem shownSeconds_mono {d d' : Duration} (h : d ≤ d') : shownSeconds d ≤ shownSeconds d' := by
  have hmillis := wholeMillis_mono h
  unfold shownSeconds
  gcongr

/-- What is cut off of each of two spans is no less than what is cut off of both together. -/
theorem shownSeconds_add_le {d d' : Duration} (hd : 0 ≤ d) (hd' : 0 ≤ d') :
    shownSeconds d + shownSeconds d' ≤ shownSeconds (d + d') := by
  have hmillis : wholeMillis d + wholeMillis d' ≤ wholeMillis (d + d') := by
    rw [wholeMillis_eq, wholeMillis_eq, wholeMillis_eq]
    have hd : (0 : Int) ≤ d := hd
    have hd' : (0 : Int) ≤ d' := hd'
    omega
  unfold shownSeconds
  rw [← add_div, ← Nat.cast_add]
  gcongr

theorem sum_shownSeconds_le {ds : List Duration} (h : ∀ d ∈ ds, 0 ≤ d) :
    (ds.map shownSeconds).sum ≤ shownSeconds ds.sum := by
  induction ds with
  | nil => exact shownSeconds_nonneg 0
  | cons d ds ih =>
    have hrest := ih fun e he => h e (List.mem_cons_of_mem d he)
    have hsum : 0 ≤ ds.sum := List.sum_nonneg fun e he => h e (List.mem_cons_of_mem d he)
    have hadd := shownSeconds_add_le (h d List.mem_cons_self) hsum
    rw [List.map_cons, List.sum_cons, List.sum_cons]
    linarith

theorem shownSeconds_bounds {d : Duration} (h : 0 ≤ d) :
    1000000 * shownSeconds d ≤ (d : Int) ∧ (d : Int) < 1000000 * shownSeconds d + 1000 := by
  obtain ⟨hle, hlt⟩ := wholeMillis_bounds h
  have hle : ((1000 * (wholeMillis d : Int) : Int) : ℚ) ≤ (d : Int) := Int.cast_le.2 hle
  have hlt : ((d : Int) : ℚ) < ((1000 * (wholeMillis d : Int) + 1000 : Int) : ℚ) :=
    Int.cast_lt.2 hlt
  push_cast at hle hlt
  unfold shownSeconds
  constructor <;> linarith

theorem shownSeconds_floor (d : Duration) :
    1000 * shownSeconds d = (max 0 ⌊((d : Int) : ℚ) / 1000⌋ : Int) := by
  have hfloor : ⌊((d : Int) : ℚ) / 1000⌋ = (d : Int) / 1000 :=
    Rat.floor_intCast_div_natCast d 1000
  have hmillis : ((wholeMillis d : Int) : ℚ) = (max 0 ((d : Int) / 1000) : Int) := by
    rw [wholeMillis_eq]
    congr 1
    omega
  rw [hfloor, ← hmillis, shownSeconds, Int.cast_natCast]
  ring

/-- A span below a millisecond is shown as `0`. Any other is shown as a decimal number with three
places after the point and no superfluous zero in front, which is the span but for less than a
millisecond. The text of every span reads back as its milliseconds rounded down, or as none, and the
texts of two spans read back in the order of the spans. -/
theorem secondsText_cuts_off (d : Duration) :
    (d < 1000 → secondsText d = "0") ∧
    (1000 ≤ d → ∃ whole fraction v, secondsText d = String.ofList (whole ++ '.' :: fraction) ∧
      IsNumeral whole ∧ fraction.length = 3 ∧ (∀ c ∈ fraction, c.isDigit = true) ∧
      rational? (secondsText d) = some v ∧
      1000000 * v ≤ (d : Int) ∧ (d : Int) < 1000000 * v + 1000) ∧
    (∃ v, rational? (secondsText d) = some v ∧
      1000 * v = (max 0 ⌊((d : Int) : ℚ) / 1000⌋ : Int)) ∧
    ∀ d' : Duration, d ≤ d' → ∃ v v', rational? (secondsText d) = some v ∧
      rational? (secondsText d') = some v' ∧ v ≤ v' := by
  refine ⟨fun hshort => ?_, fun hlong => ?_, ?_, fun d' hle => ?_⟩
  · exact secondsText_of_eq_zero ((wholeMillis_eq_zero_iff d).2 hshort)
  · have hmillis : wholeMillis d ≠ 0 := fun hzero =>
      absurd hlong (Int.not_le.2 ((wholeMillis_eq_zero_iff d).1 hzero))
    have hnonneg : 0 ≤ d := Int.le_trans (by decide) hlong
    exact ⟨_, _, _, secondsText_of_ne_zero hmillis, isNumeral_decimal _, length_digits 10 3 _,
      isDigit_of_mem_digits, rational?_secondsText d, shownSeconds_bounds hnonneg⟩
  · exact ⟨_, rational?_secondsText d, shownSeconds_floor d⟩
  · exact ⟨_, _, rational?_secondsText d, rational?_secondsText d', shownSeconds_mono hle⟩

/-- Not rounded up: a thousandth of a millisecond is missing to the next one. -/
theorem secondsText_cuts_off_long :
    (1000 : Duration) ≤ 3600001999 ∧ secondsText 3600001999 = "3600.001" ∧
      ∃ v, rational? (secondsText 3600001999) = some v ∧ 1000000 * v ≤ (3600001999 : Int) ∧
        (3600001999 : Int) < 1000000 * v + 1000 := by
  obtain ⟨-, hlong, -, -⟩ := secondsText_cuts_off 3600001999
  obtain ⟨_, _, v, -, -, -, -, hread, hbounds⟩ := hlong (by decide)
  exact ⟨by decide, by decide, v, hread, hbounds⟩

end TestRun.Time
