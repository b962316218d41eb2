import TestRun.Fault
import TestRun.Proofs.Time.Order
set_option autoImplicit false

namespace TestRun.Time.Clock

variable {start now : Instant} {step k : Nat}

theorem stepping?_of_nonneg (start : Instant) {d : Duration} (h : 0 ≤ d) :
    stepping? start d = .ok (.stepping start d.toNat) := if_neg (Int.not_lt.2 h)

theorem read_stepping_of_inRange (h : InRange (start.micros + step)) :
    (stepping start step).read =
      (.ok start, .stepping ⟨start.micros + step, start.offset, h.1, h.2⟩ step) := by
  simp only [read, Instant.shift_of_inRange h]

theorem read_stepping_of_outside (h : ¬ InRange (start.micros + step)) :
    (stepping start step).read = (.error .outOfRange, .stepping start step) := by
  simp only [read, Instant.shift_of_outside h]

theorem inRange_of_le {j : Nat} (hjk : j ≤ k) (h : InRange (start.micros + k * step)) :
    InRange (start.micros + j * step) := by
  have hnonneg : (0 : Int) ≤ j * step := Int.mul_nonneg (by omega) (by omega)
  have hle : (j : Int) * step ≤ k * step := Int.mul_le_mul_of_nonneg_right (by omega) (by omega)
  have hlowest := start.lowest_le
  obtain ⟨-, hhighest⟩ := h
  constructor <;> omega

theorem micros_add_step {m : Int} (h : m = start.micros + k * step) :
    m + step = start.micros + (k + 1 : Nat) * step := by
  rw [h, Int.natCast_succ, Int.add_mul, Int.one_mul, Int.add_assoc]

theorem after_stepping (h : InRange (start.micros + k * step)) :
    ∃ i, (stepping start step).after k = .stepping i step ∧
      i.micros = start.micros + k * step ∧ i.offset = start.offset := by
  induction k with
  | zero => exact ⟨start, rfl, by simp, rfl⟩
  | succ k ih =>
    obtain ⟨i, hafter, hmicros, hoffset⟩ := ih (inRange_of_le (Nat.le_succ k) h)
    have hnext := micros_add_step hmicros
    rw [← hnext] at h
    refine ⟨⟨i.micros + step, i.offset, h.1, h.2⟩, ?_, hnext, hoffset⟩
    rw [after_add, hafter, after, read_stepping_of_inRange h]
    rfl

theorem read_after_stepping (h : InRange (start.micros + (k + 1 : Nat) * step)) :
    ∃ now, ((stepping start step).after k).read.1 = .ok now ∧
      now.micros = start.micros + k * step ∧ now.offset = start.offset := by
  obtain ⟨i, hafter, hmicros, hoffset⟩ := after_stepping (inRange_of_le (Nat.le_succ k) h)
  rw [← micros_add_step hmicros] at h
  refine ⟨i, ?_, hmicros, hoffset⟩
  rw [hafter, read_stepping_of_inRange h]

theorem read_after_stepping_of_outside (h : ¬ InRange (start.micros + (k + 1 : Nat) * step)) :
    ((stepping start step).after k).read =
      (.error .outOfRange, (stepping start step).after k) := by
  induction k with
  | zero =>
    rw [Nat.zero_add, Int.natCast_one, Int.one_mul] at h
    exact read_stepping_of_outside h
  | succ k ih =>
    by_cases hin : InRange (start.micros + (k + 1 : Nat) * step)
    · obtain ⟨i, hafter, hmicros, -⟩ := after_stepping hin
      rw [← micros_add_step hmicros] at h
      rw [hafter]
      exact read_stepping_of_outside h
    · -- the reading before this one failed already, so the clock is where that one found it
      have hsame : (stepping start step).after (k + 1) = (stepping start step).after k := by
        rw [after_add, after, ih hin]
        rfl
      rw [hsame]
      exact ih hin

theorem stuck_after_stepping (h : ¬ InRange (start.micros + (k + 1 : Nat) * step)) :
    ((stepping start step).after k).Stuck :=
  ⟨.outOfRange, read_after_stepping_of_outside h⟩

theorem eq_of_read_after_stepping (h : ((stepping start step).after k).read.1 = .ok now) :
    now.micros = start.micros + k * step ∧ now.offset = start.offset := by
  by_cases hin : InRange (start.micros + (k + 1 : Nat) * step)
  · obtain ⟨i, hread, heq⟩ := read_after_stepping hin
    rw [hread] at h
    cases h
    exact heq
  · rw [read_after_stepping_of_outside hin] at h
    cases h

theorem moment_of_stepping (h : ((stepping start step).after k).read.1 = .ok now) :
    now.moment = start.moment + step * k ∧ now.offset.isSome = start.offset.isSome := by
  obtain ⟨hmicros, hoffset⟩ := eq_of_read_after_stepping h
  rw [Int.mul_comm] at hmicros
  exact ⟨Instant.moment_eq_add hmicros hoffset, congrArg Option.isSome hoffset⟩

theorem canRead_of_le {n : Nat} (h : start.micros + step * n ≤ highest) :
    (stepping start step).CanRead n := by
  intro k hk
  have hsteps : (0 : Int) ≤ step * n := Int.mul_nonneg (by omega) (by omega)
  have hlowest := start.lowest_le
  have hin : InRange (start.micros + n * step) := by
    rw [Int.mul_comm]
    exact ⟨by omega, h⟩
  obtain ⟨now, hread, -⟩ := read_after_stepping (inRange_of_le hk hin)
  exact ⟨now, hread⟩

theorem lasts_of_le {n : Nat} (h : start.micros + step * n ≤ highest) :
    (stepping start step).Lasts start.offset.isSome n :=
  ⟨canRead_of_le h, fun _ _ hread => (moment_of_stepping hread).2⟩

theorem stepping_neverGoesBack (start : Instant) (step : Nat) :
    (stepping start step).NeverGoesBack := by
  intro n i j hi hj
  have hfrom := (moment_of_stepping hi).1
  have hto := (moment_of_stepping hj).1
  rw [Int.natCast_succ, Int.mul_add, Int.mul_one] at hto
  omega

theorem since_of_stepping {i j : Nat} {a b : Instant}
    (ha : ((stepping start step).after i).read.1 = .ok a)
    (hb : ((stepping start step).after j).read.1 = .ok b) :
    b.since a = .ok (((j : Int) - i) * step) := by
  obtain ⟨hfrom, hface⟩ := eq_of_read_after_stepping ha
  obtain ⟨hto, hface'⟩ := eq_of_read_after_stepping hb
  have hspan : b.micros - a.micros = ((j : Int) - i) * step := by
    rw [hfrom, hto, Int.sub_mul]
    omega
  rw [Instant.since_eq_sub (hface'.trans hface.symm), hspan]

/-- A stepping clock shows, at each reading, the start and as many steps as there were readings
before, on the clock face of the start, if one more step stays within the years 1 to 9999. From the
first reading on for which it does not, each fails and leaves the clock where that one found it.
The readings that succeed never go back, and the span between two of them is a step for each reading
from one to the other. -/
theorem stepping_readings (start : Instant) {step : Duration} (hstep : 0 ≤ step) :
    ∃ c, stepping? start step = .ok c ∧
      (∀ k : Nat, InRange (start.micros + (k + 1) * step) →
        ∃ now, (c.after k).read.1 = .ok now ∧ now.micros = start.micros + k * step ∧
          now.offset = start.offset) ∧
      (∀ k : Nat, ¬ InRange (start.micros + (k + 1) * step) → ∀ j, k ≤ j →
        c.after j = c.after k ∧ ∃ e, (c.after j).read = (.error e, c.after j) ∧
          (Fault.time e).qualifiedName = "OverflowError") ∧
      c.NeverGoesBack ∧
      ∀ (i j : Nat) (a b : Instant), (c.after i).read.1 = .ok a →
        (c.after j).read.1 = .ok b → b.since a = .ok (((j : Int) - i) * step) := by
  obtain ⟨n, rfl⟩ := Int.eq_ofNat_of_zero_le hstep
  refine ⟨.stepping start n, stepping?_of_nonneg start hstep, fun k hin => ?_,
    fun k hout j hkj => ?_, stepping_neverGoesBack start n, fun i j a b ha hb => ?_⟩
  · exact read_after_stepping hin
  · have hsame : (stepping start n).after j = (stepping start n).after k := by
      obtain ⟨m, rfl⟩ := Nat.exists_eq_add_of_le hkj
      rw [after_add, (stuck_after_stepping hout).after]
    rw [hsame]
    exact ⟨rfl, .outOfRange, read_after_stepping_of_outside hout, rfl⟩
  · exact since_of_stepping ha hb

/-- Noon of the last day is in range, but a clock that goes by days fails where it would be shown. -/
theorem stepping_readings_last_day :
    let day : Duration := 86400000000
    let start : Instant := ⟨253402084800000000, some 60, by decide, by decide⟩
    (0 ≤ day ∧ InRange (start.micros + 2 * day)) ∧
      ∃ c, stepping? start day = .ok c ∧
        (∃ a b, c.read.1 = .ok a ∧ (c.after 1).read.1 = .ok b ∧ a.micros = start.micros ∧
          b.offset = some 60 ∧ b.since a = .ok day) ∧
        ∀ j, 2 ≤ j → c.after j = c.after 2 ∧ ∃ e, (c.after j).read = (.error e, c.after j) ∧
          (Fault.time e).qualifiedName = "OverflowError" := by
  intro day start
  have hday : 0 ≤ day := by decide
  obtain ⟨c, hc, hshows, hfails, -, hspans⟩ := stepping_readings start hday
  obtain ⟨a, ha, hfirst, -⟩ := hshows 0 (by decide)
  obtain ⟨b, hb, -, hface⟩ := hshows 1 (by decide)
  have hspan := hspans 0 1 a b ha hb
  exact ⟨⟨hday, by decide⟩, c, hc, ⟨a, b, ha, hb, hfirst, hface, hspan⟩, hfails 2 (by decide)⟩

end TestRun.Time.Clock
