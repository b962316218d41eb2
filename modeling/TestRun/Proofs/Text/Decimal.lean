import Mathlib
import TestRun.Text.Digits
set_option autoImplicit false

namespace TestRun.Text

theorem isDigit_digit {n : Nat} (h : n < 10) : (digit n).isDigit = true := by
  revert n
  decide

theorem isDigit_of_mem_digits {width n : Nat} : ∀ c ∈ digits 10 width n, c.isDigit = true := by
  induction width generalizing n with
  | zero => exact List.forall_mem_nil _
  | succ width ih =>
    intro c hc
    rcases List.mem_append.1 hc with hc | hc
    · exact ih c hc
    · obtain rfl := List.mem_singleton.1 hc
      exact isDigit_digit (Nat.mod_lt n (by decide))

theorem ofDigitChars_digits (width n init : Nat) :
    Nat.ofDigitChars 10 (digits 10 width n) init = init * 10 ^ width + n % 10 ^ width := by
  induction width generalizing n with
  | zero => simp [digits, Nat.ofDigitChars, Nat.mod_one]
  | succ width ih =>
    have hdigit : ∀ d < 10, (digit d).toNat - '0'.toNat = d := by decide
    have hlast : n % 10 ^ (width + 1) = n % 10 + 10 * (n / 10 % 10 ^ width) := by
      rw [Nat.pow_succ', Nat.mod_mul]
    calc Nat.ofDigitChars 10 (digits 10 (width + 1) n) init
      _ = 10 * (init * 10 ^ width + n / 10 % 10 ^ width) + n % 10 := by
          rw [digits, Nat.ofDigitChars_append, ih, Nat.ofDigitChars_cons,
            hdigit _ (Nat.mod_lt n (by decide))]
          rfl
      _ = init * 10 ^ (width + 1) + (n % 10 + 10 * (n / 10 % 10 ^ width)) := by ring
      _ = init * 10 ^ (width + 1) + n % 10 ^ (width + 1) := by rw [hlast]

/-- The number that a decimal text denotes, with or without a fraction. -/
def rational? (text : String) : Option ℚ :=
  let whole := text.toList.takeWhile (· != '.')
  let fraction := (text.toList.dropWhile (· != '.')).drop 1
  if whole ≠ [] ∧ ∀ c ∈ whole ++ fraction, c.isDigit = true then
    some ((Nat.ofDigitChars 10 (whole ++ fraction) 0 : ℚ) / 10 ^ fraction.length)
  else none

theorem rational?_point {whole fraction : List Char} (hne : whole ≠ [])
    (hwhole : ∀ c ∈ whole, c.isDigit = true) (hfraction : ∀ c ∈ fraction, c.isDigit = true) :
    rational? (String.ofList (whole ++ '.' :: fraction)) =
      some ((Nat.ofDigitChars 10 (whole ++ fraction) 0 : ℚ) / 10 ^ fraction.length) := by
  have hpoint : ∀ c ∈ whole, (c != '.') = true := by
    intro c hc
    rw [bne_iff_ne]
    rintro rfl
    exact absurd (hwhole _ hc) (by decide)
  have htake : (whole ++ '.' :: fraction).takeWhile (· != '.') = whole := by
    rw [List.takeWhile_append_of_pos hpoint]
    simp
  have hdrop : ((whole ++ '.' :: fraction).dropWhile (· != '.')).drop 1 = fraction := by
    rw [List.dropWhile_append_of_pos hpoint]
    simp
  have hdigits : ∀ c ∈ whole ++ fraction, c.isDigit = true :=
    List.forall_mem_append.2 ⟨hwhole, hfraction⟩
  simp only [rational?, String.toList_ofList, htake, hdrop]
  rw [if_pos ⟨hne, hdigits⟩]

/-- Digits with no superfluous zero in front: a zero comes first only if nothing follows it. -/
structure IsNumeral (cs : List Char) : Prop where
  ne_nil : cs ≠ []
  isDigit : ∀ c ∈ cs, c.isDigit = true
  eq_of_zero : cs.head? = some '0' → cs = ['0']

theorem head?_decimal {n : Nat} (h : n ≠ 0) : (decimal n).head? ≠ some '0' := by
  induction n using Nat.strong_induction_on with
  | _ n ih =>
    have hdigit : ∀ d < 10, d ≠ 0 → d.digitChar ≠ '0' := by decide
    rw [decimal, Nat.toDigits_eq_if (by decide)]
    split
    · next hlt => simpa using hdigit n hlt h
    · next hle =>
      rw [List.head?_append_of_ne_nil _ Nat.toDigits_ne_nil]
      exact ih (n / 10) (by omega) (by omega)

theorem isNumeral_decimal (n : Nat) : IsNumeral (decimal n) where
  ne_nil := Nat.toDigits_ne_nil
  isDigit _ hc := Nat.isDigit_of_mem_toDigits (by decide) (by decide) hc
  eq_of_zero hzero := by
    by_cases h : n = 0
    · rw [h]
      rfl
    · exact absurd hzero (head?_decimal h)

def number? (width : Nat) (cs : List Char) : Option (Nat × List Char) :=
  if (cs.take width).length = width && (cs.take width).all Char.isDigit then
    some (Nat.ofDigitChars 10 (cs.take width) 0, cs.drop width)
  else none

theorem number?_digits {width n : Nat} (h : n < 10 ^ width) (cs : List Char) :
    number? width (digits 10 width n ++ cs) = some (n, cs) := by
  have hlength : width = (digits 10 width n).length := (length_digits 10 width n).symm
  have htake : (digits 10 width n ++ cs).take width = digits 10 width n :=
    List.take_left' hlength.symm
  have hdrop : (digits 10 width n ++ cs).drop width = cs := List.drop_left' hlength.symm
  have hread : ((digits 10 width n).length = width && (digits 10 width n).all Char.isDigit) =
      true := by
    rw [Bool.and_eq_true, decide_eq_true_eq, List.all_eq_true]
    exact ⟨hlength.symm, isDigit_of_mem_digits⟩
  unfold number?
  rw [htake, hdrop, if_pos hread, ofDigitChars_digits, Nat.mod_eq_of_lt h, Nat.zero_mul,
    Nat.zero_add]

theorem digits_append_lt {width m n : Nat} (h : m < n) (hn : n < 10 ^ width)
    (cs ds : List Char) : digits 10 width m ++ cs < digits 10 width n ++ ds := by
  induction width generalizing m n cs ds with
  | zero => omega
  | succ width ih =>
    have hdigit : ∀ b < 10, ∀ a < b, digit a < digit b := by decide
    have hfront : n / 10 < 10 ^ width := by
      rw [Nat.pow_succ] at hn
      omega
    simp only [digits, List.append_assoc]
    by_cases hlt : m / 10 < n / 10
    · exact ih hlt hfront _ _
    · have hsame : m / 10 = n / 10 := by omega
      rw [hsame]
      refine List.append_left_lt (List.cons_lt_cons_iff.2 (.inl ?_))
      exact hdigit (n % 10) (by omega) (m % 10) (by omega)

theorem digits_append_le {width m n : Nat} {cs ds : List Char} (hn : n < 10 ^ width)
    (h : m < n ∨ m = n ∧ cs ≤ ds) : digits 10 width m ++ cs ≤ digits 10 width n ++ ds := by
  rcases h with hlt | ⟨rfl, hle⟩
  · exact (digits_append_lt hlt hn cs ds).le
  · rcases hle.eq_or_lt with rfl | hlt
    · exact le_refl _
    · exact (List.append_left_lt hlt).le

end TestRun.Text
