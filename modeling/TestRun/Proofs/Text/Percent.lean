import TestRun.Text.Percent
set_option autoImplicit false

namespace TestRun.Text

def percentHead? : List Char → Option (Nat × List Char)
  | [] => none
  | '%' :: high :: low :: rest => do pure (16 * (← hexValue? high) + (← hexValue? low), rest)
  | c :: rest => some (c.toNat, rest)

theorem hexValue?_upperDigit : ∀ n < 16, hexValue? (upperDigit n) = some n := by decide

theorem toNat_of_plain {b : UInt8} (h : isPlainByte b = true) :
    b.toNat < 128 ∧ b.toNat ≠ 37 := by
  simp only [isPlainByte, Bool.or_eq_true, Bool.and_eq_true, decide_eq_true_eq, beq_iff_eq,
    UInt8.le_iff_toNat_le, ← UInt8.toNat_inj, UInt8.reduceToNat] at h
  omega

theorem toNat_ofNat_of_plain {b : UInt8} (h : isPlainByte b = true) :
    (Char.ofNat b.toNat).toNat = b.toNat ∧ Char.ofNat b.toNat ≠ '%' := by
  obtain ⟨hlt, hne⟩ := toNat_of_plain h
  have hvalid : b.toNat.isValidChar := .inl (by omega)
  have hnat : (Char.ofNat b.toNat).toNat = b.toNat := by
    rw [Char.ofNat, dif_pos hvalid]
    rfl
  refine ⟨hnat, fun hpercent => hne ?_⟩
  rw [← hnat, hpercent]
  rfl

theorem percentHead?_percentByte (b : UInt8) (rest : List Char) :
    percentHead? (percentByte b ++ rest) = some (b.toNat, rest) := by
  have hb : b.toNat < 256 := UInt8.toNat_lt_size b
  unfold percentByte
  cases hplain : isPlainByte b with
  | true =>
    obtain ⟨hnat, hne⟩ := toNat_ofNat_of_plain hplain
    rw [if_pos rfl, List.singleton_append, percentHead?, hnat]
    exact fun _ _ _ h => absurd h hne
  | false =>
    rw [if_neg Bool.false_ne_true]
    simp only [List.cons_append, List.nil_append, percentHead?]
    rw [hexValue?_upperDigit _ (by omega), hexValue?_upperDigit _ (by omega)]
    exact congrArg (fun n => some (n, rest)) (by omega)

theorem percentByte_ne_nil (b : UInt8) : percentByte b ≠ [] := by
  unfold percentByte
  split <;> exact List.cons_ne_nil _ _

theorem length_of_percentHead? {cs rest : List Char} {n : Nat}
    (h : percentHead? cs = some (n, rest)) : rest.length < cs.length := by
  fun_cases percentHead? cs with
  | case1 => simp [percentHead?] at h
  | case2 high low more =>
    simp only [percentHead?, Option.bind_eq_bind, Option.bind_eq_some_iff] at h
    obtain ⟨_, -, _, -, h⟩ := h
    cases h
    simp only [List.length_cons]
    omega
  | case3 c more =>
    simp only [percentHead?] at h
    cases h
    exact Nat.lt_succ_self _

def percentBytes? (cs : List Char) : Option (List UInt8) :=
  if cs = [] then some []
  else
    match _h : percentHead? cs with
    | none => none
    | some (n, rest) => if n < 256 then (percentBytes? rest).map (UInt8.ofNat n :: ·) else none
termination_by cs.length
decreasing_by exact length_of_percentHead? _h

def isCodeChar (c : Char) : Bool := c.isAlphanum || ['_', '.', '-', '~', '%'].contains c

/-- The text whose bytes of UTF-8 the percent code stands for, if it stands for any. -/
def percentDecode? (code : String) : Option String := do
  guard (code.toList.all isCodeChar)
  String.fromUTF8? ⟨(← percentBytes? code.toList).toArray⟩

theorem percentBytes?_flatMap (bytes : List UInt8) :
    percentBytes? (bytes.flatMap percentByte) = some bytes := by
  induction bytes with
  | nil => rw [List.flatMap_nil, percentBytes?, if_pos rfl]
  | cons b bytes ih =>
    have hb : b.toNat < 256 := UInt8.toNat_lt_size b
    have hhead := percentHead?_percentByte b (bytes.flatMap percentByte)
    rw [List.flatMap_cons, percentBytes?,
      if_neg fun h => percentByte_ne_nil b (List.append_eq_nil_iff.1 h).1]
    split
    · next h =>
      rw [hhead] at h
      cases h
    · next n rest h =>
      rw [hhead] at h
      cases h
      rw [if_pos hb, ih, Option.map_some, UInt8.ofNat_toNat]

theorem isCodeChar_upperDigit : ∀ n < 16, isCodeChar (upperDigit n) = true := by decide

theorem isCodeChar_of_plain {b : UInt8} (h : isPlainByte b = true) :
    isCodeChar (Char.ofNat b.toNat) = true := by
  have hall : ∀ n < 128, isPlainByte (UInt8.ofNat n) = true → isCodeChar (Char.ofNat n) = true := by
    decide
  have hb := hall b.toNat (toNat_of_plain h).1
  rw [UInt8.ofNat_toNat] at hb
  exact hb h

theorem isCodeChar_of_mem_percentByte {b : UInt8} {c : Char} (h : c ∈ percentByte b) :
    isCodeChar c = true := by
  have hb : b.toNat < 256 := UInt8.toNat_lt_size b
  unfold percentByte at h
  cases hplain : isPlainByte b with
  | true =>
    rw [if_pos hplain, List.mem_singleton] at h
    exact h ▸ isCodeChar_of_plain hplain
  | false =>
    rw [hplain, if_neg Bool.false_ne_true] at h
    simp only [List.mem_cons, List.not_mem_nil, or_false] at h
    rcases h with rfl | rfl | rfl
    · decide
    · exact isCodeChar_upperDigit _ (by omega)
    · exact isCodeChar_upperDigit _ (by omega)

theorem isCodeChar_of_mem_percentEncode {s : String} {c : Char}
    (h : c ∈ (percentEncode s).toList) : isCodeChar c = true := by
  unfold percentEncode at h
  rw [String.toList_ofList] at h
  obtain ⟨b, -, hc⟩ := List.mem_flatMap.1 h
  exact isCodeChar_of_mem_percentByte hc

theorem percentDecode?_percentEncode (s : String) : percentDecode? (percentEncode s) = some s := by
  have hcode : (percentEncode s).toList.all isCodeChar = true :=
    List.all_eq_true.2 fun c hc => isCodeChar_of_mem_percentEncode hc
  have hbytes : percentBytes? (percentEncode s).toList = some s.toUTF8.data.toList := by
    unfold percentEncode
    rw [String.toList_ofList, percentBytes?_flatMap]
  have hvalid : String.fromUTF8? s.toUTF8 = some s := dif_pos s.isValidUTF8
  unfold percentDecode?
  rw [hcode, hbytes]
  exact hvalid

example : percentDecode? "%C3%A9%2f%25~" = some "é/%~" := by cbv

theorem percentEncode_injective : Function.Injective percentEncode := by
  intro s s' h
  have hread := percentDecode?_percentEncode s
  rw [h, percentDecode?_percentEncode] at hread
  exact (Option.some.inj hread).symm

end TestRun.Text
