import Mathlib.Data.String.Basic
import TestRun.Proofs.Files.Walks
set_option autoImplicit false

namespace TestRun

namespace Text

theorem CodePoint.toChar?_ofChar (c : Char) : (CodePoint.ofChar c).toChar? = some c := by
  have hvalid : c.val.toNat.isValidChar := c.valid
  have hplain : ¬ (CodePoint.ofChar c).isSurrogate = true := by
    have hvalue : (CodePoint.ofChar c).value = c.val.toNat := rfl
    simp only [isSurrogate, isHigh, isLow, Bool.or_eq_true, Bool.and_eq_true, decide_eq_true_eq]
    simp only [Nat.isValidChar] at hvalid
    omega
  unfold toChar?
  rw [if_neg hplain]
  exact congrArg some (Char.ofNat_toNat c)

theorem CodePoint.ofChar_injective : Function.Injective CodePoint.ofChar := by
  intro c c' h
  have hread := congrArg CodePoint.toChar? h
  rw [CodePoint.toChar?_ofChar, CodePoint.toChar?_ofChar] at hread
  exact Option.some.inj hread

namespace CodeText

theorem mem_ofString {c : Char} {s : String} : .ofChar c ∈ ofString s ↔ c ∈ s.toList :=
  List.mem_map_of_injective CodePoint.ofChar_injective

theorem bytes_ofString (s : String) : (ofString s).bytes = s.toByteArray.data.toList := by
  have hchar : (fun c => (CodePoint.ofChar c).bytes) = String.utf8EncodeChar := by
    funext c
    unfold CodePoint.bytes
    rw [CodePoint.toChar?_ofChar]
  calc (ofString s).bytes
      = s.toList.flatMap String.utf8EncodeChar := by
        unfold bytes ofString ofChars
        rw [List.flatMap_map, hchar]
    _ = s.toList.utf8Encode.data.toList := List.toList_data_toByteArray.symm
    _ = s.toByteArray.data.toList := by rw [String.utf8Encode_toList]

theorem bytes_ofString_injective : Function.Injective fun s : String => (ofString s).bytes := by
  intro s s' h
  dsimp only at h
  rw [bytes_ofString, bytes_ofString] at h
  exact String.toByteArray_inj.1 (ByteArray.ext (Array.toList_inj.1 h))

theorem pieces_of_not_mem {mark : Char} {t : CodeText} (h : CodePoint.ofChar mark ∉ t) :
    t.pieces mark = [t] := by
  induction t with
  | nil => rfl
  | cons p rest ih =>
    obtain ⟨hne, hrest⟩ := List.ne_and_not_mem_of_not_mem_cons h
    rw [pieces, ih hrest]
    exact if_neg hne.symm

end CodeText

end Text

namespace Files.Path

open Text

theorem ofText_of_name {t : CodeText} (hslash : slash ∉ t) (hempty : t ≠ .ofString "")
    (hdot : t ≠ .ofString ".") : ofText t = ⟨0, [t]⟩ := by
  have hfront : t.takeWhile (· == slash) = [] := by
    cases t with
    | nil => rfl
    | cons p rest =>
      have hp : (p == slash) = false := beq_false_of_ne fun heq => hslash (heq ▸ List.mem_cons_self)
      rw [List.takeWhile_cons_of_neg (hp ▸ Bool.false_ne_true)]
  have hplain : slashesOf t = 0 := by
    unfold slashesOf
    rw [hfront]
    rfl
  unfold ofText
  rw [hplain, CodeText.pieces_of_not_mem hslash, List.filter_cons_of_pos (by simp [hempty, hdot]),
    List.filter_nil]

end Files.Path

end TestRun
