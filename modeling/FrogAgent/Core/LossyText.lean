import FrogAgent.Core.PackedArg
import FrogAgent.Lib.Text

/-!
# Lossy decoding of well-formed text

`String::from_utf8_lossy` leaves well-formed UTF-8 unchanged: the replacement
character only stands for bytes that are not the encoding of a character.
-/

namespace FrogAgent.PackedArg

/-- The decoder reads an encoded character back and takes no more than its bytes. -/
theorem lossyChar_encoded (char : Char) (rest : List UInt8) :
    ∃ first more, String.utf8EncodeChar char = first :: more ∧
      lossyChar first (more ++ rest) = (more.length + 1, char) := by
  have hvalid : char.val.toNat < 0xD800 ∨
      0xDFFF < char.val.toNat ∧ char.val.toNat < 0x110000 := char.valid
  have hchar : ∀ code, code = char.val.toNat → Char.ofNat code = char := by
    intro code hcode
    rw [hcode]
    exact Char.ofNat_toNat char
  simp only [String.utf8EncodeChar]
  split_ifs with hone htwo hthree
  · refine ⟨_, [], rfl, ?_⟩
    simp only [lossyChar, UInt8.toNat_ofNat']
    rw [if_pos (by omega), hchar _ (by omega)]
    rfl
  · refine ⟨_, _, rfl, ?_⟩
    simp only [lossyChar, UInt8.toNat_ofNat', List.cons_append, List.getD_cons_zero]
    rw [if_neg (by omega), if_pos (by omega), if_pos (by omega), hchar _ (by omega)]
    rfl
  · refine ⟨_, _, rfl, ?_⟩
    simp only [lossyChar, UInt8.toNat_ofNat', List.cons_append, List.getD_cons_zero,
      List.getD_cons_succ]
    -- The second byte stays in its range because no character is a surrogate.
    rw [if_neg (by omega), if_neg (by omega), if_pos (by omega),
      if_neg (by split_ifs <;> omega), if_neg (by omega), hchar _ (by omega)]
    rfl
  · refine ⟨_, _, rfl, ?_⟩
    simp only [lossyChar, UInt8.toNat_ofNat', List.cons_append, List.getD_cons_zero,
      List.getD_cons_succ]
    rw [if_neg (by omega), if_neg (by omega), if_neg (by omega), if_pos (by omega),
      if_neg (by split_ifs <;> omega), if_neg (by omega), if_neg (by omega),
      hchar _ (by omega)]
    rfl

theorem lossyChars_encoded (chars : List Char) {fuel : ℕ}
    (hfuel : (chars.flatMap String.utf8EncodeChar).length ≤ fuel) :
    lossyChars fuel (chars.flatMap String.utf8EncodeChar) = chars := by
  induction chars generalizing fuel with
  | nil => cases fuel <;> rfl
  | cons char chars ih =>
      obtain ⟨first, more, hencode, hread⟩ :=
        lossyChar_encoded char (chars.flatMap String.utf8EncodeChar)
      rw [List.flatMap_cons, hencode, List.cons_append] at hfuel ⊢
      cases fuel with
      | zero => simp at hfuel
      | succ fuel =>
          rw [List.length_cons, List.length_append] at hfuel
          simp only [lossyChars, hread, Nat.add_sub_cancel, List.drop_left' rfl]
          rw [ih (by omega)]

theorem utf8_eq_flatMap (text : String) :
    text.toUTF8.toList = text.toList.flatMap String.utf8EncodeChar := by
  rw [String.toUTF8_eq_toByteArray, ← String.utf8Encode_toList]
  exact Text.toList_toByteArray _

theorem fromUtf8Lossy_utf8 (text : String) : fromUtf8Lossy text.toUTF8.toList = text := by
  rw [fromUtf8Lossy, utf8_eq_flatMap, lossyChars_encoded _ (Nat.le_refl _),
    String.ofList_toList]

theorem fromUtf8Lossy_ne_empty {bytes : List UInt8} (hbytes : bytes ≠ []) :
    fromUtf8Lossy bytes ≠ "" := by
  cases bytes with
  | nil => exact absurd rfl hbytes
  | cons first rest =>
      intro hempty
      have hchars := congrArg String.toList hempty
      rw [fromUtf8Lossy, String.toList_ofList, List.length_cons, lossyChars] at hchars
      cases hchars

end FrogAgent.PackedArg
