import Mathlib.Data.List.Basic

/-!
# Strings as UTF-8 bytes

A string and the list of its UTF-8 bytes determine each other.
-/

namespace FrogAgent.Text

theorem toList_loop (bytes : ByteArray) (idx : ℕ) (front : List UInt8) :
    ByteArray.toList.loop bytes idx front =
      front.reverse ++ bytes.data.toList.drop idx := by
  fun_induction ByteArray.toList.loop bytes idx front with
  | case1 idx front hidx ih =>
      have hlength : idx < bytes.data.toList.length := hidx
      have hget : bytes.get! idx = bytes.data.toList[idx] := by
        simp only [ByteArray.get!, Array.getElem_toList]
        exact getElem!_pos bytes.data idx hidx
      rw [ih, hget, List.drop_eq_getElem_cons hlength, List.reverse_cons,
        List.append_assoc]
      rfl
  | case2 idx front hidx =>
      have hlength : bytes.data.toList.length ≤ idx := Nat.le_of_not_lt hidx
      rw [List.drop_eq_nil_of_le hlength, List.append_nil]

theorem toList_eq_data (bytes : ByteArray) : bytes.toList = bytes.data.toList := by
  rw [ByteArray.toList, toList_loop]
  rfl

theorem toByteArray_toList (bytes : ByteArray) : bytes.toList.toByteArray = bytes := by
  apply ByteArray.ext
  rw [List.data_toByteArray, toList_eq_data]

theorem toList_toByteArray (bytes : List UInt8) : bytes.toByteArray.toList = bytes := by
  rw [toList_eq_data, List.data_toByteArray]

theorem length_toList (bytes : ByteArray) : bytes.toList.length = bytes.size := by
  rw [toList_eq_data]
  rfl

/-- Reading the bytes of a string gives the string. -/
theorem fromUTF8_utf8 (text : String) :
    String.fromUTF8? text.toUTF8.toList.toByteArray = some text := by
  rw [toByteArray_toList, String.toUTF8_eq_toByteArray]
  exact dif_pos text.isValidUTF8

/-- A byte string that reads as a string is that string's bytes. -/
theorem utf8_of_fromUTF8 {bytes : List UInt8} {text : String}
    (htext : String.fromUTF8? bytes.toByteArray = some text) :
    text.toUTF8.toList = bytes := by
  simp only [String.fromUTF8?] at htext
  split at htext
  · cases htext
    exact toList_toByteArray bytes
  · contradiction

end FrogAgent.Text
