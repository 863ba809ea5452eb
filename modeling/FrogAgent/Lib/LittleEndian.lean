import Mathlib.Algebra.Order.Ring.Nat
import Mathlib.Data.List.Basic
import Mathlib.Data.Nat.Basic

/-!
# Fixed-width little-endian numbers

`leBytes count value` is the `count`-byte little-endian image of `value` and
`leValue` reads such an image back.  Both directions are exact at a fixed
width, so a value that is decoded and encoded again keeps its bytes.
-/

namespace FrogAgent.LittleEndian

def leBytes : ℕ → ℕ → List UInt8
  | 0, _ => []
  | count + 1, value => UInt8.ofNat value :: leBytes count (value / 256)

def leValue : List UInt8 → ℕ
  | [] => 0
  | byte :: bytes => byte.toNat + 256 * leValue bytes

@[simp]
theorem length_leBytes (count value : ℕ) : (leBytes count value).length = count := by
  induction count generalizing value with
  | zero => rfl
  | succ count ih => simp [leBytes, ih]

theorem leValue_lt (bytes : List UInt8) : leValue bytes < 256 ^ bytes.length := by
  induction bytes with
  | nil => simp [leValue]
  | cons byte bytes ih =>
      have hbyte : byte.toNat < 256 := byte.toNat_lt
      simp only [leValue, List.length_cons, Nat.pow_succ]
      omega

/-- Writing back the value of a byte string at its own width restores it. -/
theorem leBytes_leValue (bytes : List UInt8) :
    leBytes bytes.length (leValue bytes) = bytes := by
  induction bytes with
  | nil => rfl
  | cons byte bytes ih =>
      have hbyte : byte.toNat < 256 := byte.toNat_lt
      have hlow : UInt8.ofNat (byte.toNat + 256 * leValue bytes) = byte := by
        apply UInt8.toNat_inj.mp
        rw [UInt8.toNat_ofNat']
        omega
      have hhigh : (byte.toNat + 256 * leValue bytes) / 256 = leValue bytes := by
        omega
      simp only [List.length_cons, leValue, leBytes, hlow, hhigh, ih]

/-- Reading back a little-endian image gives the value, if it fits the width. -/
theorem leValue_leBytes {count value : ℕ} (hvalue : value < 256 ^ count) :
    leValue (leBytes count value) = value := by
  induction count generalizing value with
  | zero =>
      simp only [Nat.pow_zero, Nat.lt_one_iff] at hvalue
      simp [leBytes, leValue, hvalue]
  | succ count ih =>
      have hhigh : value / 256 < 256 ^ count := by
        rw [Nat.div_lt_iff_lt_mul (by decide)]
        rwa [Nat.pow_succ] at hvalue
      simp only [leBytes, leValue, ih hhigh, UInt8.toNat_ofNat']
      omega

/-- The image depends on the low bytes only. -/
theorem leBytes_congr {count left right : ℕ}
    (hlow : left % 256 ^ count = right % 256 ^ count) :
    leBytes count left = leBytes count right := by
  induction count generalizing left right with
  | zero => rfl
  | succ count ih =>
      rw [Nat.pow_succ', Nat.mod_mul, Nat.mod_mul] at hlow
      have hbyte : left % 256 = right % 256 := by omega
      have hhigh : left / 256 % 256 ^ count = right / 256 % 256 ^ count := by omega
      have hfirst : UInt8.ofNat left = UInt8.ofNat right := by
        apply UInt8.toNat_inj.mp
        rw [UInt8.toNat_ofNat', UInt8.toNat_ofNat']
        exact hbyte
      rw [leBytes, leBytes, hfirst, ih hhigh]

theorem leValue_leBytes_mod (count value : ℕ) :
    leValue (leBytes count value) = value % 256 ^ count := by
  have hsame : leBytes count value = leBytes count (value % 256 ^ count) :=
    leBytes_congr (Nat.mod_mod value (256 ^ count)).symm
  rw [hsame, leValue_leBytes (Nat.mod_lt _ (Nat.pow_pos (by decide)))]

end FrogAgent.LittleEndian
