import Mathlib.Algebra.Order.Ring.Nat
import Mathlib.Algebra.Order.Ring.Int

/-!
# Machine integers with a witness of exactness

Arithmetic and casts on integers of a fixed width: every result is wrapped to the width, and
beside the value stands whether this has ever changed anything.  A computation that never
leaves its widths is the computation on numbers.
-/

namespace FrogAgent.MachineInt

/-- A value, and whether every result on the way to it was exact. -/
structure Traced (α : Type) where
  value : α
  lossless : Bool
  deriving DecidableEq

instance : Monad Traced where
  pure value := ⟨value, true⟩
  bind traced rest :=
    ⟨(rest traced.value).value, traced.lossless && (rest traced.value).lossless⟩

/-- A result as an unsigned integer of `width` bits. -/
def unsigned (width : ℕ) (result : ℤ) : Traced ℕ :=
  ⟨(result % (2 ^ width : ℕ)).toNat, decide (0 ≤ result ∧ result < (2 ^ width : ℕ))⟩

/-- A result as a signed integer of `width` bits. -/
def signed (width : ℕ) (result : ℤ) : Traced ℤ :=
  ⟨result.bmod (2 ^ width),
    decide (-(2 ^ width : ℕ) ≤ 2 * result ∧ 2 * result < (2 ^ width : ℕ))⟩

instance : LawfulMonad Traced :=
  LawfulMonad.mk' Traced
    (fun traced => congrArg (Traced.mk traced.value) (Bool.and_true _))
    (fun _ _ => rfl)
    (fun _ _ _ => congrArg (Traced.mk _) (Bool.and_assoc _ _ _))

@[simp]
theorem lossless_pure {α : Type} (value : α) : (pure value : Traced α).lossless = true := rfl

@[simp]
theorem lossless_bind {α β : Type} (traced : Traced α) (rest : α → Traced β) :
    (traced >>= rest).lossless = (traced.lossless && (rest traced.value).lossless) := rfl

theorem lossless_unsigned (width value : ℕ) :
    (unsigned width value).lossless = decide (value < 2 ^ width) := by
  rw [unsigned, decide_eq_decide]
  omega

theorem unsigned_eq {width value : ℕ} {result : ℤ} (hresult : result = value)
    (hvalue : value < 2 ^ width) : unsigned width result = pure value := by
  have hlow : 0 ≤ result := by omega
  have hhigh : result < (2 ^ width : ℕ) := by omega
  rw [unsigned, Int.emod_eq_of_lt hlow hhigh, decide_eq_true ⟨hlow, hhigh⟩, hresult,
    Int.toNat_natCast]
  rfl

theorem signed_eq {width : ℕ} {result : ℤ} (hlow : -(2 ^ width : ℕ) ≤ 2 * result)
    (hhigh : 2 * result < (2 ^ width : ℕ)) : signed width result = pure result := by
  rw [signed, Int.bmod_eq_of_le (by omega) (by omega), decide_eq_true ⟨hlow, hhigh⟩]
  rfl

/-! ## Going on with an exact result -/

section Bind

variable {β : Type} {width : ℕ} {result : ℤ}

theorem unsigned_bind (value : ℕ) {rest : ℕ → Traced β} (hresult : result = value)
    (hvalue : value < 2 ^ width) : (unsigned width result >>= rest) = rest value := by
  rw [unsigned_eq hresult hvalue, pure_bind]

theorem signed_bind (value : ℕ) {rest : ℤ → Traced β} (hresult : result = value)
    (hvalue : 2 * value < 2 ^ width) : (signed width result >>= rest) = rest value := by
  rw [hresult, signed_eq (by omega) (by omega), pure_bind]

end Bind

end FrogAgent.MachineInt
