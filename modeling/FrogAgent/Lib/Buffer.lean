import Mathlib.Data.List.Basic

/-!
# Bounded buffers

A buffer has a fixed length.  Copies out of it and into it fail where they would leave
it, and a copy into it changes nothing outside its own range.
-/

namespace FrogAgent.Buffer

variable {α : Type*}

def copyOut (buffer : List α) (start count : ℕ) : Option (List α) :=
  if start + count ≤ buffer.length then some ((buffer.drop start).take count) else none

def copyIn (buffer : List α) (start : ℕ) (items : List α) : Option (List α) :=
  if start + items.length ≤ buffer.length then
    some (buffer.take start ++ items ++ buffer.drop (start + items.length))
  else none

/-- Two states of a buffer that differ at most in `count` places from `start` on. -/
structure SameOutside (start count : ℕ) (before after : List α) : Prop where
  length_eq : after.length = before.length
  getElem?_eq : ∀ idx, idx < start ∨ start + count ≤ idx → after[idx]? = before[idx]?

theorem SameOutside.refl (start count : ℕ) (buffer : List α) :
    SameOutside start count buffer buffer :=
  ⟨rfl, fun _ _ => rfl⟩

/-- What a copy that fits leaves: the old buffer up to `start` and behind the items. -/
theorem eq_of_copyIn {buffer items after : List α} {start : ℕ}
    (hcopy : copyIn buffer start items = some after) :
    start + items.length ≤ buffer.length ∧ (buffer.take start).length = start ∧
      after = buffer.take start ++ items ++ buffer.drop (start + items.length) := by
  rw [copyIn] at hcopy
  split at hcopy
  case isFalse => cases hcopy
  case isTrue hfits =>
    cases hcopy
    have htake : (buffer.take start).length = start := by
      rw [List.length_take]
      exact Nat.min_eq_left (Nat.le_trans (Nat.le_add_right _ _) hfits)
    exact ⟨hfits, htake, rfl⟩

theorem length_copyIn {buffer items after : List α} {start : ℕ}
    (hcopy : copyIn buffer start items = some after) : after.length = buffer.length := by
  obtain ⟨hfits, htake, rfl⟩ := eq_of_copyIn hcopy
  rw [List.length_append, List.length_append, htake, List.length_drop,
    Nat.add_sub_cancel' hfits]

theorem copyIn_sameOutside {buffer items after : List α} {start : ℕ}
    (hcopy : copyIn buffer start items = some after) :
    SameOutside start items.length buffer after := by
  refine ⟨length_copyIn hcopy, fun idx hidx => ?_⟩
  obtain ⟨-, htake, rfl⟩ := eq_of_copyIn hcopy
  rcases hidx with hbefore | hafter
  · rw [List.append_assoc, List.getElem?_append_left (by rwa [htake]),
      List.getElem?_take_of_lt hbefore]
  · have hfront : (buffer.take start ++ items).length = start + items.length := by
      rw [List.length_append, htake]
    rw [List.getElem?_append_right (by rwa [hfront]), hfront, List.getElem?_drop,
      Nat.add_sub_cancel' hafter]

/-- The items are where they were copied to. -/
theorem getElem?_copyIn {buffer items after : List α} {start : ℕ}
    (hcopy : copyIn buffer start items = some after) {idx : ℕ}
    (hidx : idx < items.length) : after[start + idx]? = items[idx]? := by
  obtain ⟨-, htake, rfl⟩ := eq_of_copyIn hcopy
  rw [List.append_assoc, List.getElem?_append_right (by rw [htake]; exact Nat.le_add_right _ _),
    htake, Nat.add_sub_cancel_left, List.getElem?_append_left hidx]

/-- What was copied in reads back. -/
theorem take_drop_copyIn {buffer items after : List α} {start : ℕ}
    (hcopy : copyIn buffer start items = some after) :
    (after.drop start).take items.length = items := by
  obtain ⟨-, htake, rfl⟩ := eq_of_copyIn hcopy
  rw [List.append_assoc, List.drop_left' htake, List.take_left' rfl]

end FrogAgent.Buffer
