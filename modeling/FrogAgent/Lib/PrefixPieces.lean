import Mathlib.Data.List.Basic
import Mathlib.Data.List.Flatten

/-!
# A prefix in pieces

Data that lies in several buffers, of which a transfer has used the first `limit` elements.
Reading the buffers in order, each as far as the limit goes, gives the used prefix in
pieces, some of which may be empty.
-/

namespace FrogAgent.PrefixPieces

variable {α : Type*}

/-- What each buffer gives when `limit` elements are taken from all of them in order. -/
def pieces (limit : ℕ) : List (List α) → List (List α)
  | [] => []
  | buffer :: buffers => buffer.take limit :: pieces (limit - buffer.length) buffers

theorem flatten_pieces (limit : ℕ) (buffers : List (List α)) :
    (pieces limit buffers).flatten = buffers.flatten.take limit := by
  induction buffers generalizing limit with
  | nil => simp [pieces]
  | cons buffer buffers ih =>
      rw [pieces, List.flatten_cons, List.flatten_cons, List.take_append, ih]

/-- Nothing is left of the limit: every piece is empty. -/
theorem eq_nil_of_mem_pieces_zero {buffers : List (List α)} {piece : List α}
    (hpiece : piece ∈ pieces 0 buffers) : piece = [] := by
  induction buffers with
  | nil => simp [pieces] at hpiece
  | cons buffer buffers ih =>
      rw [pieces, Nat.zero_sub, List.take_zero] at hpiece
      rcases List.mem_cons.mp hpiece with rfl | htail
      · rfl
      · exact ih htail

/-- Pieces that are left out because they are empty are not missed. -/
theorem flatten_filter_of_forall_ne_nil {keep : List α → Bool} {parts : List (List α)}
    (hkeep : ∀ part ∈ parts, part ≠ [] → keep part = true) :
    (parts.filter keep).flatten = parts.flatten := by
  induction parts with
  | nil => rfl
  | cons part parts ih =>
      have htail := ih fun other hother => hkeep other (List.mem_cons_of_mem _ hother)
      by_cases hpart : keep part = true
      · rw [List.filter_cons_of_pos hpart, List.flatten_cons, List.flatten_cons, htail]
      · have hnil : part = [] := by
          by_contra hne
          exact hpart (hkeep part List.mem_cons_self hne)
        rw [List.filter_cons_of_neg hpart, List.flatten_cons, htail, hnil, List.nil_append]

end FrogAgent.PrefixPieces
