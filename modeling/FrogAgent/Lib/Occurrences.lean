import Mathlib.Data.List.Infix
import Mathlib.Data.List.Range

/-!
# Occurrences of a pattern

The naive search: every place of a text at which a pattern stands, ascending and
overlapping ones included.  A search that skips ahead finds the same places as long
as it only skips places where the pattern does not stand.
-/

namespace FrogAgent.Occurrences

variable {α : Type*}

/-- The pattern stands at `place`, wholly inside the text. -/
def OccursAt (pattern text : List α) (place : ℕ) : Prop := pattern <+: text.drop place

instance [DecidableEq α] (pattern text : List α) (place : ℕ) :
    Decidable (OccursAt pattern text place) :=
  inferInstanceAs (Decidable (pattern <+: text.drop place))

def occurrences [DecidableEq α] (pattern text : List α) : List ℕ :=
  (List.range text.length).filter fun place => OccursAt pattern text place

/-- The occurrences from `offset` on. -/
def occurrencesFrom [DecidableEq α] (pattern text : List α) (offset : ℕ) : List ℕ :=
  (List.range' offset (text.length - offset)).filter fun place =>
    OccursAt pattern text place

section Places

variable {pattern text : List α} {place : ℕ}

theorem OccursAt.fits (hoccurs : OccursAt pattern text place) (hpattern : pattern ≠ []) :
    place + pattern.length ≤ text.length := by
  have hlength : 0 < pattern.length := List.length_pos_iff.mpr hpattern
  have hle := hoccurs.length_le
  rw [List.length_drop] at hle
  omega

theorem occursAt_iff_take :
    OccursAt pattern text place ↔ (text.drop place).take pattern.length = pattern := by
  rw [OccursAt, List.prefix_iff_eq_take]
  exact eq_comm

/-- The text goes on like the pattern starts. -/
theorem OccursAt.head {first : α} (hoccurs : OccursAt pattern text place)
    (hfirst : pattern.head? = some first) : text[place]? = some first := by
  obtain ⟨rest, hrest⟩ := hoccurs
  rw [← List.head?_drop, ← hrest, List.head?_append, hfirst]
  rfl

end Places

section Search

variable [DecidableEq α] {pattern text : List α} {offset next place : ℕ}

theorem mem_occurrences (hpattern : pattern ≠ []) :
    place ∈ occurrences pattern text ↔ OccursAt pattern text place := by
  simp only [occurrences, List.mem_filter, List.mem_range, decide_eq_true_eq,
    and_iff_right_iff_imp]
  intro hoccurs
  have hlength : 0 < pattern.length := List.length_pos_iff.mpr hpattern
  have hfits := hoccurs.fits hpattern
  omega

theorem occurrences_pairwise (pattern text : List α) :
    (occurrences pattern text).Pairwise (· < ·) :=
  List.pairwise_lt_range.filter _

theorem occurrencesFrom_zero (pattern text : List α) :
    occurrencesFrom pattern text 0 = occurrences pattern text := by
  rw [occurrencesFrom, occurrences, List.range_eq_range', Nat.sub_zero]

/-- Nothing is lost by skipping places where the pattern does not stand. -/
theorem occurrencesFrom_skip (hnext : offset ≤ next) (hinside : next ≤ text.length)
    (hnone : ∀ place, offset ≤ place → place < next → ¬ OccursAt pattern text place) :
    occurrencesFrom pattern text offset = occurrencesFrom pattern text next := by
  have hsplit : text.length - offset = (next - offset) + (text.length - next) := by omega
  have hskipped : (List.range' offset (next - offset)).filter
      (fun place => OccursAt pattern text place) = [] := by
    rw [List.filter_eq_nil_iff]
    intro place hplace
    rw [List.mem_range'_1] at hplace
    simpa using hnone place hplace.1 (by omega)
  rw [occurrencesFrom, hsplit, ← List.range'_append_1, List.filter_append, hskipped,
    Nat.add_sub_cancel' hnext]
  rfl

theorem occurrencesFrom_eq_nil
    (hnone : ∀ place, offset ≤ place → ¬ OccursAt pattern text place) :
    occurrencesFrom pattern text offset = [] := by
  rw [occurrencesFrom, List.filter_eq_nil_iff]
  intro place hplace
  rw [List.mem_range'_1] at hplace
  simpa using hnone place hplace.1

theorem occurrencesFrom_hit (hpattern : pattern ≠ [])
    (hoccurs : OccursAt pattern text place) :
    occurrencesFrom pattern text place =
      place :: occurrencesFrom pattern text (place + 1) := by
  have hlength : 0 < pattern.length := List.length_pos_iff.mpr hpattern
  have hfits := hoccurs.fits hpattern
  have hcount : text.length - place = (text.length - (place + 1)) + 1 := by omega
  rw [occurrencesFrom, hcount, List.range'_succ, List.filter_cons_of_pos (by simpa using hoccurs)]
  rfl

end Search

end FrogAgent.Occurrences
