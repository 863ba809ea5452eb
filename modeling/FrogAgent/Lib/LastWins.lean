import Mathlib.Data.List.Induction
import Mathlib.Logic.Function.Basic

/-!
# Maps collected from a sequence

A map filled by inserting the entries of a sequence one after the other keeps, for
each key, the value of its last entry.  A lookup is described by the entry it came
from, and for a map from keys to positions by that position.
-/

namespace FrogAgent.LastWins

variable {Key Value Item : Type*} [DecidableEq Key]

def insert (map : Key → Option Value) (key : Key) (value : Value) :
    Key → Option Value :=
  Function.update map key (some value)

def collect (entries : List (Key × Value)) : Key → Option Value :=
  entries.foldl (fun map entry => insert map entry.1 entry.2) fun _ => none

/-- The positions of the items of a sequence by their keys. -/
def positions (keyOf : Item → Key) (items : List Item) : Key → Option ℕ :=
  collect (items.zipIdx.map fun (item, position) => (keyOf item, position))

theorem collect_append_singleton (entries : List (Key × Value)) (entry : Key × Value) :
    collect (entries ++ [entry]) = insert (collect entries) entry.1 entry.2 := by
  simp only [collect, List.foldl_append, List.foldl_cons, List.foldl_nil]

theorem collect_eq_none_iff {entries : List (Key × Value)} {key : Key} :
    collect entries key = none ↔ ∀ entry ∈ entries, entry.1 ≠ key := by
  induction entries using List.reverseRecOn with
  | nil => simp [collect]
  | append_singleton entries entry ih =>
      rw [collect_append_singleton, insert, List.forall_mem_append, List.forall_mem_singleton]
      by_cases hkey : key = entry.1
      · simp [hkey]
      · rw [Function.update_of_ne hkey, ih]
        exact (and_iff_left (Ne.symm hkey)).symm

theorem mem_of_collect {entries : List (Key × Value)} {key : Key} {value : Value}
    (hvalue : collect entries key = some value) : (key, value) ∈ entries := by
  induction entries using List.reverseRecOn with
  | nil => cases hvalue
  | append_singleton entries entry ih =>
      rw [collect_append_singleton, insert] at hvalue
      by_cases hkey : key = entry.1
      · rw [hkey, Function.update_self] at hvalue
        rw [hkey, ← Option.some.inj hvalue]
        exact List.mem_append_right _ List.mem_cons_self
      · rw [Function.update_of_ne hkey] at hvalue
        exact List.mem_append_left _ (ih hvalue)

/-- The position of a key is the one of its last item. -/
theorem positions_eq_some_iff {keyOf : Item → Key} {items : List Item} {key : Key}
    {position : ℕ} :
    positions keyOf items key = some position ↔
      (∃ item, items[position]? = some item ∧ keyOf item = key) ∧
        ∀ later item, position < later → items[later]? = some item →
          keyOf item ≠ key := by
  induction items using List.reverseRecOn with
  | nil => simp [positions, collect]
  | append_singleton items last ih =>
      have hstep : positions keyOf (items ++ [last]) =
          insert (positions keyOf items) (keyOf last) items.length := by
        simp only [positions, List.zipIdx_append, List.map_append, List.zipIdx_cons,
          List.zipIdx_nil, List.map_cons, List.map_nil, collect_append_singleton,
          Nat.zero_add]
      rw [hstep, insert]
      by_cases hkey : key = keyOf last
      · rw [hkey, Function.update_self, Option.some.injEq]
        constructor
        · rintro rfl
          refine ⟨⟨last, by simp, rfl⟩, ?_⟩
          intro later item hlater hitem
          rw [List.getElem?_eq_none (by simp; omega)] at hitem
          cases hitem
        · rintro ⟨⟨item, hitem, -⟩, hlater⟩
          have hlt : position < (items ++ [last]).length :=
            (List.getElem?_eq_some_iff.mp hitem).1
          rw [List.length_append, List.length_singleton] at hlt
          by_contra hne
          exact hlater items.length last (by omega) (by simp) rfl
      · -- The new item has another key, so no item of this key moved.
        have hsame : ∀ (place : ℕ) (item : Item), keyOf item = key →
            (items[place]? = some item ↔ (items ++ [last])[place]? = some item) := by
          intro place item hitem
          rcases Nat.lt_trichotomy place items.length with hlt | heq | hgt
          · rw [List.getElem?_append_left hlt]
          · have hlast : last ≠ item := fun heq => hkey (by rw [heq, hitem])
            simp [heq, hlast]
          · have hpast : (items ++ [last])[place]? = none :=
              List.getElem?_eq_none (by simp; omega)
            simp [List.getElem?_eq_none (Nat.le_of_lt hgt), hpast]
        rw [Function.update_of_ne hkey, ih]
        apply and_congr
        · exact exists_congr fun item => and_congr_left (hsame position item)
        · apply forall₂_congr
          intro later item
          apply imp_congr_right
          intro _
          constructor
          · exact fun hlater hitem hown => hlater ((hsame _ _ hown).mpr hitem) hown
          · exact fun hlater hitem hown => hlater ((hsame _ _ hown).mp hitem) hown

end FrogAgent.LastWins
