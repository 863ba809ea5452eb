import Mathlib.Data.Finset.SDiff
import Mathlib.Data.Finset.Filter
import Mathlib.Data.Finset.Card
import Mathlib.Data.List.Basic

/-!
# Differences of keyed lists

Two lists of entries, each strictly increasing in its keys, are compared by going
through both at once.  The counts this merge ends with are the sizes of the
differences of the key sets and of the set of keys the lists disagree on.
-/

namespace FrogAgent.KeyedDiff

variable {K V : Type*}

structure Counts where
  added : ℕ := 0
  removed : ℕ := 0
  changed : ℕ := 0
  deriving DecidableEq, Repr

namespace Counts

def total (counts : Counts) : ℕ := counts.added + counts.removed + counts.changed

/-- What is added one way round is removed the other way round. -/
def swap (counts : Counts) : Counts :=
  { added := counts.removed, removed := counts.added, changed := counts.changed }

def plus (left right : Counts) : Counts where
  added := left.added + right.added
  removed := left.removed + right.removed
  changed := left.changed + right.changed

theorem plus_assoc (left middle right : Counts) :
    (left.plus middle).plus right = left.plus (middle.plus right) := by
  simp only [plus, Nat.add_assoc]

theorem swap_plus (left right : Counts) :
    (left.plus right).swap = left.swap.plus right.swap := rfl

theorem zero_plus (counts : Counts) : (Counts.mk 0 0 0).plus counts = counts := by
  simp only [plus, Nat.zero_add]

theorem total_plus (left right : Counts) :
    (left.plus right).total = left.total + right.total := by
  simp only [total, plus]
  omega

end Counts

section Entries

variable [LinearOrder K]

def Increasing (entries : List (K × V)) : Prop :=
  entries.Pairwise fun left right => left.1 < right.1

instance (entries : List (K × V)) : Decidable (Increasing entries) :=
  inferInstanceAs (Decidable (entries.Pairwise fun left right => left.1 < right.1))

def keys (entries : List (K × V)) : Finset K := (entries.map Prod.fst).toFinset

theorem keys_cons (key : K) (value : V) (entries : List (K × V)) :
    keys ((key, value) :: entries) = insert key (keys entries) := by
  rw [keys, List.map_cons, List.toFinset_cons, keys]

theorem Increasing.tail {entry : K × V} {entries : List (K × V)}
    (hincreasing : Increasing (entry :: entries)) : Increasing entries :=
  (List.pairwise_cons.mp hincreasing).2

/-- Every key after the head is larger than the head's. -/
theorem Increasing.notMem_keys {key smaller : K} {value : V} {entries : List (K × V)}
    (hincreasing : Increasing ((key, value) :: entries)) (hsmaller : smaller ≤ key) :
    smaller ∉ keys entries := by
  intro hmem
  simp only [keys, List.mem_toFinset, List.mem_map] at hmem
  obtain ⟨entry, hentry, rfl⟩ := hmem
  exact absurd ((List.pairwise_cons.mp hincreasing).1 entry hentry) (not_lt_of_ge hsmaller)

theorem Increasing.notMem_keys_cons {key smaller : K} {value : V} {entries : List (K × V)}
    (hincreasing : Increasing ((key, value) :: entries)) (hsmaller : smaller < key) :
    smaller ∉ keys ((key, value) :: entries) := by
  rw [keys_cons, Finset.mem_insert, not_or]
  exact ⟨ne_of_lt hsmaller, hincreasing.notMem_keys (le_of_lt hsmaller)⟩

theorem card_keys {entries : List (K × V)} (hincreasing : Increasing entries) :
    (keys entries).card = entries.length := by
  induction entries with
  | nil => rfl
  | cons entry entries ih =>
      rw [keys_cons, Finset.card_insert_of_notMem (hincreasing.notMem_keys (le_refl _)),
        ih hincreasing.tail, List.length_cons]

theorem lookup_cons_of_ne {key other : K} (value : V) (entries : List (K × V))
    (hne : other ≠ key) : ((key, value) :: entries).lookup other = entries.lookup other := by
  rw [List.lookup_cons, beq_false_of_ne hne]

variable [DecidableEq V]

/-- The keys of both lists under which they hold different values. -/
def differing (prev cur : List (K × V)) : Finset K :=
  (keys prev ∩ keys cur).filter fun key => prev.lookup key ≠ cur.lookup key

/-- One round at two entries with the same key. -/
def matched (prev cur : V) : Counts :=
  if prev = cur then ⟨0, 0, 0⟩ else ⟨0, 0, 1⟩

/-- Go through both lists at once, always past the smaller key. -/
def merge : List (K × V) → List (K × V) → Counts
  | [], cur => ⟨cur.length, 0, 0⟩
  | prev, [] => ⟨0, prev.length, 0⟩
  | (prevKey, prevValue) :: prev, (curKey, curValue) :: cur =>
      if prevKey = curKey then (matched prevValue curValue).plus (merge prev cur)
      else if prevKey < curKey then
        (Counts.mk 0 1 0).plus (merge prev ((curKey, curValue) :: cur))
      else (Counts.mk 1 0 0).plus (merge ((prevKey, prevValue) :: prev) cur)
termination_by prev cur => prev.length + cur.length

theorem matched_total_eq_zero_iff {prev cur : V} :
    (matched prev cur).total = 0 ↔ prev = cur := by
  by_cases heq : prev = cur
  · simp [matched, heq, Counts.total]
  · simp [matched, heq, Counts.total]

theorem merge_nil (prev : List (K × V)) : merge prev [] = ⟨0, prev.length, 0⟩ := by
  cases prev with
  | nil => rw [merge]; rfl
  | cons entry prev => rw [merge]; nofun

/-- Nothing differs exactly when the lists are the same, sorted or not. -/
theorem merge_total_eq_zero_iff (prev cur : List (K × V)) :
    (merge prev cur).total = 0 ↔ prev = cur := by
  induction prev, cur using merge.induct with
  | case1 cur =>
      rw [merge, @eq_comm _ [], ← List.length_eq_zero_iff]
      simp only [Counts.total, Nat.add_zero]
  | case2 prev hprev =>
      rw [merge_nil, ← List.length_eq_zero_iff]
      simp only [Counts.total, Nat.zero_add, Nat.add_zero]
  | case3 prevValue prev key curValue cur ih =>
      rw [merge, if_pos rfl, Counts.total_plus, Nat.add_eq_zero_iff,
        matched_total_eq_zero_iff, ih]
      simp only [List.cons.injEq, Prod.mk.injEq, true_and]
  | case4 prevKey prevValue prev curKey curValue cur hne hlt _ =>
      rw [merge, if_neg hne, if_pos hlt, Counts.total_plus]
      simp [Counts.total, hne]
  | case5 prevKey prevValue prev curKey curValue cur hne hlt _ =>
      rw [merge, if_neg hne, if_neg hlt, Counts.total_plus]
      simp [Counts.total, hne]

theorem matched_swap (prev cur : V) : (matched prev cur).swap = matched cur prev := by
  by_cases heq : prev = cur
  · rw [heq, matched, if_pos rfl]
    rfl
  · rw [matched, if_neg heq, matched, if_neg (Ne.symm heq)]
    rfl

theorem merge_swap (prev cur : List (K × V)) : (merge prev cur).swap = merge cur prev := by
  induction prev, cur using merge.induct with
  | case1 cur =>
      rw [merge, merge_nil]
      rfl
  | case2 prev hprev =>
      rw [merge_nil, merge]
      rfl
  | case3 prevValue prev key curValue cur ih =>
      rw [merge, if_pos rfl, Counts.swap_plus, ih, matched_swap, merge, if_pos rfl]
  | case4 prevKey prevValue prev curKey curValue cur hne hlt ih =>
      rw [merge, if_neg hne, if_pos hlt, Counts.swap_plus, ih, merge, if_neg (Ne.symm hne),
        if_neg (not_lt_of_gt hlt)]
      rfl
  | case5 prevKey prevValue prev curKey curValue cur hne hlt ih =>
      have hgt : curKey < prevKey := lt_of_le_of_ne (le_of_not_gt hlt) (Ne.symm hne)
      rw [merge, if_neg hne, if_neg hlt, Counts.swap_plus, ih, merge, if_neg (Ne.symm hne),
        if_pos hgt]
      rfl

theorem merge_total_le (prev cur : List (K × V)) :
    (merge prev cur).total ≤ prev.length + cur.length := by
  induction prev, cur using merge.induct with
  | case1 cur =>
      rw [merge]
      simp only [Counts.total, Nat.add_zero, List.length_nil, Nat.zero_add, Nat.le_refl]
  | case2 prev _ =>
      rw [merge_nil]
      simp only [Counts.total, Nat.add_zero, List.length_nil, Nat.zero_add, Nat.le_refl]
  | case3 prevValue prev key curValue cur ih =>
      have hround : (matched prevValue curValue).total ≤ 1 := by
        by_cases heq : prevValue = curValue <;> simp [matched, heq, Counts.total]
      rw [merge, if_pos rfl, Counts.total_plus, List.length_cons, List.length_cons]
      omega
  | case4 prevKey prevValue prev curKey curValue cur hne hlt ih =>
      rw [merge, if_neg hne, if_pos hlt, Counts.total_plus]
      simp only [Counts.total, List.length_cons] at ih ⊢
      omega
  | case5 prevKey prevValue prev curKey curValue cur hne hlt ih =>
      rw [merge, if_neg hne, if_neg hlt, Counts.total_plus]
      simp only [Counts.total, List.length_cons] at ih ⊢
      omega

/-! ## Cardinalities -/

theorem differing_comm (prev cur : List (K × V)) : differing prev cur = differing cur prev := by
  ext key
  simp only [differing, Finset.mem_filter, Finset.mem_inter, ne_eq, and_comm, eq_comm]

/-- An entry whose key the other list lacks has nothing to disagree with. -/
theorem differing_cons_left {key : K} {cur : List (K × V)} (hkey : key ∉ keys cur)
    (value : V) (prev : List (K × V)) :
    differing ((key, value) :: prev) cur = differing prev cur := by
  rw [differing, keys_cons, Finset.insert_inter_of_notMem hkey, differing]
  apply Finset.filter_congr
  intro other hother
  have hne : other ≠ key := by
    rintro rfl
    exact hkey (Finset.mem_inter.mp hother).2
  rw [lookup_cons_of_ne value prev hne]

theorem differing_cons_right {key : K} {prev : List (K × V)} (hkey : key ∉ keys prev)
    (value : V) (cur : List (K × V)) :
    differing prev ((key, value) :: cur) = differing prev cur := by
  rw [differing_comm, differing_cons_left hkey, differing_comm]

theorem card_differing_cons {key : K} {prev cur : List (K × V)} (hprev : key ∉ keys prev)
    (prevValue curValue : V) :
    (differing ((key, prevValue) :: prev) ((key, curValue) :: cur)).card =
      (matched prevValue curValue).changed + (differing prev cur).card := by
  have hrest : ((keys prev ∩ keys cur).filter fun other =>
      ((key, prevValue) :: prev).lookup other ≠ ((key, curValue) :: cur).lookup other) =
      differing prev cur := by
    apply Finset.filter_congr
    intro other hother
    have hne : other ≠ key := by
      rintro rfl
      exact hprev (Finset.mem_inter.mp hother).1
    rw [lookup_cons_of_ne prevValue prev hne, lookup_cons_of_ne curValue cur hne]
  have hnot : key ∉ differing prev cur := by
    intro hmem
    exact hprev (Finset.mem_inter.mp (Finset.mem_filter.mp hmem).1).1
  rw [differing, keys_cons, keys_cons, ← Finset.insert_inter_distrib, Finset.filter_insert,
    hrest, List.lookup_cons_self, List.lookup_cons_self]
  by_cases heq : prevValue = curValue
  · simp [matched, heq]
  · simp [matched, heq, Finset.card_insert_of_notMem hnot, Nat.add_comm]

/-- The merge of two sorted lists counts the two differences of the key sets and the
keys the lists disagree on. -/
theorem merge_eq {prev cur : List (K × V)} (hprev : Increasing prev)
    (hcur : Increasing cur) :
    merge prev cur =
      ⟨(keys cur \ keys prev).card, (keys prev \ keys cur).card,
        (differing prev cur).card⟩ := by
  induction prev, cur using merge.induct with
  | case1 cur =>
      rw [merge, ← card_keys hcur]
      simp [keys, differing]
  | case2 prev _ =>
      rw [merge_nil, ← card_keys hprev, differing_comm]
      simp [keys, differing]
  | case3 prevValue prev key curValue cur ih =>
      have hkeyPrev : key ∉ keys prev := hprev.notMem_keys (le_refl key)
      have hkeyCur : key ∉ keys cur := hcur.notMem_keys (le_refl key)
      rw [merge, if_pos rfl, ih hprev.tail hcur.tail, card_differing_cons hkeyPrev,
        keys_cons, keys_cons, Finset.insert_sdiff_insert, Finset.insert_sdiff_insert,
        Finset.sdiff_insert_of_notMem hkeyCur, Finset.sdiff_insert_of_notMem hkeyPrev]
      simp only [Counts.plus, matched]
      split <;> simp only [Nat.zero_add]
  | case4 prevKey prevValue prev curKey curValue cur hne hlt ih =>
      have hkeyPrev : prevKey ∉ keys prev := hprev.notMem_keys (le_refl prevKey)
      have hkeyCur := hcur.notMem_keys_cons hlt
      rw [merge, if_neg hne, if_pos hlt, ih hprev.tail hcur, differing_cons_left hkeyCur,
        keys_cons prevKey, Finset.sdiff_insert_of_notMem hkeyCur,
        Finset.insert_sdiff_of_notMem _ hkeyCur, Finset.card_insert_of_notMem
          (fun hmem => hkeyPrev (Finset.mem_sdiff.mp hmem).1)]
      simp only [Counts.plus, Nat.zero_add, Nat.add_comm 1]
  | case5 prevKey prevValue prev curKey curValue cur hne hlt ih =>
      have hgt : curKey < prevKey := lt_of_le_of_ne (le_of_not_gt hlt) (Ne.symm hne)
      have hkeyCur : curKey ∉ keys cur := hcur.notMem_keys (le_refl curKey)
      have hkeyPrev := hprev.notMem_keys_cons hgt
      rw [merge, if_neg hne, if_neg hlt, ih hprev hcur.tail, differing_cons_right hkeyPrev,
        keys_cons curKey, Finset.sdiff_insert_of_notMem hkeyPrev,
        Finset.insert_sdiff_of_notMem _ hkeyPrev, Finset.card_insert_of_notMem
          (fun hmem => hkeyCur (Finset.mem_sdiff.mp hmem).1)]
      simp only [Counts.plus, Nat.zero_add, Nat.add_comm 1]

end Entries

end FrogAgent.KeyedDiff
