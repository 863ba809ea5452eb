import FrogAgent.Lib.KeyedDiff
import FrogAgent.Lib.Slice

/-!
# Region churn

`region_churn.rs`: the difference between two snapshots of the region list.  The
code goes through both lists with one index each; the indices and the two tail
lengths are checked, so that the result below also says that none of them leaves
its range.
-/

namespace FrogAgent.RegionChurn

open FrogAgent.KeyedDiff
open FrogAgent.Slice

/-- `(start, end)` -/
abbrev Region := ℕ × ℕ

abbrev Churn := Counts

def regionChurnLoop (prev cur : List Region) (i j : ℕ) (churn : Churn) : Checked Churn :=
  if i < prev.length ∧ j < cur.length then do
    let (ps, pe) ← index prev i
    let (cs, ce) ← index cur j
    if ps = cs then
      let churn := if pe ≠ ce then { churn with changed := churn.changed + 1 } else churn
      regionChurnLoop prev cur (i + 1) (j + 1) churn
    else if ps < cs then
      regionChurnLoop prev cur (i + 1) j { churn with removed := churn.removed + 1 }
    else
      regionChurnLoop prev cur i (j + 1) { churn with added := churn.added + 1 }
  else do
    let goneTail ← sub prev.length i
    let newTail ← sub cur.length j
    return { churn with
      removed := churn.removed + goneTail
      added := churn.added + newTail }
termination_by (prev.length - i) + (cur.length - j)

def regionChurn (prev cur : List Region) : Checked Churn :=
  regionChurnLoop prev cur 0 0 {}

/-- The starts of the regions of a list. -/
abbrev starts (regions : List Region) : Finset ℕ := keys regions

/-- The starts that are in both lists with different ends. -/
abbrev resized (prev cur : List Region) : Finset ℕ := differing prev cur

section Loop

variable {prev cur : List Region} {i j : ℕ}

/-- The exit of the loop: one of the lists is used up. -/
theorem merge_of_exhausted (hexit : ¬ (i < prev.length ∧ j < cur.length)) :
    merge (prev.drop i) (cur.drop j) = ⟨cur.length - j, prev.length - i, 0⟩ := by
  rw [not_and_or, Nat.not_lt, Nat.not_lt] at hexit
  rcases hexit with hprev | hcur
  · rw [List.drop_of_length_le hprev, merge, List.length_drop, Nat.sub_eq_zero_of_le hprev]
  · rw [List.drop_of_length_le hcur, merge_nil, List.length_drop,
      Nat.sub_eq_zero_of_le hcur]

theorem countResize_eq (churn : Churn) (pe ce : ℕ) :
    (if pe ≠ ce then { churn with changed := churn.changed + 1 } else churn) =
      churn.plus (matched pe ce) := by
  by_cases hend : pe = ce
  · rw [if_neg (not_not_intro hend), matched, if_pos hend]
    rfl
  · rw [if_pos hend, matched, if_neg hend]
    rfl

/-- From any two positions on, the loop adds what the merge of the two rests counts. -/
theorem regionChurnLoop_returns (hi : i ≤ prev.length) (hj : j ≤ cur.length)
    (churn : Churn) :
    Returns (regionChurnLoop prev cur i j churn)
      (some (churn.plus (merge (prev.drop i) (cur.drop j)))) := by
  induction hleft : (prev.length - i) + (cur.length - j) using Nat.strong_induction_on
    generalizing i j churn with
  | _ left ih =>
      rw [regionChurnLoop]
      by_cases hinside : i < prev.length ∧ j < cur.length
      · obtain ⟨hlti, hltj⟩ := hinside
        have hboth := ih (prev.length - (i + 1) + (cur.length - (j + 1))) (by omega)
          hlti hltj
        have hgone := ih (prev.length - (i + 1) + (cur.length - j)) (by omega) hlti hj
        have hnew := ih (prev.length - i + (cur.length - (j + 1))) (by omega) hi hltj
        have hprevAt := returns_index hlti
        have hcurAt := returns_index hltj
        rw [List.drop_eq_getElem_cons hlti] at hnew ⊢
        rw [List.drop_eq_getElem_cons hltj] at hgone ⊢
        generalize prev[i] = prevRegion at hprevAt hnew ⊢
        generalize cur[j] = curRegion at hcurAt hgone ⊢
        obtain ⟨ps, pe⟩ := prevRegion
        obtain ⟨cs, ce⟩ := curRegion
        rw [if_pos ⟨hlti, hltj⟩]
        apply hprevAt.step
        apply hcurAt.step
        dsimp only
        rw [merge, countResize_eq]
        by_cases hsame : ps = cs
        · rw [if_pos hsame, if_pos hsame, ← Counts.plus_assoc]
          exact hboth _ rfl
        · rw [if_neg hsame, if_neg hsame]
          by_cases hgoes : ps < cs
          · rw [if_pos hgoes, if_pos hgoes, ← Counts.plus_assoc]
            exact hgone _ rfl
          · rw [if_neg hgoes, if_neg hgoes, ← Counts.plus_assoc]
            exact hnew _ rfl
      · rw [if_neg hinside, merge_of_exhausted hinside]
        apply (returns_sub hi).step
        apply (returns_sub hj).step
        apply Returns.pure

end Loop

theorem regionChurn_returns (prev cur : List Region) :
    Returns (regionChurn prev cur) (some (merge prev cur)) := by
  have hloop := regionChurnLoop_returns (Nat.zero_le prev.length)
    (Nat.zero_le cur.length) {}
  rwa [Counts.zero_plus] at hloop

/-- No counter passes the lengths of the two slices, and nor does their sum. -/
theorem regionChurn_total_le {prev cur : List Region} {churn : Churn}
    (hchurn : Returns (regionChurn prev cur) (some churn)) :
    churn.total ≤ prev.length + cur.length := by
  have hsame := (regionChurn_returns prev cur).symm.trans hchurn
  cases hsame
  exact merge_total_le prev cur

/-- For snapshots sorted by start the counts are those of the set differences. -/
theorem regionChurn_counts_differences (prev cur : List Region)
    (hprev : Increasing prev) (hcur : Increasing cur) :
    ∃ churn : Churn,
      Returns (regionChurn prev cur) (some churn) ∧
      churn.added = (starts cur \ starts prev).card ∧
      churn.removed = (starts prev \ starts cur).card ∧
      churn.changed = (resized prev cur).card ∧
      Returns (regionChurn cur prev)
        (some { added := churn.removed, removed := churn.added, changed := churn.changed }) ∧
      (churn.total = 0 ↔ prev = cur) := by
  have hcounts := merge_eq hprev hcur
  have hswapped := regionChurn_returns cur prev
  rw [← merge_swap] at hswapped
  exact ⟨merge prev cur, regionChurn_returns prev cur, congrArg Counts.added hcounts,
    congrArg Counts.removed hcounts, congrArg Counts.changed hcounts, hswapped,
    merge_total_eq_zero_iff prev cur⟩

/-- A region that grew, one that is gone and one that is new. -/
theorem regionChurn_counts_differences_mixed :
    ∃ churn : Churn,
      Returns (regionChurn [(0x1000, 0x2000), (0x3000, 0x4000)]
        [(0x1000, 0x2500), (0x7000, 0x8000)]) (some churn) ∧
      churn.added = 1 ∧ churn.removed = 1 ∧ churn.changed = 1 := by
  obtain ⟨churn, hreturns, hadded, hremoved, hchanged, -⟩ :=
    regionChurn_counts_differences [(0x1000, 0x2000), (0x3000, 0x4000)]
      [(0x1000, 0x2500), (0x7000, 0x8000)] (by decide) (by decide)
  exact ⟨churn, hreturns, hadded, hremoved, hchanged⟩

end FrogAgent.RegionChurn
