import FrogAgent.Lib.BestScore
import Mathlib.Data.List.Basic

/-!
# Choosing an offset by consensus

`pick_offset_by_consensus` of `agent-core/calibration.rs`, the primitive of every
calibration phase: the first candidate that most anchors agree on, if enough do.
A ratio is a percentage here; the quotients of two counts of anchors compare with
it exactly as their roundings do.
-/

namespace FrogAgent.Consensus

open FrogAgent.BestScore (IsFirstBest best best_eq_none best_eq_some best_eq_some_iff)

variable {Subject Value : Type*} [DecidableEq Value]

structure CandidateScore where
  offset : ℕ
  «matches» : ℕ
  total : ℕ
  deriving DecidableEq

def matchCount (anchors : List (Subject × Value))
    (extract : Subject → ℕ → Option Value) (offset : ℕ) : ℕ :=
  anchors.countP fun anchor => extract anchor.1 offset = some anchor.2

def scoreOf (anchors : List (Subject × Value))
    (extract : Subject → ℕ → Option Value) (offset : ℕ) : CandidateScore :=
  ⟨offset, matchCount anchors extract offset, anchors.length⟩

/-- Enough anchors hold the expected value at this offset. -/
def Clears (anchors : List (Subject × Value))
    (extract : Subject → ℕ → Option Value) (minRatio offset : ℕ) : Prop :=
  minRatio * anchors.length ≤ 100 * matchCount anchors extract offset

instance (anchors : List (Subject × Value)) (extract : Subject → ℕ → Option Value)
    (minRatio offset : ℕ) : Decidable (Clears anchors extract minRatio offset) :=
  inferInstanceAs (Decidable (_ ≤ _))

/-- One round of the loop: a later candidate must beat the best so far. -/
def consider (anchors : List (Subject × Value))
    (extract : Subject → ℕ → Option Value) (minRatio : ℕ)
    (best : Option (ℕ × CandidateScore)) (offset : ℕ) : Option (ℕ × CandidateScore) :=
  if Clears anchors extract minRatio offset then
    match best with
    | none => some (offset, scoreOf anchors extract offset)
    | some (_, prev) =>
        if prev.matches < matchCount anchors extract offset then
          some (offset, scoreOf anchors extract offset)
        else best
  else best

def pickOffsetByConsensus (candidates : List ℕ) (anchors : List (Subject × Value))
    (extract : Subject → ℕ → Option Value) (minRatio : ℕ) :
    Option (ℕ × CandidateScore) :=
  if anchors.isEmpty || candidates.isEmpty then none
  else candidates.foldl (consider anchors extract minRatio) none

variable {candidates : List ℕ} {anchors : List (Subject × Value)}
variable {extract : Subject → ℕ → Option Value} {minRatio winner : ℕ}

/-- The score of a candidate that clears the ratio. -/
def clearing (anchors : List (Subject × Value))
    (extract : Subject → ℕ → Option Value) (minRatio offset : ℕ) : Option ℕ :=
  if Clears anchors extract minRatio offset then some (matchCount anchors extract offset)
  else none

theorem clearing_eq_some {offset count : ℕ} :
    clearing anchors extract minRatio offset = some count ↔
      Clears anchors extract minRatio offset ∧
        count = matchCount anchors extract offset := by
  rw [clearing]
  split
  · next hclears => simp [hclears, eq_comm]
  · next hclears => simp [hclears]

/-- The loop is a search for the best score. -/
theorem foldl_consider_eq_best :
    candidates.foldl (consider anchors extract minRatio) none =
      (best (clearing anchors extract minRatio) candidates).map fun found =>
        (found.1, ⟨found.1, found.2, anchors.length⟩) := by
  rw [best, ← List.foldl_hom (Option.map fun found : ℕ × ℕ =>
    (found.1, (⟨found.1, found.2, anchors.length⟩ : CandidateScore)))]
  · rfl
  · intro found offset
    by_cases hclears : Clears anchors extract minRatio offset
    · cases found with
      | none => simp [consider, BestScore.consider, clearing, hclears, scoreOf]
      | some found =>
          simp only [consider, BestScore.consider, clearing, hclears, if_true,
            Option.map_some, scoreOf]
          split <;> rfl
    · cases found <;> simp [consider, BestScore.consider, clearing, hclears]

/-- What is picked is a candidate that clears the ratio. -/
theorem pick_eq_some {offset : ℕ} {score : CandidateScore}
    (hpick : pickOffsetByConsensus candidates anchors extract minRatio =
      some (offset, score)) :
    offset ∈ candidates ∧ Clears anchors extract minRatio offset := by
  rw [pickOffsetByConsensus] at hpick
  split at hpick
  · cases hpick
  · rw [foldl_consider_eq_best, Option.map_eq_some_iff] at hpick
    obtain ⟨⟨found, count⟩, hbest, hfound⟩ := hpick
    cases hfound
    obtain ⟨hmem, hscore⟩ := best_eq_some hbest
    exact ⟨hmem, (clearing_eq_some.mp hscore).1⟩

/-- A candidate that alone clears the ratio is the one picked. -/
theorem pick_unique (hanchors : anchors ≠ []) (hmem : winner ∈ candidates)
    (honly : ∀ offset ∈ candidates,
      Clears anchors extract minRatio offset ↔ offset = winner) :
    pickOffsetByConsensus candidates anchors extract minRatio =
      some (winner, scoreOf anchors extract winner) := by
  have hcandidates : candidates ≠ [] := List.ne_nil_of_mem hmem
  have hwinner : clearing anchors extract minRatio winner =
      some (matchCount anchors extract winner) := if_pos ((honly winner hmem).mpr rfl)
  have hbest : best (clearing anchors extract minRatio) candidates =
      some (winner, matchCount anchors extract winner) := by
    cases hbest : best (clearing anchors extract minRatio) candidates with
    | none =>
        have hnothing := best_eq_none.mp hbest winner hmem
        rw [hwinner] at hnothing
        cases hnothing
    | some found =>
        obtain ⟨hfound, hscore⟩ := best_eq_some hbest
        obtain ⟨hclears, hcount⟩ := clearing_eq_some.mp hscore
        rw [← (honly found.1 hfound).mp hclears, ← hcount]
  simp only [pickOffsetByConsensus, List.isEmpty_eq_false_iff.mpr hanchors,
    List.isEmpty_eq_false_iff.mpr hcandidates, Bool.or_false, Bool.false_eq_true, if_false,
    foldl_consider_eq_best, hbest, Option.map_some]
  rfl

/-- No candidate has more anchors behind it, and none before it as many. -/
def Elected (candidates : List ℕ) (anchors : List (Subject × Value))
    (extract : Subject → ℕ → Option Value) (offset : ℕ) : Prop :=
  ∃ before after, candidates = before ++ offset :: after ∧
    (∀ other ∈ before, matchCount anchors extract other < matchCount anchors extract offset) ∧
    ∀ other ∈ after, matchCount anchors extract other ≤ matchCount anchors extract offset

theorem Elected.mem {offset : ℕ} (helected : Elected candidates anchors extract offset) :
    offset ∈ candidates := by
  obtain ⟨before, after, rfl, -, -⟩ := helected
  exact List.mem_append_right _ List.mem_cons_self

/-- A candidate with more anchors than one that clears the ratio clears it too. -/
theorem Clears.mono {low high : ℕ} (hclears : Clears anchors extract minRatio low)
    (hmore : matchCount anchors extract low ≤ matchCount anchors extract high) :
    Clears anchors extract minRatio high := by
  unfold Clears at hclears ⊢
  omega

theorem isFirstBest_clearing_iff {offset count : ℕ} :
    IsFirstBest (clearing anchors extract minRatio) candidates offset count ↔
      Elected candidates anchors extract offset ∧ Clears anchors extract minRatio offset ∧
        count = matchCount anchors extract offset := by
  constructor
  · rintro ⟨before, after, hsplit, hscore, hbefore, hafter⟩
    obtain ⟨hclears, rfl⟩ := clearing_eq_some.mp hscore
    refine ⟨⟨before, after, hsplit, fun other hother => ?_, fun other hother => ?_⟩,
      hclears, rfl⟩
    · by_contra hmore
      have hmore := Nat.not_lt.mp hmore
      exact hmore.not_gt (hbefore other hother _ (if_pos (hclears.mono hmore)))
    · by_contra hmore
      have hmore := Nat.le_of_lt (Nat.not_le.mp hmore)
      have hle := hafter other hother _ (if_pos (hclears.mono hmore))
      omega
  · rintro ⟨⟨before, after, hsplit, hbefore, hafter⟩, hclears, rfl⟩
    refine ⟨before, after, hsplit, if_pos hclears, fun other hother lower hlower => ?_,
      fun other hother lower hlower => ?_⟩
    · obtain ⟨-, rfl⟩ := clearing_eq_some.mp hlower
      exact hbefore other hother
    · obtain ⟨-, rfl⟩ := clearing_eq_some.mp hlower
      exact hafter other hother

/-- The elected candidate is picked, if enough anchors are behind it. -/
theorem pick_eq_some_iff {offset : ℕ} {score : CandidateScore} :
    pickOffsetByConsensus candidates anchors extract minRatio = some (offset, score) ↔
      anchors ≠ [] ∧ Elected candidates anchors extract offset ∧
        Clears anchors extract minRatio offset ∧ score = scoreOf anchors extract offset := by
  rw [pickOffsetByConsensus, foldl_consider_eq_best]
  by_cases hanchors : anchors = []
  · simp [hanchors]
  by_cases hcandidates : candidates = []
  · simp [hcandidates, Elected]
  simp only [List.isEmpty_eq_false_iff.mpr hanchors, List.isEmpty_eq_false_iff.mpr hcandidates,
    Bool.or_false, Bool.false_eq_true, if_false, Option.map_eq_some_iff, Prod.exists,
    best_eq_some_iff, isFirstBest_clearing_iff, Prod.mk.injEq]
  constructor
  · rintro ⟨_, count, ⟨helected, hclears, rfl⟩, rfl, rfl⟩
    exact ⟨hanchors, helected, hclears, rfl⟩
  · rintro ⟨-, helected, hclears, rfl⟩
    exact ⟨offset, _, ⟨helected, hclears, rfl⟩, rfl, rfl⟩

theorem pick_eq_none_iff :
    pickOffsetByConsensus candidates anchors extract minRatio = none ↔
      anchors = [] ∨ ∀ offset ∈ candidates, ¬ Clears anchors extract minRatio offset := by
  rw [pickOffsetByConsensus, foldl_consider_eq_best]
  by_cases hanchors : anchors = []
  · simp [hanchors]
  by_cases hcandidates : candidates = []
  · simp [hcandidates]
  simp only [List.isEmpty_eq_false_iff.mpr hanchors, List.isEmpty_eq_false_iff.mpr hcandidates,
    Bool.or_false, Bool.false_eq_true, if_false, Option.map_eq_none_iff, best_eq_none,
    clearing, ite_eq_right_iff, reduceCtorEq, imp_false, hanchors, false_or]

/-- A candidate that all anchors are behind is elected, if none before it is like that. -/
theorem elected_of_unanimous (before after : List ℕ) {offset : ℕ}
    (hall : ∀ anchor ∈ anchors, extract anchor.1 offset = some anchor.2)
    (hbefore : ∀ other ∈ before,
      ¬ ∀ anchor ∈ anchors, extract anchor.1 other = some anchor.2) :
    Elected (before ++ offset :: after) anchors extract offset := by
  have hfull : matchCount anchors extract offset = anchors.length :=
    List.countP_eq_length.mpr fun anchor hanchor => decide_eq_true (hall anchor hanchor)
  refine ⟨before, after, rfl, fun other hother => ?_, fun other _ => ?_⟩
  · rw [hfull]
    refine lt_of_le_of_ne List.countP_le_length fun hother' => hbefore other hother ?_
    simpa using List.countP_eq_length.mp hother'
  · rw [hfull]
    exact List.countP_le_length

/-- With two anchors nine tenths means both. -/
theorem clears_pair_iff {first second : Subject × Value} {offset : ℕ} :
    Clears [first, second] extract 90 offset ↔
      extract first.1 offset = some first.2 ∧ extract second.1 offset = some second.2 := by
  by_cases hfirst : extract first.1 offset = some first.2 <;>
    by_cases hsecond : extract second.1 offset = some second.2 <;>
    simp [Clears, matchCount, hfirst, hsecond]

end FrogAgent.Consensus
