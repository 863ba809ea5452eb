import Mathlib.Data.List.MinMax
import Std.Data.HashMap.Lemmas

/-!
# The candidate with most votes

Votes are counted in a hash map, and the entry with the greatest count is taken from the map as
its iterator happens to go through it.  Whatever that order, the choice has most votes, and a
candidate that has more votes than any other is the choice.
-/

namespace FrogAgent.Tally

/-- An order in which the entries of a map come out of its iterator. -/
structure Order (Entry : Type*) where
  arrange : List Entry → List Entry
  perm : ∀ entries, (arrange entries).Perm entries

def Order.asStored (Entry : Type*) : Order Entry := ⟨id, fun _ => .refl _⟩

variable {Candidate : Type*} [BEq Candidate] [Hashable Candidate]

/-- `*votes.entry(candidate).or_insert(0) += 1` -/
def vote (votes : Std.HashMap Candidate ℕ) (candidate : Candidate) : Std.HashMap Candidate ℕ :=
  votes.alter candidate fun count => some (count.getD 0 + 1)

def tally (ballots : List Candidate) : Std.HashMap Candidate ℕ := ballots.foldl vote ∅

/-- `max_by_key`: the last of the entries with the greatest count. -/
def maxByCount (entries : List (Candidate × ℕ)) : Option (Candidate × ℕ) :=
  entries.reverse.argmax Prod.snd

/-- The candidate with most votes, if these are enough. -/
def winner (order : Order (Candidate × ℕ)) (least : ℕ) (votes : Std.HashMap Candidate ℕ) :
    Option Candidate :=
  ((maxByCount (order.arrange votes.toList)).filter fun entry => least ≤ entry.2).map Prod.fst

section Count

variable [LawfulBEq Candidate] {ballots : List Candidate} {candidate : Candidate} {count : ℕ}

theorem getD_tally : (tally ballots)[candidate]?.getD 0 = ballots.count candidate := by
  induction ballots using List.reverseRecOn with
  | nil => simp [tally]
  | append_singleton ballots last ih =>
      rw [tally, List.foldl_append, List.foldl_cons, List.foldl_nil, vote,
        Std.HashMap.getElem?_alter, List.count_append, ← ih]
      by_cases hlast : last == candidate
      · obtain rfl := eq_of_beq hlast
        simp [tally]
      · have hother : candidate ≠ last := fun heq => hlast (beq_iff_eq.mpr heq.symm)
        simp [tally, hlast, hother.symm]

theorem count_of_mem (hentry : (candidate, count) ∈ (tally ballots).toList) :
    ballots.count candidate = count := by
  rw [Std.HashMap.mem_toList_iff_getElem?_eq_some] at hentry
  rw [← getD_tally, hentry, Option.getD_some]

theorem mem_of_count (hcount : 0 < ballots.count candidate) :
    (candidate, ballots.count candidate) ∈ (tally ballots).toList := by
  rw [Std.HashMap.mem_toList_iff_getElem?_eq_some]
  rw [← getD_tally] at hcount ⊢
  cases hstored : (tally ballots)[candidate]? with
  | none =>
      rw [hstored] at hcount
      exact absurd hcount (Nat.lt_irrefl 0)
  | some count => rfl

end Count

section Winner

variable {ballots : List Candidate} {candidate : Candidate} {least : ℕ}
variable (order : Order (Candidate × ℕ))

theorem maxByCount_most {most entry : Candidate × ℕ}
    (hmost : maxByCount (order.arrange (tally ballots).toList) = some most)
    (hentry : entry ∈ (tally ballots).toList) : entry.2 ≤ most.2 := by
  apply List.le_of_mem_argmax (List.mem_reverse.mpr _) hmost
  exact (order.perm _).mem_iff.mpr hentry

theorem mem_of_maxByCount {most : Candidate × ℕ}
    (hmost : maxByCount (order.arrange (tally ballots).toList) = some most) :
    most ∈ (tally ballots).toList :=
  (order.perm _).mem_iff.mp (List.mem_reverse.mp (List.argmax_mem hmost))

variable [LawfulBEq Candidate]

theorem most_of_winner (hwinner : winner order least (tally ballots) = some candidate) :
    least ≤ ballots.count candidate ∧
      ∀ other, ballots.count other ≤ ballots.count candidate := by
  rw [winner, Option.map_eq_some_iff] at hwinner
  obtain ⟨⟨_, count⟩, hchosen, rfl⟩ := hwinner
  rw [Option.filter_eq_some_iff, decide_eq_true_eq] at hchosen
  obtain ⟨hmost, hleast⟩ := hchosen
  have hcount := count_of_mem (mem_of_maxByCount order hmost)
  rw [hcount]
  refine ⟨hleast, fun other => ?_⟩
  rcases Nat.eq_zero_or_pos (ballots.count other) with hzero | hpos
  · rw [hzero]
    exact Nat.zero_le _
  · exact maxByCount_most order hmost (mem_of_count hpos)

/-- Enough votes for somebody give a choice. -/
theorem exists_winner (hleast : 0 < least) (henough : least ≤ ballots.count candidate) :
    ∃ chosen, winner order least (tally ballots) = some chosen := by
  have hentry := mem_of_count (Nat.lt_of_lt_of_le hleast henough)
  cases hmost : maxByCount (order.arrange (tally ballots).toList) with
  | none =>
      rw [maxByCount, List.argmax_eq_none, List.reverse_eq_nil_iff] at hmost
      have hnone := (order.perm _).mem_iff.mpr hentry
      rw [hmost] at hnone
      exact absurd hnone List.not_mem_nil
  | some most =>
      have hgreat := Nat.le_trans henough (maxByCount_most order hmost hentry)
      exact ⟨most.1, by rw [winner, hmost, Option.filter_some, if_pos (decide_eq_true hgreat),
        Option.map_some]⟩

theorem winner_of_most (hleast : 0 < least) (henough : least ≤ ballots.count candidate)
    (hmost : ∀ other, other ≠ candidate → ballots.count other < ballots.count candidate) :
    winner order least (tally ballots) = some candidate := by
  obtain ⟨chosen, hchosen⟩ := exists_winner order hleast henough
  rw [hchosen]
  by_contra hother
  have hfewer := hmost chosen fun heq => hother (congrArg some heq)
  exact absurd ((most_of_winner order hchosen).2 candidate) (Nat.not_le.mpr hfewer)

theorem winner_eq_none (hleast : 0 < least) :
    winner order least (tally ballots) = none ↔
      ∀ candidate, ballots.count candidate < least := by
  constructor
  · intro hnone candidate
    by_contra henough
    obtain ⟨chosen, hchosen⟩ := exists_winner order hleast (Nat.not_lt.mp henough)
    exact Option.some_ne_none chosen (hchosen.symm.trans hnone)
  · intro hfew
    cases hwinner : winner order least (tally ballots) with
    | none => rfl
    | some chosen =>
        exact absurd (most_of_winner order hwinner).1 (Nat.not_le.mpr (hfew chosen))

end Winner

end FrogAgent.Tally
