import Mathlib.Data.List.MinMax

/-!
# The first candidate of the best score

A search that goes through its candidates in order and keeps one until a later one scores
more: it ends with the first of the greatest scores, which is the first candidate with a
score at all where the scores do not differ.
-/

namespace FrogAgent.BestScore

section Search

variable {Candidate Score : Type*} [LinearOrder Score] (score : Candidate → Option Score)

/-- A candidate that has a score, with it. -/
def scored (candidate : Candidate) : Option (Candidate × Score) :=
  (score candidate).map fun value => (candidate, value)

/-- One round of the search: a candidate without a score is passed over, and any other
must beat the best so far. -/
def consider (best : Option (Candidate × Score)) (candidate : Candidate) :
    Option (Candidate × Score) :=
  match score candidate, best with
  | none, best => best
  | some value, none => some (candidate, value)
  | some value, some (prev, most) =>
      if most < value then some (candidate, value) else some (prev, most)

def best (candidates : List Candidate) : Option (Candidate × Score) :=
  candidates.foldl (consider score) none

variable {score} {candidates : List Candidate} {candidate : Candidate} {value : Score}

omit [LinearOrder Score] in
theorem scored_eq_some {other : Candidate} :
    scored score other = some (candidate, value) ↔
      other = candidate ∧ score candidate = some value := by
  rw [scored, Option.map_eq_some_iff]
  constructor
  · rintro ⟨found, hfound, heq⟩
    cases heq
    exact ⟨rfl, hfound⟩
  · rintro ⟨rfl, hvalue⟩
    exact ⟨value, hvalue, rfl⟩

theorem best_eq_argmax :
    best score candidates = (candidates.filterMap (scored score)).argmax Prod.snd := by
  rw [best, List.argmax, List.foldl_filterMap]
  congr 1
  funext best candidate
  cases hscore : score candidate <;> cases best <;>
    simp [consider, scored, hscore, List.argAux]

/-- What the search ends with is one of the candidates, with its own score. -/
theorem best_eq_some (hbest : best score candidates = some (candidate, value)) :
    candidate ∈ candidates ∧ score candidate = some value := by
  rw [best_eq_argmax] at hbest
  obtain ⟨other, hother, hscored⟩ := List.mem_filterMap.mp (List.argmax_mem hbest)
  obtain ⟨rfl, hvalue⟩ := scored_eq_some.mp hscored
  exact ⟨hother, hvalue⟩

theorem best_eq_none :
    best score candidates = none ↔ ∀ candidate ∈ candidates, score candidate = none := by
  rw [best_eq_argmax, List.argmax_eq_none, List.filterMap_eq_nil_iff]
  simp only [scored, Option.map_eq_none_iff]

/-- Among equals the first is the greatest. -/
theorem argmax_of_const {Item : Type*} {measure : Item → Score} {items : List Item}
    (hconst : ∀ item ∈ items, measure item = value) :
    items.argmax measure = items.head? := by
  cases items with
  | nil => rfl
  | cons item items =>
      rw [List.argmax_cons, List.head?_cons]
      cases hrest : items.argmax measure with
      | none => rfl
      | some other =>
          have hother := hconst other (List.mem_cons_of_mem _ (List.argmax_mem hrest))
          have hitem := hconst item List.mem_cons_self
          have hequal : ¬ measure item < measure other := by
            rw [hitem, hother]
            exact lt_irrefl value
          exact if_neg hequal

/-- Where the scores do not differ, the search finds the first candidate that has one. -/
theorem best_of_const
    (hconst : ∀ candidate ∈ candidates, ∀ other, score candidate = some other →
      other = value) :
    best score candidates =
      (candidates.find? fun candidate => (score candidate).isSome).map
        fun candidate => (candidate, value) := by
  have hvalues : ∀ item ∈ candidates.filterMap (scored score), item.2 = value := by
    rintro ⟨candidate, other⟩ hmem
    obtain ⟨first, hfirst, hscored⟩ := List.mem_filterMap.mp hmem
    obtain ⟨rfl, hother⟩ := scored_eq_some.mp hscored
    exact hconst first hfirst other hother
  rw [best_eq_argmax, argmax_of_const hvalues]
  clear hvalues
  induction candidates with
  | nil => rfl
  | cons candidate candidates ih =>
      have hrest := ih fun other hother => hconst other (List.mem_cons_of_mem _ hother)
      cases hscore : score candidate with
      | none => simpa [scored, hscore] using hrest
      | some other =>
          have hother := hconst candidate List.mem_cons_self other hscore
          simp [scored, hscore, hother]

/-- The first of the greatest scores: what stands before it scores less, and what stands
behind it no more. -/
def IsFirstBest (score : Candidate → Option Score) (candidates : List Candidate)
    (candidate : Candidate) (value : Score) : Prop :=
  ∃ before after, candidates = before ++ candidate :: after ∧
    score candidate = some value ∧
    (∀ other ∈ before, ∀ lower, score other = some lower → lower < value) ∧
    ∀ other ∈ after, ∀ lower, score other = some lower → lower ≤ value

theorem best_concat (candidates : List Candidate) (candidate : Candidate) :
    best score (candidates ++ [candidate]) =
      consider score (best score candidates) candidate := by
  rw [best, List.foldl_append]
  rfl

theorem IsFirstBest.concat_lower {other : Candidate}
    (hfirst : IsFirstBest score candidates candidate value)
    (hother : ∀ lower, score other = some lower → lower ≤ value) :
    IsFirstBest score (candidates ++ [other]) candidate value := by
  obtain ⟨before, after, rfl, hvalue, hbefore, hafter⟩ := hfirst
  refine ⟨before, after ++ [other], by simp, hvalue, hbefore, fun item hitem => ?_⟩
  rcases List.mem_append.mp hitem with hitem | hitem
  · exact hafter item hitem
  · rwa [List.mem_singleton.mp hitem]

omit [LinearOrder Score] in
theorem mem_cases {before after : List Candidate} {item : Candidate}
    (hitem : item ∈ before ++ candidate :: after) :
    item ∈ before ∨ item = candidate ∨ item ∈ after := by
  simpa [List.mem_append, List.mem_cons] using hitem

theorem IsFirstBest.le {other : Candidate} {lower : Score}
    (hfirst : IsFirstBest score candidates candidate value) (hother : other ∈ candidates)
    (hlower : score other = some lower) : lower ≤ value := by
  obtain ⟨before, after, rfl, hvalue, hbefore, hafter⟩ := hfirst
  rcases mem_cases hother with hmem | rfl | hmem
  · exact le_of_lt (hbefore other hmem lower hlower)
  · rw [hvalue] at hlower
    cases hlower
    exact le_refl _
  · exact hafter other hmem lower hlower

/-- The search ends with the first of the greatest scores. -/
theorem isFirstBest_best (hbest : best score candidates = some (candidate, value)) :
    IsFirstBest score candidates candidate value := by
  induction candidates using List.reverseRecOn generalizing candidate value with
  | nil => cases hbest
  | append_singleton candidates last ih =>
      rw [best_concat] at hbest
      cases hlast : score last with
      | none =>
          simp only [consider, hlast] at hbest
          exact (ih hbest).concat_lower fun lower hlower => by simp [hlast] at hlower
      | some other =>
          cases hprev : best score candidates with
          | none =>
              simp only [consider, hlast, hprev, Option.some.injEq, Prod.mk.injEq] at hbest
              obtain ⟨rfl, rfl⟩ := hbest
              refine ⟨candidates, [], rfl, hlast, fun item hitem lower hlower => ?_,
                List.forall_mem_nil _⟩
              rw [best_eq_none.mp hprev item hitem] at hlower
              cases hlower
          | some found =>
              obtain ⟨prev, most⟩ := found
              have hfirst := ih hprev
              simp only [consider, hlast, hprev] at hbest
              split at hbest
              · next hmore =>
                  cases hbest
                  refine ⟨candidates, [], rfl, hlast, fun item hitem lower hlower => ?_,
                    List.forall_mem_nil _⟩
                  exact lt_of_le_of_lt (hfirst.le hitem hlower) hmore
              · next hmore =>
                  cases hbest
                  refine hfirst.concat_lower fun lower hlower => ?_
                  rw [hlast] at hlower
                  cases hlower
                  exact not_lt.mp hmore

theorem foldl_consider_keep {later : List Candidate}
    (hlater : ∀ other ∈ later, ∀ lower, score other = some lower → lower ≤ value) :
    later.foldl (consider score) (some (candidate, value)) = some (candidate, value) := by
  induction later with
  | nil => rfl
  | cons other later ih =>
      have hrest := ih fun item hitem => hlater item (List.mem_cons_of_mem _ hitem)
      have hkeep : consider score (some (candidate, value)) other = some (candidate, value) := by
        cases hscore : score other with
        | none => simp only [consider, hscore]
        | some lower =>
            have hlower := hlater other List.mem_cons_self lower hscore
            simp only [consider, hscore, if_neg (not_lt.mpr hlower)]
      rw [List.foldl_cons, hkeep, hrest]

theorem best_eq_some_iff :
    best score candidates = some (candidate, value) ↔
      IsFirstBest score candidates candidate value := by
  refine ⟨isFirstBest_best, ?_⟩
  rintro ⟨before, after, rfl, hvalue, hbefore, hafter⟩
  have htaken : consider score (best score before) candidate = some (candidate, value) := by
    cases hprev : best score before with
    | none => simp only [consider, hvalue]
    | some found =>
        obtain ⟨hmem, hscore⟩ := best_eq_some hprev
        simp only [consider, hvalue, if_pos (hbefore found.1 hmem found.2 hscore)]
  rw [best, List.foldl_append, List.foldl_cons, ← best, htaken, foldl_consider_keep hafter]

end Search

end FrogAgent.BestScore
