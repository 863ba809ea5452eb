import Mathlib.Algebra.Order.Ring.Nat
import Mathlib.Order.Defs.LinearOrder

/-!
# The lowest place

What an ascending search has found: the lowest place of a range at which there is a value,
with that value, or that there is none.  Searches of adjacent ranges compose.
-/

namespace FrogAgent.Lowest

variable {Place Value Other : Type*} [LinearOrder Place]

/-- Nothing is found from `start` up to `stop`. -/
def Nothing (found : Place → Value → Prop) (start stop : Place) : Prop :=
  ∀ place, start ≤ place → place < stop → ∀ value, ¬ found place value

/-- The answer is the lowest value from `start` up to `stop`, if there is one. -/
inductive Answers (found : Place → Value → Prop) (start stop : Place) : Option Value → Prop
  | absent (hnothing : Nothing found start stop) : Answers found start stop none
  | present {place : Place} {value : Value} (hstart : start ≤ place) (hstop : place < stop)
      (hfound : found place value) (hbefore : Nothing found start place) :
      Answers found start stop (some value)

section Search

variable {found : Place → Value → Prop} {start middle stop : Place} {answer : Option Value}

theorem Nothing.trans (hfirst : Nothing found start middle)
    (hsecond : Nothing found middle stop) : Nothing found start stop := by
  intro place hstart hstop value
  rcases lt_or_ge place middle with hbefore | hbehind
  · exact hfirst place hstart hbefore value
  · exact hsecond place hbehind hstop value

theorem nothing_of_le (hle : stop ≤ start) : Nothing found start stop :=
  fun _ hstart hstop => absurd hstop (not_lt_of_ge (hle.trans hstart))

/-- A first part without a value: the search goes on behind it. -/
theorem Answers.skip (hle : start ≤ middle) (hnothing : Nothing found start middle)
    (hanswers : Answers found middle stop answer) : Answers found start stop answer := by
  cases hanswers with
  | absent hrest => exact .absent (hnothing.trans hrest)
  | present hstart hstop hfound hbefore =>
      exact .present (hle.trans hstart) hstop hfound (hnothing.trans hbefore)

/-- What was found in a first part is the answer of the whole. -/
theorem Answers.widen {value : Value} (hle : middle ≤ stop)
    (hanswers : Answers found start middle (some value)) :
    Answers found start stop (some value) := by
  cases hanswers with
  | present hstart hstop hfound hbefore =>
      exact .present hstart (lt_of_lt_of_le hstop hle) hfound hbefore

theorem Answers.nothing (hanswers : Answers found start stop none) :
    Nothing found start stop := by
  cases hanswers with
  | absent hnothing => exact hnothing

/-- Where there is a value, and none below, it is the answer. -/
theorem Answers.eq_some {place : Place} {value : Value}
    (hanswers : Answers found start stop answer) (hstart : start ≤ place)
    (hstop : place < stop) (hfound : found place value)
    (hbefore : Nothing found start place)
    (hunique : ∀ other, found place other → other = value) : answer = some value := by
  cases hanswers with
  | absent hnothing => exact absurd hfound (hnothing place hstart hstop value)
  | @present other _ hother _ hvalue hnone =>
      rcases lt_trichotomy other place with hlt | rfl | hgt
      · exact absurd hvalue (hbefore other hother hlt _)
      · rw [hunique _ hvalue]
      · exact absurd hfound (hnone place hstart hgt value)

end Search

/-- Places in a window are places behind its base. -/
theorem Nothing.shift {found : ℕ → Value → Prop} {seen : ℕ → Other → Prop} (base : ℕ)
    {start stop : ℕ}
    (hfrom : ∀ place other, place < stop → seen (base + place) other →
      ∃ value, found place value)
    (hnothing : Nothing found start stop) : Nothing seen (base + start) (base + stop) := by
  intro address hstart hstop other hseen
  obtain ⟨place, rfl⟩ := Nat.exists_eq_add_of_le (Nat.le_of_add_right_le hstart)
  have hplace : place < stop := Nat.lt_of_add_lt_add_left hstop
  obtain ⟨value, hvalue⟩ := hfrom place other hplace hseen
  exact hnothing place (Nat.le_of_add_le_add_left hstart) hplace value hvalue

end FrogAgent.Lowest
