import Mathlib.Order.Basic

/-!
# Plateaus of a sequence of readings

A reader that keeps the last value and how often in a row it was seen again.  Its counter
reaches a number exactly when that many readings before the last one agree with it.
-/

namespace FrogAgent.Plateau

variable {α : Type*}

structure Tracker (α : Type*) where
  last : α
  repeats : ℕ

/-- The last `length + 1` readings up to number `n` are the same. -/
def IsPlateau (reading : ℕ → α) (length n : ℕ) : Prop :=
  length ≤ n ∧ ∀ back ≤ length, reading (n - back) = reading n

section Track

variable [DecidableEq α]

def Tracker.read (tracker : Tracker α) (value : α) : Tracker α :=
  if value = tracker.last then { tracker with repeats := tracker.repeats + 1 }
  else ⟨value, 0⟩

/-- The reader after reading number `n`; reading 0 is where it starts. -/
def track (reading : ℕ → α) : ℕ → Tracker α
  | 0 => ⟨reading 0, 0⟩
  | n + 1 => (track reading n).read (reading (n + 1))

end Track

end FrogAgent.Plateau
