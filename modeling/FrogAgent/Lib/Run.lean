import Mathlib.Data.List.Basic
import Mathlib.Data.List.Induction

/-!
# Runs of labelled step functions

A system is a partial step function: every choice the environment makes is part
of the label, and `none` means that the label is not enabled.  `Meets` says that
each step of a run satisfies a guard on the state before it, and `Visits` ranges
over the states in between.
-/

namespace FrogAgent.Run

variable {State Label : Type*}

def run (step : State → Label → Option State) :
    State → List Label → Option State
  | state, [] => some state
  | state, label :: labels => (step state label).bind fun next => run step next labels

/-- The run reaches `state` after some of its labels. -/
def Visits (step : State → Label → Option State) (start : State)
    (labels : List Label) (state : State) : Prop :=
  ∃ taken rest, labels = taken ++ rest ∧ run step start taken = some state

/-- Every step of the run satisfies `guard` in the state before it. -/
def Meets (step : State → Label → Option State)
    (guard : State → Label → Prop) (start : State) (labels : List Label) :
    Prop :=
  ∀ taken label rest state, labels = taken ++ label :: rest →
    run step start taken = some state → guard state label

variable {step : State → Label → Option State}
variable {guard : State → Label → Prop} {start : State}

@[simp]
theorem run_nil (state : State) : run step state [] = some state := rfl

@[simp]
theorem run_cons (state : State) (label : Label) (labels : List Label) :
    run step state (label :: labels) =
      (step state label).bind fun next => run step next labels := rfl

theorem run_append (state : State) (first second : List Label) :
    run step state (first ++ second) =
      (run step state first).bind fun next => run step next second := by
  induction first generalizing state with
  | nil => rfl
  | cons label labels ih =>
      simp only [List.cons_append, run_cons, Option.bind_assoc]
      congr 1
      funext next
      exact ih next

theorem run_concat_eq_some {state next : State} {labels : List Label}
    {label : Label} (hrun : run step state (labels ++ [label]) = some next) :
    ∃ middle, run step state labels = some middle ∧
      step middle label = some next := by
  rw [run_append, Option.bind_eq_some_iff] at hrun
  obtain ⟨middle, hmiddle, hlast⟩ := hrun
  refine ⟨middle, hmiddle, ?_⟩
  simpa using hlast

/-- A property that holds at the start and is preserved by every guarded step
holds in every state a guarded run visits. -/
theorem Meets.invariant {inv : State → Prop} {labels : List Label}
    (hmeets : Meets step guard start labels) (hstart : inv start)
    (hstep : ∀ state label next, inv state → guard state label →
      step state label = some next → inv next)
    {state : State} (hvisits : Visits step start labels state) :
    inv state := by
  obtain ⟨taken, rest, rfl, hrun⟩ := hvisits
  induction taken using List.reverseRecOn generalizing state rest with
  | nil =>
      cases hrun
      exact hstart
  | append_singleton taken label ih =>
      obtain ⟨middle, hmiddle, hlast⟩ := run_concat_eq_some hrun
      have hsplit : taken ++ [label] ++ rest = taken ++ label :: rest := by simp
      rw [hsplit] at hmeets
      exact hstep middle label state (ih (label :: rest) hmiddle hmeets)
        (hmeets taken label rest middle rfl hmiddle) hlast

/-- The unguarded form of `Meets.invariant`. -/
theorem Visits.invariant {inv : State → Prop} {labels : List Label}
    {state : State} (hvisits : Visits step start labels state)
    (hstart : inv start)
    (hstep : ∀ state label next, inv state →
      step state label = some next → inv next) : inv state := by
  have hmeets : Meets step (fun _ _ => True) start labels :=
    fun _ _ _ _ _ _ => trivial
  exact hmeets.invariant hstart
    (fun state label next hinv _ => hstep state label next hinv) hvisits

/-- A system whose every step from an invariant state is enabled and keeps the
invariant runs through every list of labels. -/
theorem run_total {inv : State → Prop}
    (hstep : ∀ state label, inv state →
      ∃ next, step state label = some next ∧ inv next)
    (hstart : inv start) (labels : List Label) :
    ∃ state, run step start labels = some state ∧ inv state := by
  induction labels generalizing start with
  | nil => exact ⟨start, rfl, hstart⟩
  | cons label labels ih =>
      obtain ⟨next, hnext, hinv⟩ := hstep start label hstart
      obtain ⟨state, hrun, hend⟩ := ih hinv
      exact ⟨state, by rw [run_cons, hnext, Option.bind_some, hrun], hend⟩

theorem meets_nil (state : State) : Meets step guard state [] := by
  intro taken label rest _ hsplit
  simp at hsplit

theorem meets_cons {state : State} {label : Label} {labels : List Label}
    (hhead : guard state label)
    (htail : ∀ next, step state label = some next →
      Meets step guard next labels) :
    Meets step guard state (label :: labels) := by
  intro taken other rest reached hsplit hrun
  cases taken with
  | nil =>
      cases hsplit
      cases hrun
      exact hhead
  | cons first taken =>
      obtain ⟨rfl, rfl⟩ := List.cons.inj hsplit
      rw [run_cons, Option.bind_eq_some_iff] at hrun
      obtain ⟨next, hnext, hrest⟩ := hrun
      exact htail next hnext taken other rest reached rfl hrest

theorem meets_cons_iff {state : State} {label : Label} {labels : List Label} :
    Meets step guard state (label :: labels) ↔ guard state label ∧
      ∀ next ∈ step state label, Meets step guard next labels := by
  constructor
  · intro hmeets
    refine ⟨hmeets [] label labels state rfl rfl, ?_⟩
    intro next hnext taken other rest reached hsplit hrun
    apply hmeets (label :: taken) other rest reached (by rw [hsplit]; rfl)
    rw [run_cons, Option.mem_def.mp hnext]
    exact hrun
  · intro hmeets
    exact meets_cons hmeets.1 hmeets.2

theorem meets_append {state middle : State} {first second : List Label}
    (hfirst : Meets step guard state first) (hrun : run step state first = some middle)
    (hsecond : Meets step guard middle second) :
    Meets step guard state (first ++ second) := by
  induction first generalizing state with
  | nil =>
      cases hrun
      exact hsecond
  | cons label first ih =>
      obtain ⟨next, hnext, hrest⟩ := Option.bind_eq_some_iff.mp hrun
      obtain ⟨hguard, htail⟩ := meets_cons_iff.mp hfirst
      refine meets_cons hguard fun other hother => ?_
      cases hnext.symm.trans hother
      exact ih (htail next hnext) hrest

/-- A guard that can be decided in each state can be decided along a run. -/
instance meetsDecidable (guard : State → Label → Prop)
    [∀ state label, Decidable (guard state label)] :
    ∀ start labels, Decidable (Meets step guard start labels)
  | start, [] => .isTrue (meets_nil start)
  | _, _ :: labels =>
      have : ∀ next, Decidable (Meets step guard next labels) :=
        fun next => meetsDecidable guard next labels
      decidable_of_iff _ meets_cons_iff.symm

theorem visits_end {labels : List Label} {state : State}
    (hrun : run step start labels = some state) :
    Visits step start labels state :=
  ⟨labels, [], by simp, hrun⟩

theorem visits_step {taken rest : List Label} {label : Label}
    {state next : State} (hrun : run step start taken = some state)
    (hstep : step state label = some next) :
    Visits step start (taken ++ label :: rest) next := by
  refine ⟨taken ++ [label], rest, by simp, ?_⟩
  rw [run_append, hrun, Option.bind_some, run_cons, hstep]
  rfl

end FrogAgent.Run
