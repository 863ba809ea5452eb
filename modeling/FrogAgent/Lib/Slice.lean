import Mathlib.Algebra.Order.Ring.Nat
import Mathlib.Data.List.Basic

/-!
# Checked slices

Reading a slice outside its bounds, and arithmetic that leaves `usize`, stop a
Rust program with a panic.  A `Checked` computation keeps such a panic apart from
an ordinary early return of `None`, and `Returns` states that a computation ends
without one.
-/

namespace FrogAgent.Slice

inductive Panic where
  | index (idx length : ℕ)
  | range (start stop length : ℕ)
  | depth
  | overflow
  deriving DecidableEq, Repr

abbrev Checked (α : Type) := OptionT (Except Panic) α

variable {α β : Type}

def fault (panic : Panic) : Checked α := OptionT.mk (.error panic)

/-- The `?` operator on an option. -/
def lift (answer : Option α) : Checked α := OptionT.mk (.ok answer)

/-- `slice[idx]` -/
def index (slice : List α) (idx : ℕ) : Checked α :=
  match slice[idx]? with
  | some elem => pure elem
  | none => fault (.index idx slice.length)

/-- `&slice[start..stop]` -/
def range (slice : List α) (start stop : ℕ) : Checked (List α) :=
  if start ≤ stop ∧ stop ≤ slice.length then
    pure ((slice.drop start).take (stop - start))
  else fault (.range start stop slice.length)

/-- `&slice[start..]` -/
def rangeFrom (slice : List α) (start : ℕ) : Checked (List α) :=
  range slice start slice.length

/-- `left + right` on `usize` -/
def add (left right : ℕ) : Checked ℕ :=
  if left + right < 2 ^ 64 then pure (left + right) else fault .overflow

/-- `left - right` on `usize` -/
def sub (left right : ℕ) : Checked ℕ :=
  if right ≤ left then pure (left - right) else fault .overflow

/-- `left * right` on `usize` -/
def mul (left right : ℕ) : Checked ℕ :=
  if left * right < 2 ^ 64 then pure (left * right) else fault .overflow

/-- Run to the end and look at the answer, instead of returning early. -/
def attempt (code : Checked α) : Checked (Option α) :=
  OptionT.mk (code.run.map some)

/-- A loop that appends the output of each round. -/
def collect (items : List α) (round : α → Checked (List β)) : Checked (List β) :=
  match items with
  | [] => pure []
  | item :: items => do
      let front ← round item
      let rest ← collect items round
      return front ++ rest

/-- The computation ends without a panic and answers `answer`. -/
def Returns (code : Checked α) (answer : Option α) : Prop :=
  code.run = .ok answer

theorem Returns.pure (value : α) : Returns (Pure.pure value) (some value) := rfl

theorem Returns.failure : Returns (failure : Checked α) none := rfl

theorem Returns.lift (answer : Option α) : Returns (lift answer) answer := rfl

theorem Returns.bind {code : Checked α} {answer : Option α}
    {rest : α → Checked β} {result : α → Option β}
    (hcode : Returns code answer)
    (hrest : ∀ value, answer = some value → Returns (rest value) (result value)) :
    Returns (code >>= rest) (answer.bind result) := by
  have hrun : (code >>= rest).run = (Except.ok answer).bind fun
      | some value => (rest value).run
      | none => .ok none := by
    rw [← hcode]
    rfl
  cases answer with
  | none => exact hrun
  | some value =>
      rw [Returns, hrun]
      exact hrest value rfl

/-- The common case: the first part always has a value. -/
theorem Returns.step {code : Checked α} {value : α} {rest : α → Checked β}
    {result : Option β} (hcode : Returns code (some value))
    (hrest : Returns (rest value) result) : Returns (code >>= rest) result := by
  have hbind : Returns (code >>= rest) ((some value).bind fun _ => result) := by
    apply hcode.bind
    intro other heq
    cases heq
    exact hrest
  exact hbind

theorem Returns.map {code : Checked α} {answer : Option α} (result : α → β)
    (hcode : Returns code answer) :
    Returns (code >>= fun value => Pure.pure (result value)) (answer.map result) := by
  rw [Option.map_eq_bind]
  exact hcode.bind fun value _ => Returns.pure (result value)

theorem Returns.ite {condition : Prop} [Decidable condition]
    {left right : Checked α} {leftAnswer rightAnswer : Option α}
    (hleft : condition → Returns left leftAnswer)
    (hright : ¬ condition → Returns right rightAnswer) :
    Returns (if condition then left else right)
      (if condition then leftAnswer else rightAnswer) := by
  by_cases hcondition : condition
  · simp only [if_pos hcondition]
    exact hleft hcondition
  · simp only [if_neg hcondition]
    exact hright hcondition

/-- A guard that gives up: the rest runs only where it does not hold. -/
theorem Returns.unless {condition : Prop} [Decidable condition]
    {code : Checked α} {answer : Option α}
    (hcode : ¬ condition → Returns code answer) :
    Returns (if condition then Alternative.failure else code)
      (if condition then none else answer) :=
  Returns.ite (fun _ => Returns.failure) hcode

theorem returns_index {slice : List α} {idx : ℕ} (hidx : idx < slice.length) :
    Returns (index slice idx) (some slice[idx]) := by
  simp only [index, List.getElem?_eq_getElem hidx]
  exact Returns.pure _

theorem returns_range {slice : List α} {start stop : ℕ} (hstart : start ≤ stop)
    (hstop : stop ≤ slice.length) :
    Returns (range slice start stop)
      (some ((slice.drop start).take (stop - start))) := by
  simp only [range, if_pos (And.intro hstart hstop)]
  exact Returns.pure _

theorem returns_rangeFrom {slice : List α} {start : ℕ}
    (hstart : start ≤ slice.length) :
    Returns (rangeFrom slice start) (some (slice.drop start)) := by
  have hrange := returns_range hstart (Nat.le_refl slice.length)
  rwa [← List.length_drop, List.take_length] at hrange

theorem returns_add {left right : ℕ} (hsum : left + right < 2 ^ 64) :
    Returns (add left right) (some (left + right)) := by
  simp only [add, if_pos hsum]
  exact Returns.pure _

theorem returns_sub {left right : ℕ} (hle : right ≤ left) :
    Returns (sub left right) (some (left - right)) := by
  simp only [sub, if_pos hle]
  exact Returns.pure _

theorem returns_mul {left right : ℕ} (hproduct : left * right < 2 ^ 64) :
    Returns (mul left right) (some (left * right)) := by
  simp only [mul, if_pos hproduct]
  exact Returns.pure _

theorem Returns.attempt {code : Checked α} {answer : Option α}
    (hcode : Returns code answer) : Returns (attempt code) (some answer) := by
  rw [Returns] at hcode
  rw [Returns, Slice.attempt, OptionT.run, hcode]
  rfl

theorem returns_collect {items : List α} {round : α → Checked (List β)}
    {output : α → List β}
    (hround : ∀ item ∈ items, Returns (round item) (some (output item))) :
    Returns (collect items round) (some (items.flatMap output)) := by
  induction items with
  | nil => exact Returns.pure _
  | cons item items ih =>
      have hfirst := hround item List.mem_cons_self
      have hrest := ih fun other hother => hround other (List.mem_cons_of_mem _ hother)
      exact hfirst.step (hrest.step (Returns.pure _))

theorem collect_map {γ : Type} (shift : γ → α) (items : List γ)
    (round : α → Checked (List β)) :
    collect (items.map shift) round = collect items fun item => round (shift item) := by
  induction items with
  | nil => rfl
  | cons item items ih => simp only [List.map_cons, collect, ih]

/-- A counted loop over the elements of a list. -/
theorem returns_collect_range {items : List α} {round : ℕ → Checked (List β)}
    {output : α → List β}
    (hround : ∀ idx (hidx : idx < items.length),
      Returns (round idx) (some (output items[idx]))) :
    Returns (collect (List.range items.length) round)
      (some (items.flatMap output)) := by
  induction items generalizing round with
  | nil => exact Returns.pure _
  | cons item items ih =>
      rw [List.length_cons, List.range_succ_eq_map, collect, collect_map]
      have hfirst := hround 0 (Nat.succ_pos _)
      have hrest : Returns
          (collect (List.range items.length) fun idx => round (Nat.succ idx))
          (some (items.flatMap output)) := by
        apply ih
        intro idx hidx
        exact hround (idx + 1) (Nat.succ_lt_succ hidx)
      exact hfirst.step (hrest.step (Returns.pure _))

/-! ## Postconditions -/

/-- The computation ends without a panic, and its value, if it has one, satisfies
`post`. -/
def Safe (code : Checked α) (post : α → Prop) : Prop :=
  ∃ answer, Returns code answer ∧ ∀ value ∈ answer, post value

theorem Returns.safe {code : Checked α} {answer : Option α} {post : α → Prop}
    (hcode : Returns code answer) (hpost : ∀ value ∈ answer, post value) :
    Safe code post :=
  ⟨answer, hcode, hpost⟩

theorem Safe.pure {value : α} {post : α → Prop} (hpost : post value) :
    Safe (Pure.pure value) post := by
  apply (Returns.pure value).safe
  intro other hother
  cases hother
  exact hpost

theorem Safe.failure (post : α → Prop) : Safe (failure : Checked α) post :=
  Returns.failure.safe nofun

theorem Safe.mono {code : Checked α} {post weaker : α → Prop} (hcode : Safe code post)
    (hmono : ∀ value, post value → weaker value) : Safe code weaker := by
  obtain ⟨answer, hanswer, hpost⟩ := hcode
  exact hanswer.safe fun value hvalue => hmono value (hpost value hvalue)

/-- The common case: the first part always has a known value. -/
theorem Returns.stepSafe {code : Checked α} {value : α} {rest : α → Checked β}
    {post : β → Prop} (hcode : Returns code (some value)) (hrest : Safe (rest value) post) :
    Safe (code >>= rest) post := by
  obtain ⟨result, hresult, hpost⟩ := hrest
  exact (hcode.step hresult).safe hpost

theorem Safe.bind {code : Checked α} {rest : α → Checked β} {middle : α → Prop}
    {post : β → Prop} (hcode : Safe code middle)
    (hrest : ∀ value, middle value → Safe (rest value) post) :
    Safe (code >>= rest) post := by
  obtain ⟨answer, hanswer, hmiddle⟩ := hcode
  cases answer with
  | none =>
      have hbind : Returns (code >>= rest) ((none : Option α).bind fun _ => none) := by
        apply hanswer.bind
        intro value hvalue
        cases hvalue
      exact hbind.safe nofun
  | some value => exact hanswer.stepSafe (hrest value (hmiddle value rfl))

theorem Safe.attempt {code : Checked α} {post : α → Prop} (hcode : Safe code post) :
    Safe (attempt code) fun answer => ∀ value ∈ answer, post value := by
  obtain ⟨answer, hanswer, hpost⟩ := hcode
  apply hanswer.attempt.safe
  intro other hother
  cases hother
  exact hpost

/-- A loop keeps the output of each round apart. -/
theorem Safe.collect {items : List α} {round : α → Checked (List β)}
    {post : α → List β → Prop}
    (hround : ∀ item ∈ items, Safe (round item) (post item)) :
    Safe (collect items round) fun output =>
      ∃ parts, output = parts.flatten ∧ List.Forall₂ post items parts := by
  induction items with
  | nil => exact Safe.pure ⟨[], rfl, List.Forall₂.nil⟩
  | cons item items ih =>
      have hfirst := hround item List.mem_cons_self
      have hrest := ih fun other hother => hround other (List.mem_cons_of_mem _ hother)
      apply hfirst.bind
      intro front hfront
      apply hrest.bind
      rintro _ ⟨parts, rfl, hparts⟩
      exact Safe.pure ⟨front :: parts, rfl, List.Forall₂.cons hfront hparts⟩

section Parts

variable {items : List α} {parts : List (List β)}

theorem forall_mem_flatten {post : β → Prop}
    (hparts : List.Forall₂ (fun _ part => ∀ value ∈ part, post value) items parts) :
    ∀ value ∈ parts.flatten, post value := by
  induction hparts with
  | nil => exact nofun
  | cons hpart _ ih =>
      intro value hvalue
      rw [List.flatten_cons, List.mem_append] at hvalue
      rcases hvalue with hfront | hrest
      · exact hpart value hfront
      · exact ih value hrest

theorem length_flatten_le
    (hparts : List.Forall₂ (fun _ part => part.length ≤ 1) items parts) :
    parts.flatten.length ≤ items.length := by
  induction hparts with
  | nil => exact Nat.le_refl 0
  | cons hpart _ ih =>
      rw [List.flatten_cons, List.length_append, List.length_cons]
      omega

end Parts

end FrogAgent.Slice
