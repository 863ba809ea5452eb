import Mathlib.Data.List.Basic
import Mathlib.Data.List.Induction
import Mathlib.Data.List.Perm.Basic
import Mathlib.Data.Set.Basic
import Mathlib.Logic.Function.Basic

/-!
# Address-indexed memories and patches

A memory assigns a cell to every address.  A patch is a run of cells at a start
address; storing it overwrites exactly its own range.  The central fact of this
file describes what a set of patches does when it is replayed in an unknown
order: every order yields a prescribed memory exactly when each patch already
agrees with that memory on its own range and nothing outside the patches was
different.
-/

namespace FrogAgent.ByteMemory

variable {Cell : Type*}

abbrev Memory (Cell : Type*) := ℕ → Cell

/-- A run of cells to be placed at `start`. -/
structure Patch (Cell : Type*) where
  start : ℕ
  cells : List Cell
  deriving DecidableEq

/-- The addresses a patch overwrites. -/
def Patch.Covers (patch : Patch Cell) (address : ℕ) : Prop :=
  patch.start ≤ address ∧ address < patch.start + patch.cells.length

instance (patch : Patch Cell) (address : ℕ) : Decidable (patch.Covers address) :=
  inferInstanceAs (Decidable (_ ∧ _))

def load (memory : Memory Cell) (start width : ℕ) : List Cell :=
  (List.range width).map fun offset => memory (start + offset)

def store (memory : Memory Cell) (patch : Patch Cell) : Memory Cell :=
  fun address =>
    if patch.start ≤ address then
      (patch.cells[address - patch.start]?).getD (memory address)
    else memory address

/-- Set a whole range to one cell. -/
def fill (memory : Memory Cell) (start width : ℕ) (cell : Cell) : Memory Cell :=
  fun address =>
    if start ≤ address ∧ address < start + width then cell else memory address

/-- Store the patches one after the other, first to last. -/
def storeAll (memory : Memory Cell) (patches : List (Patch Cell)) :
    Memory Cell :=
  patches.foldl store memory

@[simp]
theorem length_load (memory : Memory Cell) (start width : ℕ) :
    (load memory start width).length = width := by
  simp [load]

theorem getElem?_load (memory : Memory Cell) (start width offset : ℕ)
    (hoffset : offset < width) :
    (load memory start width)[offset]? = some (memory (start + offset)) := by
  simp [load, hoffset]

/-- A window of what was loaded is loaded on its own. -/
theorem take_drop_load (memory : Memory Cell) {start width offset count : ℕ}
    (hinside : offset + count ≤ width) :
    ((load memory start width).drop offset).take count =
      load memory (start + offset) count := by
  apply List.ext_getElem
  · simp only [List.length_take, List.length_drop, length_load]
    omega
  · intro place _ _
    simp [load, Nat.add_assoc]

theorem take_load (memory : Memory Cell) {start width count : ℕ} (hcount : count ≤ width) :
    (load memory start width).take count = load memory start count := by
  apply List.ext_getElem
  · simpa using hcount
  · intro place _ _
    simp [load]

theorem drop_load (memory : Memory Cell) (start width offset : ℕ) :
    (load memory start width).drop offset = load memory (start + offset) (width - offset) := by
  apply List.ext_getElem
  · simp
  · intro place _ _
    simp [load, Nat.add_assoc]

@[simp]
theorem storeAll_nil (memory : Memory Cell) : storeAll memory [] = memory := rfl

@[simp]
theorem storeAll_cons (memory : Memory Cell) (patch : Patch Cell)
    (patches : List (Patch Cell)) :
    storeAll memory (patch :: patches) = storeAll (store memory patch) patches :=
  rfl

theorem storeAll_append (memory : Memory Cell)
    (first second : List (Patch Cell)) :
    storeAll memory (first ++ second) =
      storeAll (storeAll memory first) second := by
  simp [storeAll]

theorem store_of_not_covers (memory : Memory Cell) {patch : Patch Cell}
    {address : ℕ} (houtside : ¬ patch.Covers address) :
    store memory patch address = memory address := by
  unfold store
  split
  · rename_i hstart
    have hlength : patch.cells.length ≤ address - patch.start := by
      simp only [Patch.Covers, not_and] at houtside
      have := houtside hstart
      omega
    simp [List.getElem?_eq_none hlength]
  · rfl

/-- Inside its range a patch decides the cell; the memory below is irrelevant. -/
theorem store_of_covers (left right : Memory Cell) {patch : Patch Cell}
    {address : ℕ} (hinside : patch.Covers address) :
    store left patch address = store right patch address := by
  have hoffset : address - patch.start < patch.cells.length := by
    have := hinside.1
    have := hinside.2
    omega
  simp [store, hinside.1, List.getElem?_eq_getElem hoffset]

/-- Storing what a memory already holds at a range makes it hold that range. -/
theorem store_load (memory original : Memory Cell) (start width address : ℕ)
    (hinside : (⟨start, load original start width⟩ : Patch Cell).Covers address) :
    store memory ⟨start, load original start width⟩ address =
      original address := by
  obtain ⟨hstart, hend⟩ := hinside
  simp only [length_load] at hstart hend
  have hoffset : start + (address - start) = address := by omega
  simp only [store, if_pos hstart]
  rw [getElem?_load _ _ _ _ (by omega), Option.getD_some, hoffset]

/-- A patch agrees with a memory when storing it there changes nothing. -/
def Patch.Agrees (patch : Patch Cell) (memory : Memory Cell) : Prop :=
  ∀ address, patch.Covers address →
    store memory patch address = memory address

theorem agrees_load_iff (memory original : Memory Cell) (start width : ℕ) :
    (⟨start, load memory start width⟩ : Patch Cell).Agrees original ↔
      ∀ address, start ≤ address → address < start + width →
        memory address = original address := by
  constructor
  · intro hagrees address hstart hend
    have hinside : (⟨start, load memory start width⟩ : Patch Cell).Covers
        address := ⟨hstart, by simpa using hend⟩
    rw [← hagrees address hinside, store_load _ _ _ _ _ hinside]
  · intro hequal address hinside
    rw [store_load _ _ _ _ _ hinside]
    exact hequal address hinside.1 (by simpa using hinside.2)

theorem storeAll_of_not_covers (memory : Memory Cell)
    {patches : List (Patch Cell)} {address : ℕ}
    (houtside : ∀ patch ∈ patches, ¬ patch.Covers address) :
    storeAll memory patches address = memory address := by
  induction patches generalizing memory with
  | nil => rfl
  | cons patch patches ih =>
      rw [storeAll_cons, ih _ fun other hother =>
        houtside other (List.mem_cons_of_mem _ hother)]
      exact store_of_not_covers memory (houtside patch List.mem_cons_self)

/-- Patches that agree with `original` bring every address they cover back to
its original cell, whatever the memory held before. -/
theorem storeAll_of_agrees (memory original : Memory Cell)
    {patches : List (Patch Cell)} {address : ℕ}
    (hagrees : ∀ patch ∈ patches, patch.Agrees original)
    (hcovered : ∃ patch ∈ patches, patch.Covers address) :
    storeAll memory patches address = original address := by
  induction patches generalizing memory with
  | nil => simp at hcovered
  | cons patch patches ih =>
      have htail : ∀ other ∈ patches, other.Agrees original := fun other hother =>
        hagrees other (List.mem_cons_of_mem _ hother)
      by_cases hlater : ∃ other ∈ patches, other.Covers address
      · exact ih (store memory patch) htail hlater
      · push Not at hlater
        have hhead : patch.Covers address := by
          obtain ⟨other, hother, hcovers⟩ := hcovered
          rcases List.mem_cons.mp hother with rfl | hmem
          · exact hcovers
          · exact absurd hcovers (hlater other hmem)
        rw [storeAll_cons, storeAll_of_not_covers _ hlater,
          store_of_covers memory original hhead]
        exact hagrees patch List.mem_cons_self address hhead

/-- Replaying a set of patches in every possible order yields `original`
exactly when each patch agrees with `original` and no address outside all
patches differs from it. -/
theorem forall_perm_storeAll_eq_iff (memory original : Memory Cell)
    (patches : List (Patch Cell)) :
    (∀ order, order.Perm patches → storeAll memory order = original) ↔
      (∀ patch ∈ patches, patch.Agrees original) ∧
        ∀ address, (∀ patch ∈ patches, ¬ patch.Covers address) →
          memory address = original address := by
  constructor
  · intro hall
    constructor
    · intro patch hpatch address hcovers
      -- replay the patch in question last: its own cells remain
      obtain ⟨before, after, rfl⟩ := List.append_of_mem hpatch
      have hperm : (before ++ after ++ [patch]).Perm
          (before ++ patch :: after) := by
        rw [List.append_assoc]
        exact List.Perm.append_left before (List.perm_append_singleton patch after)
      have hlast := congrFun (hall _ hperm) address
      rw [storeAll_append, storeAll_cons, storeAll_nil,
        store_of_covers _ original hcovers] at hlast
      exact hlast
    · intro address houtside
      rw [← congrFun (hall patches (List.Perm.refl _)) address]
      exact (storeAll_of_not_covers memory houtside).symm
  · rintro ⟨hagrees, houtside⟩ order hperm
    funext address
    by_cases hcovered : ∃ patch ∈ order, patch.Covers address
    · exact storeAll_of_agrees memory original
        (fun patch hpatch => hagrees patch (hperm.mem_iff.mp hpatch)) hcovered
    · push Not at hcovered
      rw [storeAll_of_not_covers memory hcovered]
      exact houtside address fun patch hpatch =>
        hcovered patch (hperm.mem_iff.mpr hpatch)

/-- The cell the latest of the patches covering `address` puts there. -/
def lastCell (patches : List (Patch Cell)) (address : ℕ) : Option Cell :=
  patches.foldl
    (fun latest patch =>
      if patch.start ≤ address then
        (patch.cells[address - patch.start]?).or latest
      else latest) none

theorem storeAll_eq_lastCell (memory : Memory Cell)
    (patches : List (Patch Cell)) (address : ℕ) :
    storeAll memory patches address =
      (lastCell patches address).getD (memory address) := by
  induction patches using List.reverseRecOn with
  | nil => rfl
  | append_singleton patches patch ih =>
      simp only [storeAll_append, storeAll_cons, storeAll_nil, lastCell,
        List.foldl_append, List.foldl_cons, List.foldl_nil]
      rw [store, ih]
      split
      · cases patch.cells[address - patch.start]? <;> simp [lastCell]
      · simp [lastCell]

theorem storeAll_eq_iff_lastCell (memory : Memory Cell)
    (patches : List (Patch Cell)) (address : ℕ) :
    storeAll memory patches address = memory address ↔
      ∀ cell ∈ lastCell patches address, cell = memory address := by
  rw [storeAll_eq_lastCell]
  cases lastCell patches address <;> simp

theorem exists_covers_of_lastCell {patches : List (Patch Cell)} {address : ℕ}
    {cell : Cell} (hcell : lastCell patches address = some cell) :
    ∃ patch ∈ patches, patch.Covers address := by
  by_contra hnone
  push Not at hnone
  have hempty : lastCell patches address = none := by
    clear hcell
    induction patches using List.reverseRecOn with
    | nil => rfl
    | append_singleton patches patch ih =>
        have hold := ih fun other hother =>
          hnone other (List.mem_append_left _ hother)
        have hlast := hnone patch (by simp)
        simp only [lastCell] at hold
        simp only [lastCell, List.foldl_append, List.foldl_cons,
          List.foldl_nil, hold]
        split
        · rename_i hstart
          have hlength : patch.cells.length ≤ address - patch.start := by
            simp only [Patch.Covers, not_and] at hlast
            have := hlast hstart
            omega
          simp [List.getElem?_eq_none hlength]
        · rfl
  simp [hempty] at hcell

/-! ## Frames and layered patches -/

/-- The two memories hold the same cells on a set of addresses. -/
def AgreeOn (region : Set ℕ) (left right : Memory Cell) : Prop :=
  ∀ address ∈ region, left address = right address

theorem AgreeOn.trans {region : Set ℕ} {first second third : Memory Cell}
    (hleft : AgreeOn region first second)
    (hright : AgreeOn region second third) : AgreeOn region first third :=
  fun address hmem => (hleft address hmem).trans (hright address hmem)

/-- A range of addresses that lies outside a region. -/
def Avoids (region : Set ℕ) (start width : ℕ) : Prop :=
  ∀ address, start ≤ address → address < start + width → address ∉ region

theorem Avoids.mono {region : Set ℕ} {outer width start inner : ℕ}
    (havoids : Avoids region outer width) (hstart : outer ≤ start)
    (hend : start + inner ≤ outer + width) : Avoids region start inner :=
  fun address hlow hhigh => havoids address (by omega) (by omega)

theorem store_agreeOn_of_avoids {region : Set ℕ} (memory : Memory Cell)
    {patch : Patch Cell}
    (havoids : Avoids region patch.start patch.cells.length) :
    AgreeOn region (store memory patch) memory := by
  intro address hmem
  apply store_of_not_covers
  intro hcovers
  exact havoids address hcovers.1 hcovers.2 hmem

theorem fill_agreeOn_of_avoids {region : Set ℕ} (memory : Memory Cell)
    {start width : ℕ} (cell : Cell) (havoids : Avoids region start width) :
    AgreeOn region (fill memory start width cell) memory := by
  intro address hmem
  rw [fill, if_neg]
  rintro ⟨hlow, hhigh⟩
  exact havoids address hlow hhigh hmem

theorem AgreeOn.store {region : Set ℕ} {left right : Memory Cell}
    (hagree : AgreeOn region left right) (patch : Patch Cell) :
    AgreeOn region (store left patch) (store right patch) := by
  intro address hmem
  by_cases hcovers : patch.Covers address
  · exact store_of_covers left right hcovers
  · rw [store_of_not_covers left hcovers, store_of_not_covers right hcovers]
    exact hagree address hmem

theorem AgreeOn.storeAll {region : Set ℕ} {left right : Memory Cell}
    (hagree : AgreeOn region left right) (patches : List (Patch Cell)) :
    AgreeOn region (storeAll left patches) (storeAll right patches) := by
  induction patches generalizing left right with
  | nil => exact hagree
  | cons patch patches ih => exact ih (hagree.store patch)

def Patch.Disjoint (first second : Patch Cell) : Prop :=
  ∀ address, first.Covers address → ¬ second.Covers address

theorem store_comm (memory : Memory Cell) {first second : Patch Cell}
    (hdisjoint : first.Disjoint second) :
    store (store memory first) second = store (store memory second) first := by
  funext address
  by_cases hfirst : first.Covers address
  · rw [store_of_not_covers _ (hdisjoint address hfirst)]
    exact store_of_covers _ _ hfirst
  · rw [store_of_not_covers _ hfirst]
    by_cases hsecond : second.Covers address
    · exact store_of_covers _ _ hsecond
    · rw [store_of_not_covers _ hsecond, store_of_not_covers _ hsecond,
        store_of_not_covers _ hfirst]

/-- A patch that overlaps none of the patches stored before it can be stored
first. -/
theorem storeAll_pull (memory : Memory Cell) {before after : List (Patch Cell)}
    {patch : Patch Cell}
    (hdisjoint : ∀ other ∈ before, other.Disjoint patch) :
    storeAll memory (before ++ patch :: after) =
      storeAll (store memory patch) (before ++ after) := by
  induction before generalizing memory with
  | nil => rfl
  | cons other before ih =>
      rw [List.cons_append, storeAll_cons,
        ih _ fun inner hinner => hdisjoint inner (List.mem_cons_of_mem _ hinner),
        store_comm memory (hdisjoint other List.mem_cons_self)]
      rfl

/-- Storing back what was loaded before a patch of the same range undoes it. -/
theorem store_store_load (memory : Memory Cell) (patch : Patch Cell)
    {width : ℕ} (hwidth : patch.cells.length = width) :
    store (store memory patch) ⟨patch.start, load memory patch.start width⟩ =
      memory := by
  funext address
  by_cases hcovers : patch.Covers address
  · apply store_load
    exact ⟨hcovers.1, by simpa [hwidth] using hcovers.2⟩
  · rw [store_of_not_covers, store_of_not_covers _ hcovers]
    simpa [Patch.Covers, hwidth] using hcovers

/-! ## Ranges that do not meet -/

/-- The ranges of `width` addresses from `first` and `length` from `second`. -/
def Apart (first width second length : ℕ) : Prop :=
  first + width ≤ second ∨ second + length ≤ first

instance (first width second length : ℕ) : Decidable (Apart first width second length) :=
  inferInstanceAs (Decidable (_ ∨ _))

theorem Apart.symm {first width second length : ℕ}
    (hapart : Apart first width second length) : Apart second length first width :=
  Or.symm hapart

/-- Narrower ranges inside are apart as well. -/
theorem Apart.mono {first width second length inner size inside extent : ℕ}
    (hapart : Apart first width second length) (hinner : first ≤ inner)
    (hsize : inner + size ≤ first + width) (hinside : second ≤ inside)
    (hextent : inside + extent ≤ second + length) :
    Apart inner size inside extent := by
  rcases hapart with hleft | hright
  · exact Or.inl (by omega)
  · exact Or.inr (by omega)

theorem load_congr {left right : Memory Cell} {start width : ℕ}
    (hsame : ∀ offset < width, left (start + offset) = right (start + offset)) :
    load left start width = load right start width := by
  apply List.map_congr_left
  intro offset hoffset
  exact hsame offset (List.mem_range.mp hoffset)

theorem load_store_of_apart (memory : Memory Cell) {patch : Patch Cell}
    {start width : ℕ} (hapart : Apart patch.start patch.cells.length start width) :
    load (store memory patch) start width = load memory start width := by
  apply load_congr
  intro offset hoffset
  apply store_of_not_covers
  rintro ⟨hlow, hhigh⟩
  rcases hapart with hleft | hright
  · omega
  · omega

theorem load_fill_of_apart (memory : Memory Cell) {start width first length : ℕ}
    (cell : Cell) (hapart : Apart first length start width) :
    load (fill memory first length cell) start width = load memory start width := by
  apply load_congr
  intro offset hoffset
  rw [fill, if_neg]
  rintro ⟨hlow, hhigh⟩
  rcases hapart with hleft | hright
  · omega
  · omega

/-- A stored patch reads back. -/
theorem load_store_self (memory : Memory Cell) (patch : Patch Cell) {width : ℕ}
    (hwidth : patch.cells.length = width) :
    load (store memory patch) patch.start width = patch.cells := by
  subst hwidth
  apply List.ext_getElem?
  intro offset
  by_cases hoffset : offset < patch.cells.length
  · rw [getElem?_load _ _ _ _ hoffset]
    simp [store, List.getElem?_eq_getElem hoffset]
  · rw [List.getElem?_eq_none (by simpa using hoffset),
      List.getElem?_eq_none (Nat.le_of_not_lt hoffset)]

end FrogAgent.ByteMemory
