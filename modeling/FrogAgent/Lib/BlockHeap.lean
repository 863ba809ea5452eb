import Mathlib.Algebra.Order.Ring.Nat
import Mathlib.Data.Finmap
import Mathlib.Order.Lattice.Nat

/-!
# Heaps of blocks

A heap maps the address of every live block to its cells, and an allocator places a
new block at an address that no live block has.  A growing vector owns one block: it
writes in place while its capacity lasts, and otherwise releases its block and moves
to a larger one, which may lie at the same address.  Blocks of other owners survive
all of this.
-/

namespace FrogAgent.BlockHeap

abbrev Heap (Cell : Type) := Finmap fun _ : ℕ => List Cell

structure Allocator (Cell : Type) where
  place : Heap Cell → ℕ → ℕ
  place_fresh : ∀ heap size, place heap size ∉ heap
  place_ne_zero : ∀ heap size, place heap size ≠ 0

variable {Cell : Type}

/-- Every block of the first heap is in the second one, with the same cells. -/
def Keeps (before after : Heap Cell) : Prop :=
  ∀ address cells, before.lookup address = some cells →
    after.lookup address = some cells

theorem Keeps.refl (heap : Heap Cell) : Keeps heap heap := fun _ _ hblock => hblock

/-- A block at a fresh address leaves the others alone. -/
theorem keeps_insert {heap : Heap Cell} {address : ℕ} (hfresh : address ∉ heap)
    (cells : List Cell) : Keeps heap (heap.insert address cells) := by
  intro other block hblock
  have hne : other ≠ address := by
    intro hsame
    rw [hsame] at hblock
    exact hfresh (Finmap.mem_of_lookup_eq_some hblock)
  rw [Finmap.lookup_insert_of_ne _ hne]
  exact hblock

/-! ## Blocks of a fixed size -/

/-- The address of storage that needs no block. -/
def dangling : ℕ := 1

/-- Put the cells into a block of their own; no cells need no block. -/
def Allocator.box (allocator : Allocator Cell) (heap : Heap Cell)
    (cells : List Cell) : Heap Cell × ℕ :=
  if cells = [] then (heap, dangling)
  else
    let address := allocator.place heap cells.length
    (heap.insert address cells, address)

/-- The address is that of storage for exactly these cells. -/
def Stored (heap : Heap Cell) (address : ℕ) (cells : List Cell) : Prop :=
  cells ≠ [] → heap.lookup address = some cells

theorem Stored.mono {before after : Heap Cell} (hkeeps : Keeps before after)
    {address : ℕ} {cells : List Cell} (hstored : Stored before address cells) :
    Stored after address cells :=
  fun hcells => hkeeps address cells (hstored hcells)

theorem box_keeps (allocator : Allocator Cell) (heap : Heap Cell) (cells : List Cell) :
    Keeps heap (allocator.box heap cells).1 := by
  rw [Allocator.box]
  split
  · exact Keeps.refl heap
  · exact keeps_insert (allocator.place_fresh heap _) cells

theorem box_stored (allocator : Allocator Cell) (heap : Heap Cell)
    (cells : List Cell) :
    Stored (allocator.box heap cells).1 (allocator.box heap cells).2 cells := by
  intro hcells
  rw [Allocator.box]
  rw [if_neg hcells]
  exact Finmap.lookup_insert heap

theorem box_placed (allocator : Allocator Cell) (heap : Heap Cell) {cells : List Cell}
    (hcells : cells ≠ []) :
    (allocator.box heap cells).2 = allocator.place heap cells.length := by
  rw [Allocator.box]
  rw [if_neg hcells]

/-! ## Growing vectors -/

structure RawVec where
  address : ℕ
  capacity : ℕ
  length : ℕ
  deriving DecidableEq

namespace RawVec

/-- The empty vector owns no block. -/
def new : RawVec := ⟨dangling, 0, 0⟩

def contents (heap : Heap Cell) (vec : RawVec) : List Cell :=
  if vec.capacity = 0 then [] else (heap.lookup vec.address).getD []

/-- The capacity after growing for one more cell: doubled, at least four. -/
def grownCapacity (vec : RawVec) : ℕ :=
  max 4 (max (2 * vec.capacity) (vec.length + 1))

def released (heap : Heap Cell) (vec : RawVec) : Heap Cell :=
  if vec.capacity = 0 then heap else heap.erase vec.address

def push (allocator : Allocator Cell) (heap : Heap Cell) (vec : RawVec)
    (cell : Cell) : Heap Cell × RawVec :=
  let cells := vec.contents heap ++ [cell]
  if vec.length < vec.capacity then
    (heap.insert vec.address cells, { vec with length := vec.length + 1 })
  else
    let address := allocator.place (vec.released heap) vec.grownCapacity
    ((vec.released heap).insert address cells,
      ⟨address, vec.grownCapacity, vec.length + 1⟩)

/-- The vector holds these cells, in its own block once it has one. -/
structure Owns (heap : Heap Cell) (vec : RawVec) (cells : List Cell) : Prop where
  length_eq : cells.length = vec.length
  length_le : vec.length ≤ vec.capacity
  used : 0 < vec.capacity → cells ≠ []
  stored : 0 < vec.capacity → heap.lookup vec.address = some cells

theorem new_owns (heap : Heap Cell) : Owns heap new [] where
  length_eq := rfl
  length_le := Nat.le_refl 0
  used := fun hcapacity => absurd hcapacity (Nat.lt_irrefl 0)
  stored := fun hcapacity => absurd hcapacity (Nat.lt_irrefl 0)

theorem Owns.contents_eq {heap : Heap Cell} {vec : RawVec} {cells : List Cell}
    (howns : Owns heap vec cells) : vec.contents heap = cells := by
  rw [contents]
  split
  case isTrue hempty =>
    have hlength : cells.length ≤ 0 := by
      rw [howns.length_eq, ← hempty]
      exact howns.length_le
    exact (List.length_eq_zero_iff.mp (Nat.le_zero.mp hlength)).symm
  case isFalse hcapacity =>
    rw [howns.stored (Nat.pos_of_ne_zero hcapacity), Option.getD_some]

theorem Owns.keep {before after : Heap Cell} {vec : RawVec} {cells : List Cell}
    (howns : Owns before vec cells)
    (hkept : 0 < vec.capacity → before.lookup vec.address = some cells →
      after.lookup vec.address = some cells) : Owns after vec cells where
  length_eq := howns.length_eq
  length_le := howns.length_le
  used := howns.used
  stored := fun hcapacity => hkept hcapacity (howns.stored hcapacity)

theorem Owns.mono {before after : Heap Cell} {vec : RawVec} {cells : List Cell}
    (howns : Owns before vec cells) (hkeeps : Keeps before after) :
    Owns after vec cells :=
  howns.keep fun _ hblock => hkeeps _ _ hblock

theorem push_owns (allocator : Allocator Cell) {heap : Heap Cell} {vec : RawVec}
    {cells : List Cell} (howns : Owns heap vec cells) (cell : Cell) :
    Owns (push allocator heap vec cell).1 (push allocator heap vec cell).2
      (cells ++ [cell]) := by
  have hlength : (cells ++ [cell]).length = vec.length + 1 := by
    rw [List.length_append, howns.length_eq]
    rfl
  have hne : cells ++ [cell] ≠ [] := List.append_ne_nil_of_right_ne_nil _ nofun
  rw [push]
  rw [howns.contents_eq]
  split
  case isTrue hroom =>
    exact ⟨hlength, hroom, fun _ => hne, fun _ => Finmap.lookup_insert heap⟩
  case isFalse hfull =>
    have hgrown : vec.length + 1 ≤ vec.grownCapacity :=
      Nat.le_trans (Nat.le_max_right _ _) (Nat.le_max_right _ _)
    exact ⟨hlength, hgrown, fun _ => hne, fun _ => Finmap.lookup_insert _⟩

/-- A push keeps every block but the vector's own. -/
theorem push_lookup (allocator : Allocator Cell) {heap : Heap Cell} {vec : RawVec}
    (cell : Cell) {address : ℕ} {block : List Cell}
    (hother : 0 < vec.capacity → address ≠ vec.address)
    (hblock : heap.lookup address = some block) :
    (push allocator heap vec cell).1.lookup address = some block := by
  rw [push]
  split
  case isTrue hroom =>
    rw [Finmap.lookup_insert_of_ne _ (hother (Nat.zero_lt_of_lt hroom))]
    exact hblock
  case isFalse hfull =>
    have hreleased : (vec.released heap).lookup address = some block := by
      rw [released]
      split
      case isTrue => exact hblock
      case isFalse hcapacity =>
        rw [Finmap.lookup_erase_ne (hother (Nat.pos_of_ne_zero hcapacity))]
        exact hblock
    exact keeps_insert (allocator.place_fresh _ _) _ address block hreleased

/-- A block with other contents is not the vector's own. -/
theorem Owns.push_lookup (allocator : Allocator Cell) {heap : Heap Cell} {vec : RawVec}
    {cells block : List Cell} (howns : Owns heap vec cells) (hne : block ≠ cells)
    (cell : Cell) {address : ℕ} (hblock : heap.lookup address = some block) :
    (push allocator heap vec cell).1.lookup address = some block := by
  apply RawVec.push_lookup allocator cell _ hblock
  intro hcapacity hsame
  rw [hsame, howns.stored hcapacity] at hblock
  exact hne (Option.some.inj hblock).symm

end RawVec

/-! ## Placing high -/

/-- An allocator that places every block well above a bound and all live blocks. -/
def Allocator.above (Cell : Type) (bound : ℕ) : Allocator Cell where
  place := fun heap _ => max bound (heap.keys.sup id) + 2 ^ 32
  place_fresh := by
    intro heap _ hmem
    have hle : max bound (heap.keys.sup id) + 2 ^ 32 ≤ heap.keys.sup id :=
      Finset.le_sup (f := id) (Finmap.mem_keys.mpr hmem)
    have hlt : heap.keys.sup id < max bound (heap.keys.sup id) + 2 ^ 32 :=
      Nat.lt_of_le_of_lt (Nat.le_max_right bound _) (Nat.lt_add_of_pos_right (by decide))
    exact Nat.not_le_of_lt hlt hle
  place_ne_zero := fun _ _ => Nat.succ_ne_zero _

theorem bound_lt_place (bound : ℕ) (heap : Heap Cell) (size : ℕ) :
    bound < (Allocator.above Cell bound).place heap size :=
  Nat.lt_of_le_of_lt (Nat.le_max_left bound _) (Nat.lt_add_of_pos_right (by decide))

end FrogAgent.BlockHeap
