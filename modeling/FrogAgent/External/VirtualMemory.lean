import Mathlib.Algebra.Order.Ring.Nat

/-!
# Virtual memory as the system describes it

The constants and the record with which `VirtualQuery` describes the region of an address,
and the layouts it can describe: the user part of the address space is tiled into regions
of one state and one protection.
-/

namespace FrogAgent.VirtualMemory

def memCommit : UInt32 := 0x1000
def pageNoaccess : UInt32 := 0x01
def pageReadonly : UInt32 := 0x02
def pageReadwrite : UInt32 := 0x04
def pageWritecopy : UInt32 := 0x08
def pageExecuteRead : UInt32 := 0x20
def pageExecuteReadwrite : UInt32 := 0x40
def pageExecuteWritecopy : UInt32 := 0x80
def pageGuard : UInt32 := 0x100

/-- `usize::saturating_add` -/
def saturatingAdd (left right : ℕ) : ℕ := min (left + right) (2 ^ 64 - 1)

/-- Addition on `usize`, as compiled without overflow checks. -/
def wrappingAdd (left right : ℕ) : ℕ := (left + right) % 2 ^ 64

/-- `usize::checked_add` -/
def checkedAdd (left right : ℕ) : Option ℕ :=
  if left + right < 2 ^ 64 then some (left + right) else none

/-- The fields of `MEMORY_BASIC_INFORMATION` that are read. -/
structure MemoryBasicInformation where
  baseAddress : ℕ
  regionSize : ℕ
  state : UInt32
  protect : UInt32
  deriving DecidableEq

/-- The protection allows plain reads, and the page is no guard page. -/
def isReadable (protect : UInt32) : Bool :=
  protect &&& (pageReadonly ||| pageReadwrite ||| pageWritecopy ||| pageExecuteRead |||
      pageExecuteReadwrite ||| pageExecuteWritecopy) != 0 &&
    protect &&& pageGuard == 0

/-- A region of one state and one protection. -/
structure Tile where
  start : ℕ
  stop : ℕ
  state : UInt32
  protect : UInt32
  deriving DecidableEq

def Tile.Readable (tile : Tile) : Prop :=
  tile.state = memCommit ∧ isReadable tile.protect = true

/-- An address space that is tiled below `top`.  The query of an address in a tile gives
its attributes and the part of the tile from a base on that is not above the address;
the system may round the address down to a page or give the whole tile.  It fails above
the highest address of the process. -/
structure Layout where
  top : ℕ
  top_lt : top < 2 ^ 64
  tileAt : ℕ → Option Tile
  tileAt_isSome : ∀ address, (tileAt address).isSome = true ↔ address < top
  inside : ∀ address tile, tileAt address = some tile →
    tile.start ≤ address ∧ address < tile.stop ∧ tile.stop ≤ top
  uniform : ∀ address other tile, tileAt address = some tile → tile.start ≤ other →
    other < tile.stop → tileAt other = some tile
  virtualQuery : ℕ → Option MemoryBasicInformation
  query_none : ∀ address, tileAt address = none → virtualQuery address = none
  query_some : ∀ address tile, tileAt address = some tile →
    ∃ base, tile.start ≤ base ∧ base ≤ address ∧
      virtualQuery address = some ⟨base, tile.stop - base, tile.state, tile.protect⟩

section Layout

variable {layout : Layout} {address : ℕ} {tile other : Tile}

def Layout.IsTile (layout : Layout) (tile : Tile) : Prop :=
  layout.tileAt tile.start = some tile

theorem Layout.isTile_of_tileAt (htile : layout.tileAt address = some tile) :
    layout.IsTile tile := by
  obtain ⟨hstart, hstop, -⟩ := layout.inside address tile htile
  exact layout.uniform address tile.start tile htile (Nat.le_refl _) (by omega)

theorem Layout.IsTile.nonempty (htile : layout.IsTile tile) : tile.start < tile.stop :=
  (layout.inside tile.start tile htile).2.1

theorem Layout.IsTile.stop_lt (htile : layout.IsTile tile) : tile.stop < 2 ^ 64 := by
  have hstop := (layout.inside tile.start tile htile).2.2
  have htop := layout.top_lt
  omega

theorem Layout.IsTile.tileAt_eq (htile : layout.IsTile tile) (hstart : tile.start ≤ address)
    (hstop : address < tile.stop) : layout.tileAt address = some tile :=
  layout.uniform tile.start address tile htile hstart hstop

/-- Where a tile ends the next one starts. -/
theorem Layout.IsTile.next_start (htile : layout.IsTile tile)
    (hnext : layout.tileAt tile.stop = some other) : other.start = tile.stop := by
  obtain ⟨hstart, hstop, -⟩ := layout.inside _ _ hnext
  apply Nat.le_antisymm hstart
  apply Nat.not_lt.mp
  intro hearlier
  -- The last address of the tile would lie in both.
  have hnonempty := htile.nonempty
  have hlast : layout.tileAt (tile.stop - 1) = some tile :=
    htile.tileAt_eq (by omega) (by omega)
  have hsame := layout.uniform _ (tile.stop - 1) other hnext (by omega) (by omega)
  rw [hlast, Option.some.injEq] at hsame
  rw [← hsame] at hstop
  exact Nat.lt_irrefl _ hstop

end Layout

end FrogAgent.VirtualMemory
