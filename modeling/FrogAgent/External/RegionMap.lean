import FrogAgent.External.Scan
import FrogAgent.External.VirtualMemory
import FrogAgent.Lib.BinarySearch

/-!
# The region cache

`RegionMap::capture` walks the address space and keeps the committed, readable regions, up
to a limit; `in_region` looks a range up by binary search.  `validate_read` asks the cache
first and the system second, so a cache that lacks a region costs time but no answer.
-/

namespace FrogAgent.RegionMap

open FrogAgent.BinarySearch
open FrogAgent.Scan
open FrogAgent.VirtualMemory

/-- What the query describes goes into the map. -/
def recorded (mbi : MemoryBasicInformation) : Bool :=
  mbi.state == memCommit && isReadable mbi.protect && decide (8 ≤ mbi.regionSize)

/-- The loop of `capture`.  Whatever the system answers, the address grows. -/
def captureLoop (virtualQuery : ℕ → Option MemoryBasicInformation) (maxRegions addr : ℕ)
    (regions : List Region) : List Region :=
  match virtualQuery addr with
  | none => regions
  | some mbi =>
      let next := saturatingAdd mbi.baseAddress mbi.regionSize
      let found :=
        if recorded mbi then regions ++ [⟨mbi.baseAddress, next, mbi.protect⟩]
        else regions
      if recorded mbi ∧ maxRegions ≤ found.length then found
      else if next ≤ addr then found
      else captureLoop virtualQuery maxRegions next found
termination_by 2 ^ 64 - addr
decreasing_by
  rename_i hmore
  have hlimit : next ≤ 2 ^ 64 - 1 := Nat.min_le_right _ _
  omega

def capture (virtualQuery : ℕ → Option MemoryBasicInformation) (maxRegions : ℕ) :
    List Region :=
  (captureLoop virtualQuery maxRegions 0 []).mergeSort
    fun left right => decide (left.start ≤ right.start)

/-- The region a binary search by start address selects: the one that starts at the
address, or else the one before the place where it would have to be inserted. -/
def candidate (regions : List Region) (addr : ℕ) : Option Region :=
  match binarySearchBy (fun region : Region => compare region.start addr) regions with
  | .ok idx => regions[idx]?
  | .error 0 => none
  | .error (idx + 1) => regions[idx]?

def inRegion (regions : List Region) (addr len : ℕ) : Bool :=
  match checkedAdd addr len with
  | none => false
  | some stop =>
      match candidate regions addr with
      | none => false
      | some region => decide (region.start ≤ addr) && decide (stop ≤ region.stop)

def liveReadable (virtualQuery : ℕ → Option MemoryBasicInformation) (addr len : ℕ) : Bool :=
  match checkedAdd addr len with
  | none => false
  | some stop =>
      match virtualQuery addr with
      | none => false
      | some mbi =>
          if mbi.state != memCommit || !isReadable mbi.protect then false
          else
            decide (mbi.baseAddress ≤ addr) &&
              decide (stop ≤ saturatingAdd mbi.baseAddress mbi.regionSize)

def validateRead (regions : List Region)
    (virtualQuery : ℕ → Option MemoryBasicInformation) (addr len : ℕ) : Bool :=
  if inRegion regions addr len then true else liveReadable virtualQuery addr len

/-! ## Lookup in ordered regions -/

/-- Regions in ascending order that do not overlap, each with at least one address. -/
structure Separate (regions : List Region) : Prop where
  nonempty : ∀ region ∈ regions, region.start < region.stop
  ascending : regions.Pairwise fun left right => left.stop ≤ right.start

/-- The range lies in the region and does not wrap around. -/
def Region.Contains (region : Region) (addr len : ℕ) : Prop :=
  region.start ≤ addr ∧ addr + len ≤ region.stop ∧ addr + len < 2 ^ 64

section Lookup

variable {regions : List Region} {addr len : ℕ}

theorem Separate.starts (hseparate : Separate regions) :
    regions.Pairwise fun left right => left.start < right.start := by
  refine hseparate.ascending.imp_of_mem ?_
  intro left right hleft _ hbefore
  exact Nat.lt_of_lt_of_le (hseparate.nonempty left hleft) hbefore

theorem Separate.ordered (hseparate : Separate regions) (addr : ℕ) :
    Ordered (fun region : Region => compare region.start addr) regions := by
  refine hseparate.starts.imp ?_
  intro left right hstarts
  simp only [Nat.compare_eq_gt, Nat.compare_eq_lt]
  omega

/-- The candidate is the last region that starts at the address or below. -/
theorem Separate.candidate_some (hseparate : Separate regions) {region : Region}
    (hcandidate : candidate regions addr = some region) :
    region ∈ regions ∧ region.start ≤ addr ∧
      ∀ other ∈ regions, other.start ≤ addr → other.start ≤ region.start := by
  unfold candidate at hcandidate
  split at hcandidate
  case h_1 idx hfound =>
    obtain ⟨found, hat, hequal⟩ := binarySearchBy_ok hfound
    rw [hcandidate, Option.some.injEq] at hat
    rw [← hat, Nat.compare_eq_eq] at hequal
    exact ⟨List.mem_of_getElem? hcandidate, Nat.le_of_eq hequal,
      fun other _ hstart => hequal ▸ hstart⟩
  case h_2 => contradiction
  case h_3 idx habsent =>
    obtain ⟨-, hbelow, habove⟩ := binarySearchBy_error (hseparate.ordered addr) habsent
    have hlt := hbelow idx region (Nat.lt_succ_self idx) hcandidate
    rw [Nat.compare_eq_lt] at hlt
    refine ⟨List.mem_of_getElem? hcandidate, Nat.le_of_lt hlt, ?_⟩
    intro other hother hstart
    obtain ⟨index, hindex⟩ := List.mem_iff_getElem?.mp hother
    by_contra hlater
    -- A region that starts later stands behind the candidate, so it starts too late.
    have hplace : idx + 1 ≤ index := by
      by_contra hearlier
      rcases Nat.lt_or_eq_of_le (Nat.le_of_lt_succ (Nat.not_le.mp hearlier)) with
        hbefore | rfl
      · obtain ⟨hfirst, rfl⟩ := List.getElem?_eq_some_iff.mp hindex
        obtain ⟨hsecond, rfl⟩ := List.getElem?_eq_some_iff.mp hcandidate
        have hstarts := List.pairwise_iff_getElem.mp hseparate.starts index idx hfirst
          hsecond hbefore
        omega
      · rw [hcandidate, Option.some.injEq] at hindex
        rw [hindex] at hlater
        exact hlater (Nat.le_refl _)
    have hgt := habove index other hplace hindex
    rw [Nat.compare_eq_gt] at hgt
    omega

theorem Separate.candidate_none (hseparate : Separate regions)
    (hcandidate : candidate regions addr = none) {region : Region}
    (hregion : region ∈ regions) : addr < region.start := by
  unfold candidate at hcandidate
  split at hcandidate
  case h_1 idx hfound =>
    obtain ⟨found, hat, -⟩ := binarySearchBy_ok hfound
    rw [hcandidate] at hat
    contradiction
  case h_2 habsent =>
    obtain ⟨-, -, habove⟩ := binarySearchBy_error (hseparate.ordered addr) habsent
    obtain ⟨index, hindex⟩ := List.mem_iff_getElem?.mp hregion
    have hgt := habove index region (Nat.zero_le _) hindex
    rwa [Nat.compare_eq_gt] at hgt
  case h_3 idx habsent =>
    obtain ⟨hinside, -, -⟩ := binarySearchBy_error (hseparate.ordered addr) habsent
    rw [List.getElem?_eq_none_iff] at hcandidate
    omega

/-- Two regions with an address in common are the same. -/
theorem Separate.eq_of_common (hseparate : Separate regions) {left right : Region}
    (hleft : left ∈ regions) (hright : right ∈ regions)
    (hinLeft : left.start ≤ addr ∧ addr < left.stop)
    (hinRight : right.start ≤ addr ∧ addr < right.stop) : left = right := by
  obtain ⟨first, hfirst, rfl⟩ := List.mem_iff_getElem.mp hleft
  obtain ⟨second, hsecond, rfl⟩ := List.mem_iff_getElem.mp hright
  have hascending := List.pairwise_iff_getElem.mp hseparate.ascending
  rcases Nat.lt_trichotomy first second with hlt | rfl | hgt
  · have hbefore := hascending first second hfirst hsecond hlt
    omega
  · rfl
  · have hbefore := hascending second first hsecond hfirst hgt
    omega

/-- `in_region` accepts a range exactly if one of the regions contains it. -/
theorem Separate.inRegion_iff (hseparate : Separate regions) (hlen : 1 ≤ len) :
    inRegion regions addr len = true ↔
      ∃ region ∈ regions, Region.Contains region addr len := by
  unfold inRegion checkedAdd
  by_cases hwrap : addr + len < 2 ^ 64
  case neg =>
    rw [if_neg hwrap]
    simp only [Bool.false_eq_true, false_iff, not_exists, not_and]
    intro region _ hcontains
    exact hwrap hcontains.2.2
  case pos =>
    rw [if_pos hwrap]
    cases hcandidate : candidate regions addr with
    | none =>
        simp only [Bool.false_eq_true, false_iff, not_exists, not_and]
        intro region hregion hcontains
        have hstart := hseparate.candidate_none hcandidate hregion
        exact absurd hcontains.1 (Nat.not_le.mpr hstart)
    | some found =>
        obtain ⟨hfound, hstart, hlast⟩ := hseparate.candidate_some hcandidate
        simp only [Bool.and_eq_true, decide_eq_true_eq]
        constructor
        · rintro ⟨-, hstop⟩
          exact ⟨found, hfound, hstart, hstop, hwrap⟩
        · rintro ⟨region, hregion, hcontains⟩
          have hbefore := hlast region hregion hcontains.1
          -- The candidate starts inside the region that contains the range.
          have hnonempty := hseparate.nonempty found hfound
          have hstop := hcontains.2.1
          have hsame : region = found := by
            have hinside : region.start ≤ found.start ∧ found.start < region.stop :=
              ⟨hbefore, by omega⟩
            exact hseparate.eq_of_common hregion hfound hinside
              ⟨Nat.le_refl _, hnonempty⟩
          rw [← hsame]
          exact ⟨hcontains.1, hcontains.2.1⟩

end Lookup

/-! ## The capture of a layout -/

/-- A readable tile, as the map keeps it. -/
def IsReadableTile (layout : Layout) (region : Region) : Prop :=
  ∃ tile, layout.IsTile tile ∧ tile.Readable ∧
    region = ⟨tile.start, tile.stop, tile.protect⟩

/-- The regions found below an address. -/
structure FoundBelow (layout : Layout) (addr : ℕ) (regions : List Region) : Prop where
  tiles : ∀ region ∈ regions, IsReadableTile layout region
  below : ∀ region ∈ regions, region.stop ≤ addr
  ascending : regions.Pairwise fun left right => left.stop ≤ right.start

section Capture

variable {layout : Layout} {regions : List Region} {addr : ℕ}

theorem IsReadableTile.nonempty {region : Region} (hregion : IsReadableTile layout region) :
    region.start < region.stop := by
  obtain ⟨tile, htile, -, rfl⟩ := hregion
  exact htile.nonempty

theorem saturatingAdd_tile {tile : Tile} (htile : layout.IsTile tile) {base : ℕ}
    (hbase : base ≤ tile.stop) : saturatingAdd base (tile.stop - base) = tile.stop := by
  have hstop := htile.stop_lt
  rw [saturatingAdd, Nat.add_sub_cancel' hbase]
  omega

theorem FoundBelow.mono {later : ℕ} (hfound : FoundBelow layout addr regions)
    (hlater : addr ≤ later) : FoundBelow layout later regions :=
  ⟨hfound.tiles, fun region hregion => Nat.le_trans (hfound.below region hregion) hlater,
    hfound.ascending⟩

theorem FoundBelow.concat {tile : Tile} (hfound : FoundBelow layout tile.start regions)
    (htile : layout.IsTile tile) (hreadable : tile.Readable) :
    FoundBelow layout tile.stop (regions ++ [⟨tile.start, tile.stop, tile.protect⟩]) := by
  have hnonempty := htile.nonempty
  constructor
  · intro region hregion
    rcases List.mem_append.mp hregion with hold | hnew
    · exact hfound.tiles region hold
    · rw [List.mem_singleton.mp hnew]
      exact ⟨tile, htile, hreadable, rfl⟩
  · intro region hregion
    rcases List.mem_append.mp hregion with hold | hnew
    · exact Nat.le_trans (hfound.below region hold) (Nat.le_of_lt hnonempty)
    · rw [List.mem_singleton.mp hnew]
  · refine List.pairwise_append.mpr ⟨hfound.ascending, List.pairwise_singleton _ _, ?_⟩
    intro region hregion last hlast
    rw [List.mem_singleton.mp hlast]
    exact hfound.below region hregion

theorem readable_of_recorded {mbi : MemoryBasicInformation} (hrecorded : recorded mbi = true) :
    mbi.state = memCommit ∧ isReadable mbi.protect = true := by
  simp only [recorded, Bool.and_eq_true, beq_iff_eq] at hrecorded
  exact hrecorded.1

/-- The query of the start of a tile gives the whole tile. -/
theorem query_start {mbi : MemoryBasicInformation}
    (hstart : ∀ tile, layout.tileAt addr = some tile → tile.start = addr)
    (hquery : layout.virtualQuery addr = some mbi) :
    ∃ tile, layout.IsTile tile ∧ tile.start = addr ∧
      mbi = ⟨tile.start, tile.stop - tile.start, tile.state, tile.protect⟩ := by
  cases htile : layout.tileAt addr with
  | none =>
      rw [layout.query_none addr htile] at hquery
      contradiction
  | some tile =>
      obtain ⟨base, hbase, hbelow, hanswer⟩ := layout.query_some addr tile htile
      rw [hanswer, Option.some.injEq] at hquery
      have haddr := hstart tile htile
      have hsame : base = tile.start := by omega
      exact ⟨tile, layout.isTile_of_tileAt htile, haddr, by rw [← hquery, hsame]⟩

/-- The loop, started where a tile starts, finds readable tiles in ascending order. -/
theorem captureLoop_found (maxRegions : ℕ)
    (hstart : ∀ tile, layout.tileAt addr = some tile → tile.start = addr)
    (hfound : FoundBelow layout addr regions) :
    ∃ limit, FoundBelow layout limit
      (captureLoop layout.virtualQuery maxRegions addr regions) := by
  fun_induction captureLoop layout.virtualQuery maxRegions addr regions with
  | case1 addr regions hnone => exact ⟨addr, hfound⟩
  | case2 addr regions mbi hquery next found hfull =>
      obtain ⟨tile, htile, rfl, rfl⟩ := query_start hstart hquery
      have hnext : next = tile.stop :=
        saturatingAdd_tile htile (Nat.le_of_lt htile.nonempty)
      have hsome : found = regions ++ [⟨tile.start, tile.stop, tile.protect⟩] := by
        rw [← hnext]
        exact if_pos hfull.1
      rw [hsome]
      exact ⟨tile.stop, hfound.concat htile (readable_of_recorded hfull.1)⟩
  | case3 addr regions mbi hquery next found hroom hstuck =>
      -- A tile is not empty, so the address always grows.
      obtain ⟨tile, htile, rfl, rfl⟩ := query_start hstart hquery
      have hnext : next = tile.stop :=
        saturatingAdd_tile htile (Nat.le_of_lt htile.nonempty)
      have hnonempty := htile.nonempty
      omega
  | case4 addr regions mbi hquery next found hroom hgrows ih =>
      obtain ⟨tile, htile, rfl, rfl⟩ := query_start hstart hquery
      have hnext : next = tile.stop :=
        saturatingAdd_tile htile (Nat.le_of_lt htile.nonempty)
      apply ih
      · intro other hother
        rw [hnext] at hother ⊢
        exact htile.next_start hother
      · rw [hnext]
        by_cases hrecorded : recorded
            ⟨tile.start, tile.stop - tile.start, tile.state, tile.protect⟩ = true
        · have hsome : found =
              regions ++ [⟨tile.start, tile.stop, tile.protect⟩] := by
            rw [← hnext]
            exact if_pos hrecorded
          rw [hsome]
          exact hfound.concat htile (readable_of_recorded hrecorded)
        · have hsame : found = regions := if_neg hrecorded
          rw [hsame]
          exact hfound.mono (Nat.le_of_lt htile.nonempty)

theorem capture_found (layout : Layout) (maxRegions : ℕ) :
    ∃ limit, FoundBelow layout limit (capture layout.virtualQuery maxRegions) := by
  have hstart : ∀ tile, layout.tileAt 0 = some tile → tile.start = 0 := by
    intro tile htile
    exact Nat.le_zero.mp (layout.inside 0 tile htile).1
  have hempty : FoundBelow layout 0 [] := by
    constructor <;> simp
  obtain ⟨limit, hfound⟩ := captureLoop_found maxRegions hstart hempty
  refine ⟨limit, ?_⟩
  -- The walk is ascending, so the sort changes nothing.
  rw [capture, List.mergeSort_of_pairwise]
  · exact hfound
  · refine hfound.ascending.imp_of_mem ?_
    intro left right hleft _ hbefore
    have hnonempty := (hfound.tiles left hleft).nonempty
    exact decide_eq_true (by omega)

theorem FoundBelow.separate (hfound : FoundBelow layout addr regions) : Separate regions :=
  ⟨fun region hregion => (hfound.tiles region hregion).nonempty, hfound.ascending⟩

end Capture

/-! ## Cached and live validation -/

section Live

variable {layout : Layout} {addr len : ℕ}

/-- The live check accepts a range exactly if one readable tile contains it. -/
theorem liveReadable_iff (hlen : 1 ≤ len) :
    liveReadable layout.virtualQuery addr len = true ↔
      ∃ tile, layout.IsTile tile ∧ tile.Readable ∧ tile.start ≤ addr ∧
        addr + len ≤ tile.stop := by
  unfold liveReadable checkedAdd
  constructor
  · intro hlive
    split at hlive
    case h_1 => contradiction
    case h_2 stop hstop =>
      rw [Option.ite_none_right_eq_some, Option.some.injEq] at hstop
      obtain ⟨-, rfl⟩ := hstop
      cases htile : layout.tileAt addr with
      | none =>
          rw [layout.query_none addr htile] at hlive
          contradiction
      | some tile =>
          obtain ⟨hstart, hbefore, -⟩ := layout.inside addr tile htile
          obtain ⟨base, -, hbelow, hanswer⟩ := layout.query_some addr tile htile
          have hsum := saturatingAdd_tile (layout.isTile_of_tileAt htile)
            (by omega : base ≤ tile.stop)
          simp only [hanswer, hsum] at hlive
          split at hlive
          case isTrue => contradiction
          case isFalse hreadable =>
            simp only [bne_iff_ne, Bool.or_eq_true, Bool.not_eq_true', not_or, ne_eq,
              not_not, Bool.not_eq_false] at hreadable
            simp only [Bool.and_eq_true, decide_eq_true_eq] at hlive
            exact ⟨tile, layout.isTile_of_tileAt htile, hreadable, hstart, hlive.2⟩
  · rintro ⟨tile, htile, ⟨hcommitted, hreadable⟩, hstart, hstop⟩
    have htop := htile.stop_lt
    have hat := htile.tileAt_eq hstart (by omega)
    obtain ⟨base, -, hbelow, hanswer⟩ := layout.query_some addr tile hat
    have hsum := saturatingAdd_tile htile (by omega : base ≤ tile.stop)
    rw [if_pos (by omega)]
    simp only [hanswer, hsum, hcommitted, hreadable]
    simp [hbelow, hstop]

/-- What a cache of readable tiles accepts the live check accepts too. -/
theorem liveReadable_of_inRegion {regions : List Region} (hlen : 1 ≤ len)
    (hseparate : Separate regions)
    (htiles : ∀ region ∈ regions, IsReadableTile layout region)
    (hcached : inRegion regions addr len = true) :
    liveReadable layout.virtualQuery addr len = true := by
  obtain ⟨region, hregion, hcontains⟩ := (hseparate.inRegion_iff hlen).mp hcached
  obtain ⟨tile, htile, hreadable, rfl⟩ := htiles region hregion
  exact (liveReadable_iff hlen).mpr
    ⟨tile, htile, hreadable, hcontains.1, hcontains.2.1⟩

theorem validateRead_eq_live {regions : List Region} (hlen : 1 ≤ len)
    (hseparate : Separate regions)
    (htiles : ∀ region ∈ regions, IsReadableTile layout region) :
    validateRead regions layout.virtualQuery addr len =
      liveReadable layout.virtualQuery addr len := by
  unfold validateRead
  split
  case isTrue hcached =>
    exact (liveReadable_of_inRegion hlen hseparate htiles hcached).symm
  case isFalse => rfl

end Live

/-- Whatever the layout and the limit, the captured regions are sorted and disjoint, the
lookup in them is exact, and the cached validation is the live one, which accepts a range
exactly if one committed, readable region contains it. -/
theorem capture_validates (layout : Layout) (maxRegions addr len : ℕ) (hlen : 1 ≤ len) :
    (capture layout.virtualQuery maxRegions).Pairwise
      (fun left right => left.start ≤ right.start) ∧
    (capture layout.virtualQuery maxRegions).Pairwise
      (fun left right => ∀ address, left.start ≤ address ∧ address < left.stop →
        ¬ (right.start ≤ address ∧ address < right.stop)) ∧
    (inRegion (capture layout.virtualQuery maxRegions) addr len = true ↔
      ∃ region ∈ capture layout.virtualQuery maxRegions,
        Region.Contains region addr len) ∧
    validateRead (capture layout.virtualQuery maxRegions) layout.virtualQuery addr len =
      liveReadable layout.virtualQuery addr len ∧
    (liveReadable layout.virtualQuery addr len = true ↔
      ∃ tile, layout.IsTile tile ∧ tile.Readable ∧ tile.start ≤ addr ∧
        addr + len ≤ tile.stop) := by
  obtain ⟨limit, hfound⟩ := capture_found layout maxRegions
  have hseparate := hfound.separate
  refine ⟨?_, ?_, hseparate.inRegion_iff hlen,
    validateRead_eq_live hlen hseparate hfound.tiles, liveReadable_iff hlen⟩
  · exact hseparate.starts.imp fun hstarts => Nat.le_of_lt hstarts
  · refine hseparate.ascending.imp ?_
    intro left right hbefore address hleft hright
    omega

/-- A free page and two committed ones that can be read and written. -/
def sampleTile (address : ℕ) : Option Tile :=
  if address < 0x1000 then some ⟨0, 0x1000, 0x10000, pageNoaccess⟩
  else if address < 0x3000 then some ⟨0x1000, 0x3000, memCommit, pageReadwrite⟩
  else none

theorem sampleTile_eq {address : ℕ} {tile : Tile} (htile : sampleTile address = some tile) :
    (address < 0x1000 ∧ tile = ⟨0, 0x1000, 0x10000, pageNoaccess⟩) ∨
      (0x1000 ≤ address ∧ address < 0x3000 ∧
        tile = ⟨0x1000, 0x3000, memCommit, pageReadwrite⟩) := by
  unfold sampleTile at htile
  split at htile
  case isTrue hlow => exact Or.inl ⟨hlow, (Option.some.inj htile).symm⟩
  case isFalse hlow =>
    split at htile
    case isTrue hhigh =>
      exact Or.inr ⟨Nat.not_lt.mp hlow, hhigh, (Option.some.inj htile).symm⟩
    case isFalse => contradiction

def sampleLayout : Layout where
  top := 0x3000
  top_lt := by decide
  tileAt := sampleTile
  tileAt_isSome := by
    intro address
    unfold sampleTile
    split
    · simp
      omega
    · split <;> simp <;> omega
  inside := by
    intro address tile htile
    rcases sampleTile_eq htile with ⟨hlow, rfl⟩ | ⟨hlow, hhigh, rfl⟩
    · exact ⟨Nat.zero_le _, hlow, by decide⟩
    · exact ⟨hlow, hhigh, Nat.le_refl _⟩
  uniform := by
    intro address other tile htile hstart hstop
    rcases sampleTile_eq htile with ⟨-, rfl⟩ | ⟨-, -, rfl⟩
    · exact if_pos hstop
    · rw [sampleTile, if_neg (Nat.not_lt.mpr hstart), if_pos hstop]
  virtualQuery := fun address => (sampleTile address).map fun tile =>
    ⟨tile.start, tile.stop - tile.start, tile.state, tile.protect⟩
  query_none := by
    intro address hnone
    rw [hnone, Option.map_none]
  query_some := by
    intro address tile htile
    refine ⟨tile.start, Nat.le_refl _, ?_, by rw [htile, Option.map_some]⟩
    rcases sampleTile_eq htile with ⟨-, rfl⟩ | ⟨hlow, -, rfl⟩
    · exact Nat.zero_le _
    · exact hlow

/-- The last word of the readable region is validated through a cache of one region. -/
theorem capture_validates_sampleLayout :
    validateRead (capture sampleLayout.virtualQuery 1) sampleLayout.virtualQuery 0x2FF8 8 =
      true := by
  obtain ⟨-, -, -, hcached, hlive⟩ :=
    capture_validates sampleLayout 1 0x2FF8 8 (by decide)
  rw [hcached, hlive]
  exact ⟨⟨0x1000, 0x3000, memCommit, pageReadwrite⟩, rfl, ⟨rfl, rfl⟩, by decide,
    by decide⟩

end FrogAgent.RegionMap
