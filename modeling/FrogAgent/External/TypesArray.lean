import FrogAgent.External.ClassTable
import FrogAgent.External.MetadataScan

/-!
# The search for the types array

`find_types_array` of `external/scan.rs` looks through the image of the game's module for the
number of types and takes the pointer behind it.  On every layout of the address space the
loop ends, and it answers the pointer at the lowest place of the image that passes its checks.
-/

namespace FrogAgent.TypesArray

open FrogAgent.ByteMemory
open FrogAgent.ClassTable
open FrogAgent.LittleEndian
open FrogAgent.Lowest
open FrogAgent.MetadataScan
open FrogAgent.RegionMap
open FrogAgent.Scan
open FrogAgent.VirtualMemory

/-- What the search does not change while it runs. -/
structure Search where
  memory : Memory UInt8
  regions : List Region
  typeCount : UInt32

section Loop

variable (search : Search)

/-- The pointer at the place, if it is not null and points into the map. -/
def typesPointer (addr : ℕ) : Option ℕ :=
  (readU64 search.regions search.memory addr).bind fun p =>
    if p ≠ 0 ∧ inRegion search.regions p 8 = true then some p else none

/-- The count stands at offset 12 of the struct; the pointer without padding comes first. -/
def pointerFor (place : ℕ) : Option ℕ :=
  (typesPointer search (place - 12 + 20)).or (typesPointer search (place - 12 + 24))

/-- The loop over the bytes of a slice that starts at `start`. -/
def scanSlice (start length : ℕ) : ℕ → ℕ → Option ℕ
  | 0, _ => none
  | rounds + 1, i =>
      if i + 28 ≤ length then
        if 12 ≤ i ∧ load search.memory (start + i) 4 = leBytes 4 search.typeCount.toNat then
          (pointerFor search (start + i)).or (scanSlice start length rounds (i + 1))
        else scanSlice start length rounds (i + 1)
      else none

/-- The loop over the regions of the image; `none` stands for no answer in as many rounds,
and where the slice is empty the loop goes on at the same address. -/
def scanImage (virtualQuery : ℕ → Option MemoryBasicInformation) (stop : ℕ) :
    ℕ → ℕ → Option (Option ℕ)
  | 0, _ => none
  | rounds + 1, addr =>
      if addr < stop then
        match virtualQuery addr with
        | none => some none
        | some mbi =>
            let next := saturatingAdd mbi.baseAddress mbi.regionSize
            if mbi.state = memCommit ∧ isReadable mbi.protect = true ∧ 32 ≤ mbi.regionSize then
              let first := max addr mbi.baseAddress
              let last := min next stop
              if last ≤ first then scanImage virtualQuery stop rounds addr
              else
                match scanSlice search first (last - first) (last - first) 0 with
                | some p => some (some p)
                | none => if next ≤ addr then some none else scanImage virtualQuery stop rounds next
            else if next ≤ addr then some none
            else scanImage virtualQuery stop rounds next
      else some none

/-- The end of the module's image, from the size that its header gives. -/
def imageEnd (base : ℕ) : ℕ :=
  let peHeader := leValue (load search.memory (base + 0x3C) 4)
  let sizeOfImage := leValue (load search.memory (base + peHeader + 24 + 0x38) 4)
  saturatingAdd base sizeOfImage

/-- `module` is the handle of the game's module. -/
def findTypesArray (virtualQuery : ℕ → Option MemoryBasicInformation) (module : Option ℕ)
    (rounds : ℕ) : Option (Option ℕ) :=
  match module with
  | none => some none
  | some base => scanImage search virtualQuery (imageEnd search base) rounds base

end Loop

/-! ## What is found -/

/-- The count stands at the place, with room for the struct around it in the part of a
readable tile that lies in the image, and the pointer behind it passes the checks. -/
def TypesAt (layout : Layout) (search : Search) (base stop place p : ℕ) : Prop :=
  ∃ tile, layout.IsTile tile ∧ tile.Readable ∧ max base tile.start + 12 ≤ place ∧
    place + 28 ≤ min tile.stop stop ∧
    load search.memory place 4 = leBytes 4 search.typeCount.toNat ∧
    pointerFor search place = some p

section Find

variable {layout : Layout} {search : Search} {base stop : ℕ}

/-- In a slice: the lowest place is the answer. -/
theorem scanSlice_lowest {found : ℕ → ℕ → Prop} {start length rounds i : ℕ}
    (hfound : ∀ place p, start + i ≤ place → (found place p ↔ start + 12 ≤ place ∧
      place + 28 ≤ start + length ∧
      load search.memory place 4 = leBytes 4 search.typeCount.toNat ∧
      pointerFor search place = some p))
    (hrounds : length ≤ i + rounds) :
    Answers found (start + i) (start + length) (scanSlice search start length rounds i) := by
  have hpast : ∀ place, length < place + 28 - start → start + i ≤ place →
      ∀ p, ¬ found place p := by
    intro place hend hplace p hp
    have hfits := ((hfound place p hplace).mp hp).2.1
    omega
  induction rounds generalizing i with
  | zero => exact .absent (nothing_of_le (by omega))
  | succ rounds ih =>
      rw [scanSlice]
      by_cases hroom : i + 28 ≤ length
      case neg =>
        rw [if_neg hroom]
        exact .absent fun place hplace _ p => hpast place (by omega) hplace p
      case pos =>
        have hrest := @ih (i + 1) (fun place p hplace => hfound place p (by omega))
          (by omega) (fun place hend hplace => hpast place hend (by omega))
        have hskip : (∀ p, ¬ found (start + i) p) →
            Answers found (start + i) (start + length)
              (scanSlice search start length rounds (i + 1)) := by
          intro hnone
          refine hrest.skip (by omega) ?_
          intro place hplace hlt p
          have hsame : place = start + i := by omega
          rw [hsame]
          exact hnone p
        rw [if_pos hroom]
        by_cases hcount : 12 ≤ i ∧
            load search.memory (start + i) 4 = leBytes 4 search.typeCount.toNat
        case neg =>
          rw [if_neg hcount]
          refine hskip fun p hp => hcount ?_
          obtain ⟨hstart, -, hword, -⟩ := (hfound _ p (Nat.le_refl _)).mp hp
          exact ⟨by omega, hword⟩
        case pos =>
          rw [if_pos hcount]
          cases hpointer : pointerFor search (start + i) with
          | none =>
              rw [Option.none_or]
              refine hskip fun p hp => ?_
              have hsome := ((hfound _ p (Nat.le_refl _)).mp hp).2.2.2
              rw [hpointer] at hsome
              contradiction
          | some p =>
              rw [Option.some_or]
              exact .present (Nat.le_refl _) (by omega)
                ((hfound _ p (Nat.le_refl _)).mpr
                  ⟨by omega, by omega, hcount.2, hpointer⟩)
                (nothing_of_le (Nat.le_refl _))

/-- An address of the image: the module starts there, or a tile. -/
def Enters (layout : Layout) (base addr : ℕ) : Prop :=
  base ≤ addr ∧ ∀ tile, layout.tileAt addr = some tile → addr = max base tile.start

/-- The part of a tile that lies in the image, as the slice covers it. -/
theorem typesAt_iff_inside {tile : Tile} {addr place p : ℕ} (htile : layout.IsTile tile)
    (henters : Enters layout base addr) (hat : layout.tileAt addr = some tile)
    (hreadable : tile.Readable) (hlast : addr ≤ min tile.stop stop) (hplace : addr ≤ place) :
    (TypesAt layout search base stop place p ∧ place < min tile.stop stop) ↔
      addr + 12 ≤ place ∧ place + 28 ≤ addr + (min tile.stop stop - addr) ∧
        load search.memory place 4 = leBytes 4 search.typeCount.toNat ∧
        pointerFor search place = some p := by
  have haddr := henters.2 tile hat
  have hstart := (layout.inside addr tile hat).1
  rw [Nat.add_sub_cancel' hlast]
  constructor
  · rintro ⟨⟨other, hother, -, hlow, hhigh, hword, hpointer⟩, hinside⟩
    have hsame := same_tile htile hother ⟨Nat.le_trans hstart hplace, by omega⟩
      ⟨by omega, by omega⟩
    subst hsame
    exact ⟨by omega, by omega, hword, hpointer⟩
  · rintro ⟨hlow, hhigh, hword, hpointer⟩
    exact ⟨⟨tile, htile, hreadable, by omega, hhigh, hword, hpointer⟩, by omega⟩

/-- In a tile that the loop does not look into there is nothing. -/
theorem nothing_of_skipped {tile : Tile} {addr : ℕ} (htile : layout.IsTile tile)
    (henters : Enters layout base addr) (hat : layout.tileAt addr = some tile)
    (hskipped : ¬ (tile.Readable ∧ addr + 32 ≤ tile.stop)) :
    Nothing (TypesAt layout search base stop) addr tile.stop := by
  have haddr := henters.2 tile hat
  have hstart := (layout.inside addr tile hat).1
  rintro place hplace hlt p ⟨other, hother, hreadable, hlow, hhigh, -⟩
  have hsame := same_tile htile hother ⟨Nat.le_trans hstart hplace, hlt⟩ ⟨by omega, by omega⟩
  subst hsame
  exact hskipped ⟨hreadable, by omega⟩

theorem scanImage_lowest {rounds addr : ℕ} (henters : Enters layout base addr)
    (hrounds : stop - addr < rounds) :
    ∃ answer, scanImage search layout.virtualQuery stop rounds addr = some answer ∧
      Answers (TypesAt layout search base stop) addr stop answer := by
  induction rounds generalizing addr with
  | zero => omega
  | succ rounds ih =>
      rw [scanImage]
      by_cases hbelow : addr < stop
      case neg =>
        rw [if_neg hbelow]
        exact ⟨none, rfl, .absent (nothing_of_le (Nat.not_lt.mp hbelow))⟩
      case pos =>
        rw [if_pos hbelow]
        cases hat : layout.tileAt addr with
        | none =>
            rw [layout.query_none addr hat]
            refine ⟨none, rfl, .absent ?_⟩
            rintro place hplace - p ⟨tile, htile, -, hlow, hhigh, -⟩
            have htop := (layout.inside tile.start tile htile).2.2
            have hnone := layout.tileAt_isSome addr
            rw [hat] at hnone
            have habove : ¬ addr < layout.top := fun hlt => nomatch hnone.mpr hlt
            omega
        | some tile =>
            have htile := layout.isTile_of_tileAt hat
            obtain ⟨hstart, hstop, -⟩ := layout.inside addr tile hat
            obtain ⟨first, hfirst, hfirstLe, hsome⟩ := layout.query_some addr tile hat
            have hnext := saturatingAdd_tile htile (by omega : first ≤ tile.stop)
            -- The loop goes on at the next tile, which is an address it enters.
            have hnextEnters : Enters layout base tile.stop := by
              refine ⟨Nat.le_trans henters.1 (Nat.le_of_lt hstop), fun other hother => ?_⟩
              have hsame := htile.next_start hother
              have hbase := henters.1
              omega
            obtain ⟨answer, hanswer, hrest⟩ := ih hnextEnters (by omega)
            rw [hsome]
            simp only [hnext]
            by_cases hlooks : tile.state = memCommit ∧ isReadable tile.protect = true ∧
                32 ≤ tile.stop - first
            case neg =>
              rw [if_neg hlooks, if_neg (Nat.not_le.mpr hstop)]
              refine ⟨answer, hanswer, hrest.skip (Nat.le_of_lt hstop) ?_⟩
              apply nothing_of_skipped htile henters hat
              rintro ⟨hreadable, hlong⟩
              exact hlooks ⟨hreadable.1, hreadable.2, by omega⟩
            case pos =>
              have hreadable : tile.Readable := ⟨hlooks.1, hlooks.2.1⟩
              have hslice : addr ≤ min tile.stop stop := by omega
              have hmax : max addr first = addr := by omega
              have hopen : ¬ min tile.stop stop ≤ addr := by omega
              rw [if_pos hlooks, hmax, if_neg hopen]
              have hfound := @scanSlice_lowest search
                (fun place p => TypesAt layout search base stop place p ∧
                  place < min tile.stop stop) addr (min tile.stop stop - addr)
                (min tile.stop stop - addr) 0
                (fun place p hplace => typesAt_iff_inside htile henters hat hreadable hslice
                  (by omega)) (by omega)
              rw [Nat.add_zero, Nat.add_sub_cancel' hslice] at hfound
              cases hscan : scanSlice search addr (min tile.stop stop - addr)
                  (min tile.stop stop - addr) 0 with
              | some p =>
                  rw [hscan] at hfound
                  cases hfound with
                  | present hlow hhigh hp hbefore =>
                      refine ⟨some p, rfl, .present hlow (by omega) hp.1 ?_⟩
                      intro place hplace hlt other hother
                      exact hbefore place hplace hlt other ⟨hother, hlt.trans hp.2⟩
              | none =>
                  rw [hscan] at hfound
                  simp only [if_neg (Nat.not_le.mpr hstop)]
                  refine ⟨answer, hanswer, ?_⟩
                  have hnone := hfound.nothing
                  rcases Nat.le_total tile.stop stop with hle | hle
                  · refine hrest.skip (Nat.le_of_lt hstop) fun place hplace hlt p hp => ?_
                    exact hnone place hplace (by omega) p ⟨hp, by omega⟩
                  · have hempty : answer = none := by
                      cases hrest with
                      | absent => rfl
                      | present hlow hhigh => omega
                    rw [hempty]
                    exact .absent fun place hplace hlt p hp =>
                      hnone place hplace (by omega) p ⟨hp, by omega⟩

theorem typesPointer_some {p addr : ℕ} (hp : typesPointer search addr = some p) :
    p ≠ 0 ∧ inRegion search.regions p 8 = true := by
  obtain ⟨word, -, hword⟩ := Option.bind_eq_some_iff.mp hp
  rw [Option.ite_none_right_eq_some, Option.some.injEq] at hword
  obtain ⟨hchecks, rfl⟩ := hword
  exact hchecks

theorem pointerFor_some {p place : ℕ} (hp : pointerFor search place = some p) :
    p ≠ 0 ∧ inRegion search.regions p 8 = true := by
  rw [pointerFor, Option.or_eq_some_iff] at hp
  rcases hp with hp | ⟨-, hp⟩
  · exact typesPointer_some hp
  · exact typesPointer_some hp

/-- On every layout the search through the image of a module ends, within as many rounds as
there are addresses.  It answers the pointer at the lowest place that holds the count, with
room for the struct around it, and whose pointer passes the checks; and nothing only if there
is no such place.  The pointer is not null and points into readable memory. -/
theorem findTypesArray_lowest (layout : Layout) (memory : Memory UInt8) (maxRegions : ℕ)
    (typeCount : UInt32) (base : ℕ) :
    let search : Search := ⟨memory, capture layout.virtualQuery maxRegions, typeCount⟩
    ∃ answer, findTypesArray search layout.virtualQuery (some base) (2 ^ 64) = some answer ∧
      Answers (TypesAt layout search base (imageEnd search base)) base (imageEnd search base)
        answer ∧
      ∀ p ∈ answer, p ≠ 0 ∧ ∃ tile, layout.IsTile tile ∧ tile.Readable ∧ tile.start ≤ p ∧
        p + 8 ≤ tile.stop := by
  intro search
  have hstop : imageEnd search base < 2 ^ 64 := by
    have hlimit : imageEnd search base ≤ 2 ^ 64 - 1 := Nat.min_le_right _ _
    omega
  have henters : Enters layout base base := by
    refine ⟨Nat.le_refl base, fun tile htile => ?_⟩
    rw [Nat.max_eq_left (layout.inside base tile htile).1]
  obtain ⟨answer, hanswer, hlowest⟩ := @scanImage_lowest layout search base
    (imageEnd search base) (2 ^ 64) base henters (Nat.lt_of_le_of_lt (Nat.sub_le _ _) hstop)
  refine ⟨answer, hanswer, hlowest, fun p hp => ?_⟩
  cases hlowest with
  | absent => contradiction
  | present _ _ hfound _ =>
      cases hp
      obtain ⟨-, -, -, -, -, -, hpointer⟩ := hfound
      obtain ⟨hnull, hregion⟩ := pointerFor_some hpointer
      obtain ⟨limit, hcaptured⟩ := capture_found layout maxRegions
      obtain ⟨region, hmem, hcontains⟩ :=
        (hcaptured.separate.inRegion_iff (by decide : 1 ≤ 8)).mp hregion
      obtain ⟨tile, htile, hreadable, rfl⟩ := hcaptured.tiles region hmem
      exact ⟨hnull, tile, htile, hreadable, hcontains.1, hcontains.2.1⟩

end Find

end FrogAgent.TypesArray
