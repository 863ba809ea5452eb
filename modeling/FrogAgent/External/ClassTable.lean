import FrogAgent.External.RegionMap
import FrogAgent.Lib.LittleEndian
import FrogAgent.Lib.MaximalRuns

/-!
# The search for the class table

`find_class_table` of `external/scan.rs` looks for the densest array of class pointers: it
coalesces adjacent regions, walks their slots with one run open at a time, and keeps the
run with the most classes.
-/

namespace FrogAgent.ClassTable

open FrogAgent.ByteMemory
open FrogAgent.LittleEndian
open FrogAgent.MaximalRuns
open FrogAgent.RegionMap
open FrogAgent.Scan
open FrogAgent.VirtualMemory

structure Tunables where
  maxScanRegions : ℕ
  minClasses : ℕ

/-! ## The shape of a class -/

section Shape

variable (regions : List Region) (memory : Memory UInt8)

def readU64 (addr : ℕ) : Option ℕ :=
  if inRegion regions addr 8 then some (leValue (load memory addr 8)) else none

/-- The characters before a NUL, all of them printable. -/
def printable : List UInt8 → Option (List Char)
  | [] => none
  | byte :: bytes =>
      if byte = 0 then some []
      else if 0x20 ≤ byte ∧ byte ≤ 0x7E then
        (printable bytes).map (Char.ofNat byte.toNat :: ·)
      else none

def readNameStrict (addr : ℕ) : Option String := do
  if inRegion regions addr 64 then
    let chars ← printable (load memory addr 64)
    if chars = [] then none else some (String.ofList chars)
  else none

def isImage (p : ℕ) : Bool :=
  if p = 0 then false
  else
    match (readU64 regions memory p).bind (readNameStrict regions memory) with
    | some name => 4 < name.utf8ByteSize && ".dll".toList.isSuffixOf name.toList
    | none => false

def classFields (p : ℕ) : Option (String × String) := do
  let imagePtr ← (checkedAdd p 0x00).bind (readU64 regions memory)
  if !isImage regions memory imagePtr then none
  else
    let namePtr ← (checkedAdd p 0x10).bind (readU64 regions memory)
    let nsPtr ← (checkedAdd p 0x18).bind (readU64 regions memory)
    let name ← readNameStrict regions memory namePtr
    return (name, (readNameStrict regions memory nsPtr).getD "")

end Shape

/-! ## The search -/

/-- `merged` with one more region. -/
def mergeRegion (merged : List (ℕ × ℕ)) (region : Region) : List (ℕ × ℕ) :=
  match merged.getLast? with
  | some last =>
      if last.2 = region.start then merged.dropLast ++ [(last.1, region.stop)]
      else merged ++ [(region.start, region.stop)]
  | none => merged ++ [(region.start, region.stop)]

structure Best where
  base : ℕ
  slots : ℕ
  classCount : ℕ
  deriving DecidableEq

/-- The variables of the loop over one area. -/
structure Search where
  runStart : ℕ
  runSlots : ℕ
  runClasses : ℕ
  inRun : Bool
  best : Option Best

section Search

variable (tunables : Tunables) (regions : List Region) (memory : Memory UInt8)

/-- What becomes of the best run when the open one ends. -/
def Search.commit (search : Search) : Option Best :=
  if search.inRun ∧ tunables.minClasses ≤ search.runClasses ∧
      search.best.all (fun best => best.classCount < search.runClasses) = true then
    some ⟨search.runStart, search.runSlots, search.runClasses⟩
  else search.best

/-- The loop over the slots of one area, in at most `rounds` rounds. -/
def scanArea (stop : ℕ) : ℕ → ℕ → Search → Option Search
  | 0, _, _ => none
  | rounds + 1, a, search =>
      if wrappingAdd a 8 ≤ stop then
        let slot := leValue (load memory a 8)
        let classy := slot ≠ 0 ∧ (classFields regions memory slot).isSome = true
        if slot = 0 ∨ classy then
          let search := if search.inRun then search
            else { search with inRun := true, runStart := a, runSlots := 0, runClasses := 0 }
          scanArea stop rounds (wrappingAdd a 8)
            { search with
              runSlots := search.runSlots + 1
              runClasses := if classy then search.runClasses + 1 else search.runClasses }
        else if search.inRun then
          scanArea stop rounds (wrappingAdd a 8)
            { search with best := search.commit tunables, inRun := false }
        else scanArea stop rounds (wrappingAdd a 8) search
      else some search

def scanAreas (rounds : ℕ) : List (ℕ × ℕ) → Option Best → Option (Option Best)
  | [], best => some best
  | (start, stop) :: areas, best => do
      let search ← scanArea tunables regions memory stop rounds start ⟨0, 0, 0, false, best⟩
      scanAreas rounds areas (search.commit tunables)

/-- `find_class_table` over the regions it has captured. -/
def findClassTable (rounds : ℕ) : Option (Option (ℕ × ℕ)) := do
  let merged := (regions.take tunables.maxScanRegions).foldl mergeRegion []
  let best ← scanAreas tunables regions memory rounds merged none
  return best.map fun best => (best.base, best.slots)

end Search

/-! ## The runs of the memory -/

/-- Eight bytes of an area. -/
structure Slot where
  address : ℕ
  value : ℕ
  deriving DecidableEq

section Runs

variable (tunables : Tunables) (regions : List Region) (memory : Memory UInt8)

def slotsFrom : ℕ → ℕ → List Slot
  | 0, _ => []
  | count + 1, a => ⟨a, leValue (load memory a 8)⟩ :: slotsFrom count (a + 8)

/-- The consecutive slots of an area. -/
def areaSlots (area : ℕ × ℕ) : List Slot := slotsFrom memory ((area.2 - area.1) / 8) area.1

/-- The scanned regions, with adjacent ones coalesced. -/
def areas : List (ℕ × ℕ) :=
  coalesced ((regions.take tunables.maxScanRegions).map fun region =>
    (region.start, region.stop))

def isClass (slot : Slot) : Bool :=
  slot.value ≠ 0 ∧ (classFields regions memory slot.value).isSome = true

/-- Null, or a pointer to a class. -/
def isEntry (slot : Slot) : Bool := slot.value = 0 ∨ isClass regions memory slot = true

/-- A maximal block of consecutive slots of one area that are null or point to a class. -/
def ClassRun (run : List Slot) : Prop :=
  ∃ area ∈ areas tunables regions,
    IsRun (isEntry regions memory) (areaSlots memory area) run

def classCount (run : List Slot) : ℕ := run.countP (isClass regions memory)

def runBase (run : List Slot) : ℕ := (run.head?.map Slot.address).getD 0

end Runs

/-! ## The loop closes the runs -/

section Loop

variable (tunables : Tunables) (regions : List Region) (memory : Memory UInt8)

/-- What the search keeps of a run. -/
def summary (run : List Slot) : Best :=
  ⟨runBase run, run.length, classCount regions memory run⟩

/-- The variables of the loop describe the run that is open. -/
structure Search.Tracks (search : Search) (current : List Slot) : Prop where
  inRun : search.inRun = true ↔ current ≠ []
  counters : current ≠ [] →
    (⟨search.runStart, search.runSlots, search.runClasses⟩ : Best) =
      summary regions memory current

variable {tunables regions memory} {search : Search} {current : List Slot}

theorem Search.Tracks.commit_eq (htracks : search.Tracks regions memory current) :
    search.commit tunables =
      ((closed current).map (summary regions memory)).foldl
        (improve Best.classCount tunables.minClasses) search.best := by
  by_cases hopen : current = []
  · rw [hopen]
    exact if_neg fun hcommit => htracks.inRun.mp hcommit.1 hopen
  · have hin := htracks.inRun.mpr hopen
    rw [closed_of_ne_nil hopen, List.map_cons, List.map_nil, List.foldl_cons, List.foldl_nil,
      ← htracks.counters hopen]
    simp only [Search.commit, improve, hin, true_and]

/-- The variables after a slot that belongs to a run. -/
def Search.push (search : Search) (slot : Slot) (classy : Bool) : Search :=
  let search := if search.inRun then search
    else { search with
      inRun := true, runStart := slot.address, runSlots := 0, runClasses := 0 }
  { search with
    runSlots := search.runSlots + 1
    runClasses := if classy then search.runClasses + 1 else search.runClasses }

/-- The next slot opens a run or lengthens the open one. -/
theorem Search.Tracks.push (htracks : search.Tracks regions memory current) (slot : Slot) :
    Search.Tracks regions memory (search.push slot (isClass regions memory slot))
      (current ++ [slot]) := by
  by_cases hopen : current = []
  · have hout : search.inRun = false :=
      Bool.eq_false_of_not_eq_true fun hin => htracks.inRun.mp hin hopen
    constructor
    · simp [Search.push, hout]
    · intro _
      rw [hopen]
      cases hclass : isClass regions memory slot <;>
        simp [Search.push, hout, summary, runBase, classCount, hclass]
  · have hin := htracks.inRun.mpr hopen
    have hcounters := htracks.counters hopen
    simp only [summary, Best.mk.injEq] at hcounters
    obtain ⟨hstart, hslots, hclasses⟩ := hcounters
    constructor
    · simp [Search.push, hin]
    · intro _
      have hsame : runBase (current ++ [slot]) = runBase current := by
        rw [runBase, runBase, List.head?_append_of_ne_nil _ hopen]
      simp only [Search.push, hin, if_true, summary, hsame, List.length_append,
        List.length_singleton, hstart, hslots, hclasses]
      cases hclass : isClass regions memory slot <;>
        simp [classCount, List.countP_append, hclass]

theorem Search.tracks_nil (hout : search.inRun = false) :
    Search.Tracks regions memory search [] :=
  ⟨by simp [hout], fun hopen => absurd rfl hopen⟩

theorem Search.push_best (slot : Slot) (classy : Bool) :
    (search.push slot classy).best = search.best := by
  simp only [Search.push]
  split <;> rfl

/-- One round of the loop, by what the slot is. -/
theorem scanArea_round {stop rounds a : ℕ} {slot : Slot}
    (hslot : slot = ⟨a, leValue (load memory a 8)⟩) (hstop : wrappingAdd a 8 ≤ stop) :
    scanArea tunables regions memory stop (rounds + 1) a search =
      scanArea tunables regions memory stop rounds (wrappingAdd a 8)
        (if isEntry regions memory slot = true then
          search.push slot (isClass regions memory slot)
        else if search.inRun then
          { search with best := search.commit tunables, inRun := false }
        else search) := by
  subst hslot
  rw [scanArea, if_pos hstop]
  by_cases hclass : isClass regions memory ⟨a, leValue (load memory a 8)⟩ = true
  · have hclassy := of_decide_eq_true hclass
    have hentry : isEntry regions memory ⟨a, leValue (load memory a 8)⟩ = true :=
      decide_eq_true (Or.inr hclass)
    simp only [hentry, if_true, hclass, Search.push, if_pos (Or.inr hclassy), if_pos hclassy]
  · have hclassy := fun hyes => hclass (decide_eq_true hyes)
    by_cases hnull : leValue (load memory a 8) = 0
    · have hentry : isEntry regions memory ⟨a, leValue (load memory a 8)⟩ = true :=
        decide_eq_true (Or.inl hnull)
      simp only [hentry, if_true, hclass, Search.push, if_pos (Or.inl hnull), if_neg hclassy]
      rfl
    · have hentry : ¬ isEntry regions memory ⟨a, leValue (load memory a 8)⟩ = true :=
        fun hyes => (of_decide_eq_true hyes).elim hnull hclass
      have hneither := not_or.mpr ⟨hnull, hclassy⟩
      simp only [if_neg hentry, if_neg hneither]
      split <;> rfl

/-- The loop over one area feeds its runs to the choice of the best. -/
theorem scanArea_eq {stop count : ℕ} (hbelow : stop + 8 < 2 ^ 64) {rounds a : ℕ}
    (hrounds : count < rounds) (hstart : a + 8 < 2 ^ 64)
    (hfits : a + 8 * count ≤ stop ∨ count = 0) (hfull : stop < a + 8 * (count + 1))
    (htracks : search.Tracks regions memory current) :
    ∃ last, scanArea tunables regions memory stop rounds a search = some last ∧
      last.commit tunables =
        ((runsFrom (isEntry regions memory) current (slotsFrom memory count a)).map
          (summary regions memory)).foldl
            (improve Best.classCount tunables.minClasses) search.best := by
  have hnext : wrappingAdd a 8 = a + 8 := by
    rw [wrappingAdd, Nat.mod_eq_of_lt hstart]
  induction count generalizing rounds a search current with
  | zero =>
      obtain ⟨rounds, rfl⟩ := Nat.exists_eq_succ_of_ne_zero (Nat.ne_of_gt hrounds)
      have hpast : ¬ wrappingAdd a 8 ≤ stop := by omega
      refine ⟨search, ?_, htracks.commit_eq⟩
      rw [scanArea, if_neg hpast]
  | succ count ih =>
      obtain ⟨rounds, rfl⟩ := Nat.exists_eq_succ_of_ne_zero
        (Nat.ne_of_gt (Nat.zero_lt_of_lt hrounds))
      have hlater : wrappingAdd (a + 8) 8 = a + 8 + 8 := by
        rw [wrappingAdd, Nat.mod_eq_of_lt (by omega)]
      have hrest := fun {search : Search} {current : List Slot} =>
        @ih search current rounds (a + 8) (by omega) (by omega) (by omega) (by omega)
      rw [scanArea_round rfl (by omega), hnext, slotsFrom, runsFrom]
      by_cases hentry : isEntry regions memory ⟨a, leValue (load memory a 8)⟩ = true
      · have hpush := hrest (htracks.push ⟨a, leValue (load memory a 8)⟩) hlater
        rwa [if_pos hentry, if_pos hentry, ← search.push_best]
      · rw [if_neg hentry, if_neg hentry, List.map_append, List.foldl_append,
          ← htracks.commit_eq]
        by_cases hin : search.inRun = true
        · rw [if_pos hin]
          exact hrest (Search.tracks_nil rfl) hlater
        · have hsame : search.commit tunables = search.best := if_neg fun hcommit => hin hcommit.1
          rw [if_neg hin, hsame]
          exact hrest (Search.tracks_nil (Bool.eq_false_of_not_eq_true hin)) hlater

end Loop

/-! ## All areas -/

/-- Regions as a capture leaves them.  No memory of a process lies at the very end of the
address space. -/
structure Scannable (regions : List Region) : Prop where
  separate : Separate regions
  below : ∀ region ∈ regions, region.stop + 8 < 2 ^ 64

/-- The capture of a process whose memory ends before the last eight bytes. -/
theorem capture_scannable {layout : Layout} (htop : layout.top + 8 < 2 ^ 64)
    (maxRegions : ℕ) : Scannable (capture layout.virtualQuery maxRegions) := by
  obtain ⟨limit, hfound⟩ := capture_found layout maxRegions
  refine ⟨hfound.separate, fun region hregion => ?_⟩
  obtain ⟨tile, htile, -, rfl⟩ := hfound.tiles region hregion
  have hstop := (layout.inside tile.start tile htile).2.2
  dsimp only
  omega

section Areas

variable (tunables : Tunables) (regions : List Region) (memory : Memory UInt8)

/-- The runs of all areas in the order in which the search closes them. -/
def classRuns : List (List Slot) :=
  (areas tunables regions).flatMap fun area =>
    runs (isEntry regions memory) (areaSlots memory area)

variable {tunables regions memory}

theorem mem_classRuns {run : List Slot} :
    run ∈ classRuns tunables regions memory ↔ ClassRun tunables regions memory run := by
  simp only [classRuns, List.mem_flatMap, mem_runs, ClassRun]

theorem foldl_mergeRegion :
    (regions.take tunables.maxScanRegions).foldl mergeRegion [] = areas tunables regions := by
  rw [areas, ← foldl_extend, List.foldl_map]
  rfl

theorem Scannable.area_below (hregions : Scannable regions) {area : ℕ × ℕ}
    (harea : area ∈ areas tunables regions) : area.1 + 8 < 2 ^ 64 ∧ area.2 + 8 < 2 ^ 64 := by
  obtain ⟨first, hfirst, last, hlast, rfl⟩ := mem_coalesced harea
  obtain ⟨start, hstart, rfl⟩ := List.mem_map.mp hfirst
  obtain ⟨stop, hstop, rfl⟩ := List.mem_map.mp hlast
  have hmem := List.mem_of_mem_take hstart
  have hnonempty := hregions.separate.nonempty start hmem
  have hlow := hregions.below start hmem
  exact ⟨by omega, hregions.below stop (List.mem_of_mem_take hstop)⟩

theorem scanAreas_eq {rounds : ℕ} (hrounds : 2 ^ 64 ≤ rounds) {areas : List (ℕ × ℕ)}
    (hbelow : ∀ area ∈ areas, area.1 + 8 < 2 ^ 64 ∧ area.2 + 8 < 2 ^ 64)
    (best : Option Best) :
    scanAreas tunables regions memory rounds areas best =
      some (((areas.flatMap fun area =>
        runs (isEntry regions memory) (areaSlots memory area)).map
          (summary regions memory)).foldl
            (improve Best.classCount tunables.minClasses) best) := by
  induction areas generalizing best with
  | nil => rfl
  | cons area areas ih =>
      obtain ⟨start, stop⟩ := area
      obtain ⟨hstart, hstop⟩ := hbelow _ List.mem_cons_self
      have hcount : (stop - start) / 8 < rounds := by omega
      obtain ⟨last, hscan, hcommit⟩ := @scanArea_eq tunables regions memory
        ⟨0, 0, 0, false, best⟩ [] stop ((stop - start) / 8) hstop rounds start hcount hstart
        (by omega) (by omega) (Search.tracks_nil rfl)
      rw [scanAreas, hscan, Option.bind_eq_bind, Option.bind_some, hcommit,
        ih fun area harea => hbelow area (List.mem_cons_of_mem _ harea)]
      rw [List.flatMap_cons, List.map_append, List.foldl_append]
      rfl

theorem findClassTable_eq (hregions : Scannable regions) {rounds : ℕ}
    (hrounds : 2 ^ 64 ≤ rounds) :
    findClassTable tunables regions memory rounds =
      some ((((classRuns tunables regions memory).map (summary regions memory)).foldl
        (improve Best.classCount tunables.minClasses) none).map
          fun best => (best.base, best.slots)) := by
  rw [findClassTable, foldl_mergeRegion,
    scanAreas_eq hrounds fun area harea => hregions.area_below harea]
  rfl

/-! ## The order of the runs -/

theorem mem_slotsFrom {count a : ℕ} {slot : Slot} (hslot : slot ∈ slotsFrom memory count a) :
    a ≤ slot.address ∧ slot.address + 8 ≤ a + 8 * count := by
  induction count generalizing a with
  | zero => cases hslot
  | succ count ih =>
      rcases List.mem_cons.mp hslot with rfl | hlater
      · exact ⟨Nat.le_refl a, by dsimp only; omega⟩
      · obtain ⟨hlow, hhigh⟩ := ih hlater
        exact ⟨by omega, by omega⟩

theorem slotsFrom_ascending (count a : ℕ) :
    (slotsFrom memory count a).Pairwise fun left right => left.address < right.address := by
  induction count generalizing a with
  | zero => exact List.Pairwise.nil
  | succ count ih =>
      refine List.pairwise_cons.mpr ⟨fun slot hslot => ?_, ih (a + 8)⟩
      have hlow := (mem_slotsFrom hslot).1
      dsimp only
      omega

/-- The slots of an area lie inside it. -/
theorem mem_areaSlots {area : ℕ × ℕ} {slot : Slot} (hslot : slot ∈ areaSlots memory area) :
    area.1 ≤ slot.address ∧ slot.address < area.2 := by
  obtain ⟨hlow, hhigh⟩ := mem_slotsFrom hslot
  exact ⟨hlow, by omega⟩

theorem Scannable.slots_ascending (hregions : Scannable regions) :
    ((areas tunables regions).flatMap (areaSlots memory)).Pairwise
      fun left right => left.address < right.address := by
  have hareas : (areas tunables regions).Pairwise fun left right => left.2 ≤ right.1 := by
    apply coalesced_ascending
    rw [List.pairwise_map]
    exact hregions.separate.ascending.sublist (List.take_sublist _ _)
  rw [List.pairwise_flatMap]
  refine ⟨fun area _ => slotsFrom_ascending _ _, hareas.imp fun hbefore => ?_⟩
  intro left hleft right hright
  have hstop := (mem_areaSlots hleft).2
  have hstart := (mem_areaSlots hright).1
  omega

theorem runBase_mem {run : List Slot} (hrun : run ≠ []) :
    ∃ slot ∈ run, runBase run = slot.address := by
  refine ⟨run.head hrun, List.head_mem hrun, ?_⟩
  rw [runBase, List.head?_eq_some_head hrun]
  rfl

/-- The search closes the runs in the order of their addresses. -/
theorem Scannable.runs_ascending (hregions : Scannable regions) :
    (classRuns tunables regions memory).Pairwise fun left right =>
      runBase left < runBase right := by
  have hflat : (classRuns tunables regions memory).flatten.Pairwise
      fun left right => left.address < right.address := by
    have hruns : (classRuns tunables regions memory).flatten =
        ((areas tunables regions).flatMap (areaSlots memory)).filter
          (isEntry regions memory) := by
      rw [classRuns, List.flatten_eq_flatMap, List.flatMap_assoc, List.filter_flatMap]
      simp only [← List.flatten_eq_flatMap, flatten_runs]
    rw [hruns]
    exact hregions.slots_ascending.filter _
  refine (List.pairwise_flatten.mp hflat).2.imp_of_mem ?_
  intro left right hleft hright hbefore
  have hnonempty : ∀ run ∈ classRuns tunables regions memory, run ≠ [] := by
    intro run hrun
    obtain ⟨area, -, before, after, -, hsome, -⟩ := mem_classRuns.mp hrun
    exact hsome
  obtain ⟨first, hfirst, hbase⟩ := runBase_mem (hnonempty left hleft)
  obtain ⟨second, hsecond, hother⟩ := runBase_mem (hnonempty right hright)
  rw [hbase, hother]
  exact hbefore first hfirst second hsecond

end Areas

/-- The search ends with the first of the densest runs, if one is dense enough. -/
theorem findClassTable_densest (tunables : Tunables) (regions : List Region)
    (memory : Memory UInt8) (hregions : Scannable regions) (rounds : ℕ)
    (hrounds : 2 ^ 64 ≤ rounds) :
    ∃ answer, findClassTable tunables regions memory rounds = some answer ∧
      (∀ start slots, answer = some (start, slots) ↔
        ∃ run, ClassRun tunables regions memory run ∧
          start = runBase run ∧ slots = run.length ∧
          tunables.minClasses ≤ classCount regions memory run ∧
          ∀ other, ClassRun tunables regions memory other →
            classCount regions memory other < classCount regions memory run ∨
              classCount regions memory other = classCount regions memory run ∧
                runBase run ≤ runBase other) ∧
      (answer = none ↔ ∀ run, ClassRun tunables regions memory run →
        classCount regions memory run < tunables.minClasses) := by
  have hkeys : ((classRuns tunables regions memory).map (summary regions memory)).Pairwise
      fun left right => left.base < right.base :=
    List.pairwise_map.mpr hregions.runs_ascending
  refine ⟨_, findClassTable_eq hregions hrounds, fun start slots => ?_, ?_⟩
  · rw [Option.map_eq_some_iff]
    constructor
    · rintro ⟨best, hbest, hanswer⟩
      have hleads := (foldl_improve_eq_some_iff hkeys).mp hbest
      obtain ⟨run, hrun, rfl⟩ := List.mem_map.mp hleads.mem
      cases hanswer
      refine ⟨run, mem_classRuns.mp hrun, rfl, rfl, hleads.large, fun other hother => ?_⟩
      exact hleads.first _ (List.mem_map_of_mem (mem_classRuns.mpr hother))
    · rintro ⟨run, hrun, rfl, rfl, hlarge, hfirst⟩
      refine ⟨summary regions memory run, (foldl_improve_eq_some_iff hkeys).mpr ?_, rfl⟩
      refine ⟨List.mem_map_of_mem (mem_classRuns.mpr hrun), hlarge, ?_⟩
      rw [List.forall_mem_map]
      exact fun other hother => hfirst other (mem_classRuns.mp hother)
  · simp only [Option.map_eq_none_iff, foldl_improve_eq_none_iff, List.forall_mem_map,
      mem_classRuns]
    rfl

/-- Two adjacent pages: a table of one class in the first one, the class in the second. -/
def sampleRegions : List Region :=
  [⟨0x1000, 0x2000, pageReadwrite⟩, ⟨0x2000, 0x3000, pageReadonly⟩]

def sampleBytes : List (ℕ × UInt8) :=
  [(0x1001, 0x20), (0x2000, 0x20), (0x2001, 0x20), (0x2010, 0x50), (0x2011, 0x20),
    (0x2020, 0x40), (0x2021, 0x20), (0x2040, 0x61), (0x2041, 0x2E), (0x2042, 0x64),
    (0x2043, 0x6C), (0x2044, 0x6C), (0x2050, 0x41)]

def sampleMemory : Memory UInt8 := fun address => (sampleBytes.lookup address).getD 0

def sampleTunables : Tunables := ⟨64, 1⟩

theorem sampleRegions_scannable : Scannable sampleRegions where
  separate := ⟨by decide, by decide⟩
  below := by decide

theorem findClassTable_densest_sample :
    ∃ answer, findClassTable sampleTunables sampleRegions sampleMemory (2 ^ 64) = some answer ∧
      (∀ start slots, answer = some (start, slots) ↔
        ∃ run, ClassRun sampleTunables sampleRegions sampleMemory run ∧
          start = runBase run ∧ slots = run.length ∧
          1 ≤ classCount sampleRegions sampleMemory run ∧
          ∀ other, ClassRun sampleTunables sampleRegions sampleMemory other →
            classCount sampleRegions sampleMemory other <
                classCount sampleRegions sampleMemory run ∨
              classCount sampleRegions sampleMemory other =
                  classCount sampleRegions sampleMemory run ∧
                runBase run ≤ runBase other) ∧
      (answer = none ↔ ∀ run, ClassRun sampleTunables sampleRegions sampleMemory run →
        classCount sampleRegions sampleMemory run < 1) :=
  findClassTable_densest sampleTunables sampleRegions sampleMemory sampleRegions_scannable
    (2 ^ 64) (Nat.le_refl _)

end FrogAgent.ClassTable
