import FrogAgent.External.RegionMap
import FrogAgent.Internals.Calibration

/-!
# Enumerating the instances of a class

`instances_of` takes from an iterator that asks its backend for candidates and skips those
that do not validate.  The backend scans the cached regions once for the bytes of the class
pointer, keeps the hits and streams them by an index.
-/

namespace FrogAgent.InstanceIter

open FrogAgent.ByteMemory
open FrogAgent.Calibration
open FrogAgent.LittleEndian
open FrogAgent.RegionMap
open FrogAgent.Scan
open FrogAgent.Signature
open FrogAgent.Slice
open FrogAgent.VirtualMemory

/-! ## The iterator over any backend -/

section Iterator

variable {State : Type}
variable (nextMatch : State → BitVec 64 → Checked (State × Option (ℕ × BitVec 64)))
variable (validate : ℕ → Bool)

/-- `InstanceIter::next`: the first candidate that validates, and the cursor behind it.
The cursor grows in every round, so the loop ends whatever the backend does. -/
def next (state : State) (cursor : BitVec 64) :
    Checked (State × Option (ℕ × BitVec 64)) := do
  let (state, found) ← nextMatch state cursor
  match found with
  | none => pure (state, none)
  | some (address, after) =>
      -- The liveness guard.
      if after ≤ cursor then pure (state, none)
      else if validate address then pure (state, some (address, after))
      else next state after
termination_by 2 ^ 64 - cursor.toNat
decreasing_by
  rename_i hstuck
  have hgrows := BitVec.not_le.mp hstuck
  have hlimit := after.isLt
  have hlt := BitVec.lt_def.mp hgrows
  omega

/-- `iter.take(max).collect()` -/
def collectTake : ℕ → State → BitVec 64 → Checked (State × List ℕ)
  | 0, state, _ => pure (state, [])
  | max + 1, state, cursor => do
      let (state, found) ← next nextMatch validate state cursor
      match found with
      | none => pure (state, [])
      | some (address, after) =>
          let (state, rest) ← collectTake max state after
          pure (state, address :: rest)

/-- The backend answers from a list of hits: the one at the cursor, and the cursor behind
it.  `good` holds of the states it can be in. -/
def Streams (good : State → Prop) (hits : List ℕ) : Prop :=
  ∀ state cursor, good state → ∃ after, good after ∧
    Returns (nextMatch state cursor)
      (some (after, hits[cursor.toNat]?.map fun hit => (hit, cursor + 1)))

variable {nextMatch validate} {good : State → Prop} {hits : List ℕ}

theorem drop_toNat_succ {cursor : BitVec 64} (hlength : hits.length < 2 ^ 64) {hit : ℕ}
    (hhit : hits[cursor.toNat]? = some hit) :
    (cursor + 1).toNat = cursor.toNat + 1 ∧
      hits.drop cursor.toNat = hit :: hits.drop (cursor + 1).toNat := by
  obtain ⟨hinside, rfl⟩ := List.getElem?_eq_some_iff.mp hhit
  have hsucc : (cursor + 1).toNat = cursor.toNat + 1 := by
    have hone : (1 : BitVec 64).toNat = 1 := rfl
    rw [BitVec.toNat_add, hone]
    omega
  rw [hsucc]
  exact ⟨rfl, List.drop_eq_getElem_cons hinside⟩

/-- A candidate that does not validate is skipped. -/
theorem next_skip {state after : State} {cursor rest : BitVec 64} {address : ℕ}
    {answer : Option (State × Option (ℕ × BitVec 64))}
    (hmatch : Returns (nextMatch state cursor) (some (after, some (address, rest))))
    (hgrows : ¬ rest ≤ cursor) (hinvalid : ¬ validate address = true)
    (hrest : Returns (next nextMatch validate after rest) answer) :
    Returns (next nextMatch validate state cursor) answer := by
  rw [next]
  apply hmatch.step
  simp only [if_neg hgrows, if_neg hinvalid]
  exact hrest

/-- One step takes the valid hits from the cursor on apart. -/
theorem next_of_streams (hstreams : Streams nextMatch good hits)
    (hlength : hits.length < 2 ^ 64) {state : State} (hgood : good state)
    (cursor : BitVec 64) :
    ∃ after, good after ∧
      ((Returns (next nextMatch validate state cursor) (some (after, none)) ∧
          (hits.drop cursor.toNat).filter validate = []) ∨
        ∃ (address : ℕ) (rest : BitVec 64),
          Returns (next nextMatch validate state cursor)
            (some (after, some (address, rest))) ∧
          (hits.drop cursor.toNat).filter validate =
            address :: (hits.drop rest.toNat).filter validate) := by
  induction hcount : hits.length - cursor.toNat generalizing state cursor with
  | zero =>
      have hpast : hits.length ≤ cursor.toNat := Nat.sub_eq_zero_iff_le.mp hcount
      obtain ⟨after, hafter, hmatch⟩ := hstreams state cursor hgood
      rw [List.getElem?_eq_none hpast, Option.map_none] at hmatch
      refine ⟨after, hafter, Or.inl ⟨?_, ?_⟩⟩
      · rw [next]
        exact hmatch.step (Returns.pure _)
      · rw [List.drop_of_length_le hpast, List.filter_nil]
  | succ count ih =>
      have hinside : cursor.toNat < hits.length := by omega
      have hhit := List.getElem?_eq_getElem hinside
      obtain ⟨hsucc, hdrop⟩ := drop_toNat_succ hlength hhit
      obtain ⟨after, hafter, hmatch⟩ := hstreams state cursor hgood
      rw [hhit, Option.map_some] at hmatch
      have hgrows : ¬ cursor + 1 ≤ cursor := by
        rw [BitVec.le_def, hsucc]
        omega
      by_cases hvalid : validate hits[cursor.toNat] = true
      · refine ⟨after, hafter, Or.inr ⟨hits[cursor.toNat], cursor + 1, ?_, ?_⟩⟩
        · rw [next]
          apply hmatch.step
          simp only [if_neg hgrows, if_pos hvalid]
          exact Returns.pure _
        · rw [hdrop, List.filter_cons_of_pos hvalid]
      · obtain ⟨later, hlater, hrest⟩ := ih hafter (cursor + 1) (by omega)
        refine ⟨later, hlater, ?_⟩
        rw [hdrop, List.filter_cons_of_neg hvalid]
        rcases hrest with ⟨hnone, hempty⟩ | ⟨address, rest, hsome, hfilter⟩
        · exact Or.inl ⟨next_skip hmatch hgrows hvalid hnone, hempty⟩
        · exact Or.inr ⟨address, rest, next_skip hmatch hgrows hvalid hsome, hfilter⟩

/-- Taking from the iterator gives the first valid hits. -/
theorem collectTake_of_streams (hstreams : Streams nextMatch good hits)
    (hlength : hits.length < 2 ^ 64) (max : ℕ) {state : State} (hgood : good state)
    (cursor : BitVec 64) :
    ∃ after, good after ∧
      Returns (collectTake nextMatch validate max state cursor)
        (some (after, ((hits.drop cursor.toNat).filter validate).take max)) := by
  induction max generalizing state cursor with
  | zero => exact ⟨state, hgood, Returns.pure _⟩
  | succ max ih =>
      obtain ⟨after, hafter, hnext⟩ := next_of_streams hstreams hlength hgood cursor
      rcases hnext with ⟨hnone, hempty⟩ | ⟨address, rest, hsome, hfilter⟩
      · refine ⟨after, hafter, ?_⟩
        rw [collectTake, hempty]
        exact hnone.step (Returns.pure _)
      · obtain ⟨later, hlater, hrest⟩ := ih hafter rest
        refine ⟨later, hlater, ?_⟩
        rw [collectTake, hfilter, List.take_succ_cons]
        exact hsome.step (hrest.step (Returns.pure _))

end Iterator

/-! ## The scan backend -/

/-- The agent's view of an unchanging process: what it reads, and the cached regions, which
are in order and lie within `usize`. -/
structure Process where
  image : Image
  regions : List Region
  virtualQuery : ℕ → Option MemoryBasicInformation
  separate : Separate regions
  bounded : ∀ region ∈ regions, region.stop < 2 ^ 64
  validateRead_eq : image.validateRead = validateRead regions virtualQuery

def scanMaxInstances : ℕ := 10000

/-- `SCAN_CACHE`: the hits of each class that was asked for. -/
abbrev ScanCache := ℕ → Option (List ℕ)

/-- `cache.entry(target_klass).or_insert_with(..)` -/
def cachedHits (process : Process) (cache : ScanCache) (klass : ℕ) :
    Checked (ScanCache × List ℕ) :=
  match cache klass with
  | some hits => pure (cache, hits)
  | none => do
      let hits ← aobScan process.image.memory process.regions (leBytes 8 klass)
        scanMaxInstances
      pure (Function.update cache klass (some hits), hits)

def scanNextMatch (process : Process) (klass : ℕ) (cache : ScanCache) (cursor : BitVec 64) :
    Checked (ScanCache × Option (ℕ × BitVec 64)) := do
  let (cache, hits) ← cachedHits process cache klass
  if hits.length ≤ cursor.toNat then pure (cache, none)
  else
    let hit ← index hits cursor.toNat
    pure (cache, some (hit, cursor + 1))

/-- An aligned address that holds the class, which looks like a class itself. -/
def scanValidate (image : Image) (klass address : ℕ) : Bool :=
  if address &&& 7 ≠ 0 then false
  else
    match image.cacheRead 8 address with
    | none | some 0 => false
    | some readKlass =>
        if readKlass ≠ klass then false else image.isKlassShape readKlass

def instancesOf (process : Process) (cache : ScanCache) (klass max : ℕ) :
    Checked (ScanCache × List ℕ) :=
  collectTake (scanNextMatch process klass) (scanValidate process.image klass) max cache 0

/-- The answers to one call after another. -/
def answers (process : Process) : ScanCache → List (BitVec 64 × ℕ) → Checked (List (List ℕ))
  | _, [] => pure []
  | cache, (klass, max) :: calls => do
      let (cache, answer) ← instancesOf process cache klass.toNat max
      let rest ← answers process cache calls
      pure (answer :: rest)

/-- Every address at which the bytes of the class pointer stand, wholly inside a cached
region. -/
def rawHits (process : Process) (klass : ℕ) : List ℕ :=
  naiveSearch process.image.memory process.regions (leBytes 8 klass)

/-- A multiple of eight whose eight bytes lie in one cached region and hold the class. -/
def IsInstance (process : Process) (klass address : ℕ) : Prop :=
  8 ∣ address ∧
    (∃ region ∈ process.regions, region.start ≤ address ∧ address + 8 ≤ region.stop) ∧
    leValue (load process.image.memory address 8) = klass

/-! ## The hits -/

section Hits

variable {process : Process} {klass address : ℕ}

theorem leBytes_ne_nil (klass : ℕ) : leBytes 8 klass ≠ [] :=
  List.ne_nil_of_length_pos (by rw [length_leBytes]; decide)

theorem load_eq_leBytes_iff {memory : Memory UInt8} (hklass : klass < 2 ^ 64) :
    load memory address 8 = leBytes 8 klass ↔ leValue (load memory address 8) = klass := by
  constructor
  · intro hload
    rw [hload]
    exact leValue_leBytes hklass
  · intro hvalue
    have hbytes := leBytes_leValue (load memory address 8)
    rw [length_load, hvalue] at hbytes
    exact hbytes.symm

theorem mem_rawHits (hklass : klass < 2 ^ 64) :
    address ∈ rawHits process klass ↔
      (∃ region ∈ process.regions, region.start ≤ address ∧ address + 8 ≤ region.stop) ∧
        leValue (load process.image.memory address 8) = klass := by
  rw [rawHits, naiveSearch, List.mem_flatMap, ← load_eq_leBytes_iff hklass]
  simp only [mem_regionHits (leBytes_ne_nil klass), length_leBytes]
  constructor
  · rintro ⟨region, hregion, hstart, hstop, hload⟩
    exact ⟨⟨region, hregion, hstart, hstop⟩, hload⟩
  · rintro ⟨⟨region, hregion, hstart, hstop⟩, hload⟩
    exact ⟨region, hregion, hstart, hstop, hload⟩

/-- The regions are in order, so the hits are. -/
theorem rawHits_ascending (process : Process) (klass : ℕ) :
    (rawHits process klass).Pairwise (· < ·) := by
  rw [rawHits, naiveSearch, List.pairwise_flatMap]
  constructor
  · intro region _
    rw [regionHits, List.pairwise_map]
    refine (Occurrences.occurrences_pairwise _ _).imp ?_
    intro first second hlt
    omega
  · refine process.separate.ascending.imp ?_
    intro left right hbefore first hfirst second hsecond
    have hleft := ((mem_regionHits (leBytes_ne_nil klass)).mp hfirst).2.1
    have hright := ((mem_regionHits (leBytes_ne_nil klass)).mp hsecond).1
    rw [length_leBytes] at hleft
    omega

theorem cacheRead_of_mem (hklass : klass < 2 ^ 64) (hhit : address ∈ rawHits process klass) :
    process.image.cacheRead 8 address = some klass := by
  obtain ⟨⟨region, hregion, hstart, hstop⟩, hvalue⟩ := (mem_rawHits hklass).mp hhit
  have hlimit := process.bounded region hregion
  have hwrap : wrap address = address := Nat.mod_eq_of_lt (by omega)
  have hcached : inRegion process.regions address 8 = true :=
    (process.separate.inRegion_iff (by decide)).mpr
      ⟨region, hregion, hstart, hstop, by omega⟩
  have hvalid : process.image.validateRead address 8 = true := by
    rw [process.validateRead_eq, validateRead, if_pos hcached]
  rw [Image.cacheRead, readWord, hwrap, if_pos hvalid, hvalue]

/-- A hit validates exactly if it is aligned and the class looks like one. -/
theorem scanValidate_of_mem (hklass : klass < 2 ^ 64)
    (hhit : address ∈ rawHits process klass) :
    scanValidate process.image klass address = true ↔
      process.image.isKlassShape klass = true ∧ 8 ∣ address := by
  have halign : address &&& 7 = 0 ↔ 8 ∣ address := by
    rw [Nat.and_two_pow_sub_one_eq_mod address 3]
    exact Nat.dvd_iff_mod_eq_zero.symm
  have hread := cacheRead_of_mem hklass hhit
  unfold scanValidate
  by_cases haligned : 8 ∣ address
  case neg => simp [halign, haligned]
  case pos =>
    rw [if_neg (not_not.mpr (halign.mpr haligned)), hread]
    cases klass with
    | zero => simp [Image.isKlassShape]
    | succ klass => simp [haligned]

end Hits

/-! ## The cache -/

def storedHits (process : Process) (klass : ℕ) : List ℕ :=
  (rawHits process klass).take scanMaxInstances

/-- Every entry of the cache is what a scan finds. -/
def Consistent (process : Process) (cache : ScanCache) : Prop :=
  ∀ klass hits, cache klass = some hits → hits = storedHits process klass

section Cache

variable {process : Process} {cache : ScanCache}

theorem cachedHits_returns (hcache : Consistent process cache) (klass : ℕ) :
    ∃ after, Consistent process after ∧
      Returns (cachedHits process cache klass) (some (after, storedHits process klass)) := by
  unfold cachedHits
  cases hentry : cache klass with
  | some hits =>
      refine ⟨cache, hcache, ?_⟩
      rw [hcache klass hits hentry]
      exact Returns.pure _
  | none =>
      refine ⟨Function.update cache klass (some (storedHits process klass)), ?_, ?_⟩
      · intro other hits hother
        by_cases hsame : other = klass
        · subst hsame
          rw [Function.update_self, Option.some.injEq] at hother
          exact hother.symm
        · rw [Function.update_of_ne hsame] at hother
          exact hcache other hits hother
      · exact (aobScan_eq _ _ (leBytes_ne_nil klass) (by decide)).step (Returns.pure _)

theorem scanNextMatch_streams (process : Process) (klass : ℕ) :
    Streams (scanNextMatch process klass) (Consistent process) (storedHits process klass) := by
  intro cache cursor hcache
  obtain ⟨after, hafter, hhits⟩ := cachedHits_returns hcache klass
  refine ⟨after, hafter, ?_⟩
  apply hhits.step
  simp only
  split
  case isTrue hpast =>
    rw [List.getElem?_eq_none hpast, Option.map_none]
    exact Returns.pure _
  case isFalse hinside =>
    have hlt := Nat.not_le.mp hinside
    rw [List.getElem?_eq_getElem hlt, Option.map_some]
    exact (returns_index hlt).step (Returns.pure _)

/-- What `instances_of` answers, whatever was asked before. -/
def instances (process : Process) (klass max : ℕ) : List ℕ :=
  ((storedHits process klass).filter (scanValidate process.image klass)).take max

theorem instancesOf_returns (hcache : Consistent process cache) (klass max : ℕ) :
    ∃ after, Consistent process after ∧
      Returns (instancesOf process cache klass max)
        (some (after, instances process klass max)) := by
  have hlength : (storedHits process klass).length < 2 ^ 64 := by
    have hle := List.length_take_le scanMaxInstances (rawHits process klass)
    rw [storedHits]
    exact Nat.lt_of_le_of_lt hle (by decide)
  exact collectTake_of_streams (scanNextMatch_streams process klass) hlength max hcache 0

theorem answers_returns (hcache : Consistent process cache) (calls : List (BitVec 64 × ℕ)) :
    Returns (answers process cache calls)
      (some (calls.map fun call => instances process call.1.toNat call.2)) := by
  induction calls generalizing cache with
  | nil => exact Returns.pure _
  | cons call calls ih =>
      obtain ⟨after, hafter, hanswer⟩ :=
        instancesOf_returns hcache call.1.toNat call.2
      exact hanswer.step ((ih hafter).step (Returns.pure _))

end Cache

/-- However often and in whatever order classes are asked for, the answer for a class whose
pointer occurs less than ten thousand times is the first `max` of its instances in
ascending order, or nothing if it does not look like a class. -/
theorem instancesOf_exact (process : Process) :
    ∃ answer : BitVec 64 → ℕ → List ℕ,
      (∀ calls, Returns (answers process (fun _ => none) calls)
        (some (calls.map fun call => answer call.1 call.2))) ∧
      ∀ klass, (rawHits process klass.toNat).length < scanMaxInstances →
        ∃ all : List ℕ, all.Pairwise (· < ·) ∧
          (∀ address, address ∈ all ↔
            process.image.isKlassShape klass.toNat = true ∧
              IsInstance process klass.toNat address) ∧
          ∀ max, answer klass max = all.take max := by
  refine ⟨fun klass max => instances process klass.toNat max, ?_, ?_⟩
  · intro calls
    apply answers_returns
    intro klass hits hentry
    contradiction
  · intro klass hfew
    have hstored : storedHits process klass.toNat = rawHits process klass.toNat :=
      List.take_of_length_le (Nat.le_of_lt hfew)
    refine ⟨(rawHits process klass.toNat).filter
      (scanValidate process.image klass.toNat), ?_, ?_, ?_⟩
    · exact (rawHits_ascending process klass.toNat).filter _
    · intro address
      rw [List.mem_filter]
      constructor
      · rintro ⟨hhit, hvalid⟩
        obtain ⟨hshape, haligned⟩ := (scanValidate_of_mem klass.isLt hhit).mp hvalid
        exact ⟨hshape, haligned, (mem_rawHits klass.isLt).mp hhit⟩
      · rintro ⟨hshape, haligned, hholds⟩
        have hhit := (mem_rawHits klass.isLt).mpr hholds
        exact ⟨hhit, (scanValidate_of_mem klass.isLt hhit).mpr ⟨hshape, haligned⟩⟩
    · intro max
      change instances process klass.toNat max = _
      rw [instances, hstored]

/-- An object, its class and the image of the class, named `a.dll`. -/
def sampleBytes : List UInt8 :=
  leBytes 8 0x1008 ++ leBytes 8 0x1010 ++ leBytes 8 0x1018 ++
    [0x61, 0x2E, 0x64, 0x6C, 0x6C, 0, 0, 0]

def sampleRegion : Region := ⟨0x1000, 0x2000, pageReadwrite⟩

/-- One committed page. -/
def sampleQuery (addr : ℕ) : Option MemoryBasicInformation :=
  if 0x1000 ≤ addr ∧ addr < 0x2000 then some ⟨0x1000, 0x1000, memCommit, pageReadwrite⟩
  else none

def sampleImage : Image where
  memory := fun address => (sampleBytes[address - 0x1000]?).getD 0
  validateRead := fun addr len => decide (0x1000 ≤ addr ∧ addr + len ≤ 0x2000)
  inRegion := fun _ _ => false
  isExecutable := fun _ => false
  classGetName := fun _ => ""
  classGetNamespace := fun _ => ""
  tableBase := 0
  tableCount := 0

theorem candidate_sampleRegion (addr : ℕ) :
    RegionMap.candidate [sampleRegion] addr =
      if 0x1000 ≤ addr then some sampleRegion else none := by
  rcases Nat.lt_trichotomy 0x1000 addr with hlt | rfl | hgt
  · have hcompare : compare sampleRegion.start addr = .lt := Nat.compare_eq_lt.mpr hlt
    simp [RegionMap.candidate, BinarySearch.binarySearchBy, BinarySearch.narrow, hcompare,
      Nat.le_of_lt hlt]
  · have hcompare : compare sampleRegion.start 0x1000 = .eq := rfl
    simp [RegionMap.candidate, BinarySearch.binarySearchBy, BinarySearch.narrow, hcompare]
  · have hcompare : compare sampleRegion.start addr = .gt := Nat.compare_eq_gt.mpr hgt
    simp [RegionMap.candidate, BinarySearch.binarySearchBy, BinarySearch.narrow, hcompare,
      Nat.not_le.mpr hgt]

theorem inRegion_sampleRegion (addr len : ℕ) :
    inRegion [sampleRegion] addr len = sampleImage.validateRead addr len := by
  unfold inRegion checkedAdd
  rw [candidate_sampleRegion]
  by_cases hwrap : addr + len < 2 ^ 64
  · rw [if_pos hwrap]
    by_cases hstart : 0x1000 ≤ addr
    · simp [hstart, sampleRegion, sampleImage]
    · simp [hstart, sampleImage]
  · have hpast : ¬ addr + len ≤ 0x2000 := by omega
    rw [if_neg hwrap]
    simp [hpast, sampleImage]

/-- The live query accepts no more than the cached region. -/
theorem sampleQuery_cached {addr len : ℕ} (hlive : liveReadable sampleQuery addr len = true) :
    sampleImage.validateRead addr len = true := by
  unfold liveReadable checkedAdd sampleQuery at hlive
  by_cases hwrap : addr + len < 2 ^ 64
  · rw [if_pos hwrap] at hlive
    by_cases hinside : 0x1000 ≤ addr ∧ addr < 0x2000
    · rw [if_pos hinside] at hlive
      have hstop : addr + len ≤ saturatingAdd 0x1000 0x1000 :=
        of_decide_eq_true (Bool.and_eq_true_iff.mp hlive).2
      have hend : saturatingAdd 0x1000 0x1000 = 0x2000 := rfl
      exact decide_eq_true ⟨hinside.1, hend ▸ hstop⟩
    · rw [if_neg hinside] at hlive
      cases hlive
  · rw [if_neg hwrap] at hlive
    cases hlive

def sampleProcess : Process where
  image := sampleImage
  regions := [sampleRegion]
  virtualQuery := sampleQuery
  separate := by
    constructor
    · simp [sampleRegion]
    · exact List.pairwise_singleton _ _
  bounded := by simp [sampleRegion]
  validateRead_eq := by
    funext addr len
    rw [validateRead, inRegion_sampleRegion]
    split
    case isTrue hcached => exact hcached
    case isFalse hmissed =>
      rw [Bool.eq_false_of_not_eq_true hmissed]
      exact (Bool.eq_false_of_not_eq_true fun hlive =>
        hmissed (sampleQuery_cached hlive)).symm

theorem rawHits_sampleProcess (klass : ℕ) :
    (rawHits sampleProcess klass).length < scanMaxInstances := by
  have hregion : (regionHits sampleImage.memory (leBytes 8 klass) sampleRegion).length ≤
      0x1000 := by
    rw [regionHits, List.length_map]
    refine Nat.le_trans (List.length_filter_le _ _) ?_
    rw [List.length_range, length_load]
    decide
  change (regionHits sampleImage.memory (leBytes 8 klass) sampleRegion ++ []).length < _
  rw [List.append_nil]
  exact Nat.lt_of_le_of_lt hregion (by decide)

/-- The class of the object is asked for twice. -/
theorem instancesOf_exact_sampleProcess :
    ∃ all, 0x1000 ∈ all ∧
      Returns (answers sampleProcess (fun _ => none)
        [(0x1008, all.length), (0x1008, all.length)]) (some [all, all]) := by
  obtain ⟨answer, hanswers, hexact⟩ := instancesOf_exact sampleProcess
  obtain ⟨all, -, hmem, htake⟩ := hexact 0x1008 (rawHits_sampleProcess _)
  refine ⟨all, (hmem 0x1000).mpr ⟨by decide +kernel, ?_⟩, ?_⟩
  · exact ⟨by decide, ⟨sampleRegion, List.mem_singleton_self _, by decide, by decide⟩,
      by decide +kernel⟩
  · have hcalls := hanswers [(0x1008, all.length), (0x1008, all.length)]
    simpa only [List.map_cons, List.map_nil, htake, List.take_length] using hcalls

end FrogAgent.InstanceIter
