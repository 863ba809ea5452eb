import FrogAgent.Lib.ByteMemory
import FrogAgent.Lib.Occurrences
import FrogAgent.Lib.Slice

/-!
# Pattern scan

`aob_scan` of `external/scan.rs` walks the cached regions and looks for a byte pattern
in each of them, until it has as many hits as it was asked for.  Its slices are checked
ones, so that a scan that would leave a region is a panic of the model too.  The hits are
those of a naive search, region by region.
-/

namespace FrogAgent.Scan

open FrogAgent.ByteMemory
open FrogAgent.Occurrences
open FrogAgent.Slice

/-- A cached region `(start, end, protect)`. -/
structure Region where
  start : ℕ
  stop : ℕ
  protect : UInt32
  deriving DecidableEq

/-- The loop over one region, from `offset` on; `true` means that there are enough
hits.  Every round moves on, so as many rounds as bytes are enough. -/
def scanRegion (pattern : List UInt8) (first : UInt8) (start : ℕ) (bytes : List UInt8)
    (maxHits : ℕ) : ℕ → ℕ → List ℕ → Checked (List ℕ × Bool)
  | 0, _, hits => pure (hits, false)
  | rounds + 1, offset, hits =>
      if offset + pattern.length ≤ bytes.length then do
        let window ← range bytes offset (bytes.length - pattern.length + 1)
        match window.findIdx? (· = first) with
        | none => pure (hits, false)
        | some skip =>
            let place := offset + skip
            let candidate ← range bytes place (place + pattern.length)
            if candidate = pattern then
              let hits := hits ++ [start + place]
              if maxHits ≤ hits.length then pure (hits, true)
              else scanRegion pattern first start bytes maxHits rounds (place + 1) hits
            else scanRegion pattern first start bytes maxHits rounds (place + 1) hits
      else pure (hits, false)

def scanRegions (memory : Memory UInt8) (pattern : List UInt8) (first : UInt8)
    (maxHits : ℕ) : List Region → List ℕ → Checked (List ℕ)
  | [], hits => pure hits
  | region :: regions, hits => do
      let length := region.stop - region.start
      if length < pattern.length then
        scanRegions memory pattern first maxHits regions hits
      else
        let (hits, full) ← scanRegion pattern first region.start
          (load memory region.start length) maxHits (length + 1) 0 hits
        if full then pure hits
        else scanRegions memory pattern first maxHits regions hits

def aobScan (memory : Memory UInt8) (regions : List Region) (pattern : List UInt8)
    (maxHits : ℕ) : Checked (List ℕ) :=
  if pattern = [] ∨ maxHits = 0 then pure []
  else do
    let first ← index pattern 0
    scanRegions memory pattern first maxHits regions []

/-! ## One round -/

/-- The places from `offset` on where the pattern still fits. -/
def window (pattern bytes : List UInt8) (offset : ℕ) : List UInt8 :=
  (bytes.drop offset).take (bytes.length - pattern.length + 1 - offset)

/-- The bytes that are compared with the pattern. -/
def candidate (pattern bytes : List UInt8) (place : ℕ) : List UInt8 :=
  (bytes.drop place).take (place + pattern.length - place)

section Round

variable {pattern bytes : List UInt8} {first : UInt8} {start maxHits offset : ℕ}

theorem returns_window (hpattern : pattern ≠ [])
    (hroom : offset + pattern.length ≤ bytes.length) :
    Returns (range bytes offset (bytes.length - pattern.length + 1))
      (some (window pattern bytes offset)) := by
  have hlength : 0 < pattern.length := List.length_pos_iff.mpr hpattern
  have hstart : offset ≤ bytes.length - pattern.length + 1 :=
    Nat.le_succ_of_le (Nat.le_sub_of_add_le hroom)
  have hstop : bytes.length - pattern.length + 1 ≤ bytes.length := by omega
  exact returns_range hstart hstop

/-- The window ends where the pattern would no longer fit. -/
theorem place_fits (hroom : offset + pattern.length ≤ bytes.length) {skip : ℕ}
    (hfind : (window pattern bytes offset).findIdx? (· = first) = some skip) :
    offset + skip + pattern.length ≤ bytes.length := by
  have hlt := (List.findIdx?_eq_some_iff_findIdx_eq.mp hfind).1
  rw [window, List.length_take, List.length_drop] at hlt
  omega

/-- Nothing in the window starts like the pattern. -/
theorem scanRegion_none (hpattern : pattern ≠ [])
    (hroom : offset + pattern.length ≤ bytes.length)
    (hfind : (window pattern bytes offset).findIdx? (· = first) = none) (rounds : ℕ)
    (hits : List ℕ) :
    Returns (scanRegion pattern first start bytes maxHits (rounds + 1) offset hits)
      (some (hits, false)) := by
  rw [scanRegion, if_pos hroom]
  apply (returns_window hpattern hroom).step
  rw [hfind]
  exact Returns.pure _

/-- The first place in the window that starts like the pattern is compared, and the
scan goes on behind it. -/
theorem scanRegion_some (hpattern : pattern ≠ [])
    (hroom : offset + pattern.length ≤ bytes.length) {skip rounds : ℕ} {hits : List ℕ}
    (hfind : (window pattern bytes offset).findIdx? (· = first) = some skip)
    {answer : Option (List ℕ × Bool)}
    (hrest : Returns
      (if candidate pattern bytes (offset + skip) = pattern then
        if maxHits ≤ (hits ++ [start + (offset + skip)]).length then
          pure (hits ++ [start + (offset + skip)], true)
        else scanRegion pattern first start bytes maxHits rounds (offset + skip + 1)
          (hits ++ [start + (offset + skip)])
      else scanRegion pattern first start bytes maxHits rounds (offset + skip + 1) hits)
      answer) :
    Returns (scanRegion pattern first start bytes maxHits (rounds + 1) offset hits)
      answer := by
  rw [scanRegion, if_pos hroom]
  apply (returns_window hpattern hroom).step
  rw [hfind]
  exact (returns_range (Nat.le_add_right _ _) (place_fits hroom hfind)).step hrest

end Round

/-! ## The loop without a round limit -/

section Loop

variable (pattern bytes : List UInt8) (first : UInt8) (start maxHits : ℕ)

/-- The `while` loop over one region from `offset` on, as a relation: it is related to a
result when it ends with it. -/
inductive ScanLoop : ℕ → List ℕ → List ℕ × Bool → Prop
  | past {offset : ℕ} {hits : List ℕ} (hroom : ¬ offset + pattern.length ≤ bytes.length) :
      ScanLoop offset hits (hits, false)
  | absent {offset : ℕ} {hits : List ℕ} (hroom : offset + pattern.length ≤ bytes.length)
      (hfind : (window pattern bytes offset).findIdx? (· = first) = none) :
      ScanLoop offset hits (hits, false)
  | miss {offset skip : ℕ} {hits : List ℕ} {result : List ℕ × Bool}
      (hroom : offset + pattern.length ≤ bytes.length)
      (hfind : (window pattern bytes offset).findIdx? (· = first) = some skip)
      (hequal : candidate pattern bytes (offset + skip) ≠ pattern)
      (hrest : ScanLoop (offset + skip + 1) hits result) : ScanLoop offset hits result
  | full {offset skip : ℕ} {hits : List ℕ}
      (hroom : offset + pattern.length ≤ bytes.length)
      (hfind : (window pattern bytes offset).findIdx? (· = first) = some skip)
      (hequal : candidate pattern bytes (offset + skip) = pattern)
      (henough : maxHits ≤ (hits ++ [start + (offset + skip)]).length) :
      ScanLoop offset hits (hits ++ [start + (offset + skip)], true)
  | hit {offset skip : ℕ} {hits : List ℕ} {result : List ℕ × Bool}
      (hroom : offset + pattern.length ≤ bytes.length)
      (hfind : (window pattern bytes offset).findIdx? (· = first) = some skip)
      (hequal : candidate pattern bytes (offset + skip) = pattern)
      (hmore : ¬ maxHits ≤ (hits ++ [start + (offset + skip)]).length)
      (hrest : ScanLoop (offset + skip + 1) (hits ++ [start + (offset + skip)]) result) :
      ScanLoop offset hits result

end Loop

section Search

variable {pattern bytes : List UInt8} {first : UInt8} {start maxHits offset rounds : ℕ}
variable {hits : List ℕ}

/-- The round limit of the model is never what ends the loop. -/
theorem ScanLoop.returns {result : List ℕ × Bool} (hpattern : pattern ≠ [])
    (hloop : ScanLoop pattern bytes first start maxHits offset hits result)
    (hrounds : bytes.length < offset + rounds) :
    Returns (scanRegion pattern first start bytes maxHits rounds offset hits)
      (some result) := by
  induction hloop generalizing rounds with
  | past hroom =>
      cases rounds with
      | zero => exact Returns.pure _
      | succ rounds =>
          rw [scanRegion, if_neg hroom]
          exact Returns.pure _
  | absent hroom hfind =>
      cases rounds with
      | zero => exact Returns.pure _
      | succ rounds => exact scanRegion_none hpattern hroom hfind rounds _
  | miss hroom hfind hequal hrest ih =>
      cases rounds with
      | zero => omega
      | succ rounds =>
          apply scanRegion_some hpattern hroom hfind
          rw [if_neg hequal]
          exact ih (by omega)
  | full hroom hfind hequal henough =>
      cases rounds with
      | zero => omega
      | succ rounds =>
          apply scanRegion_some hpattern hroom hfind
          rw [if_pos hequal, if_pos henough]
          exact Returns.pure _
  | hit hroom hfind hequal hmore hrest ih =>
      cases rounds with
      | zero => omega
      | succ rounds =>
          apply scanRegion_some hpattern hroom hfind
          rw [if_pos hequal, if_neg hmore]
          exact ih (by omega)

theorem candidate_eq_iff {place : ℕ} :
    candidate pattern bytes place = pattern ↔ OccursAt pattern bytes place := by
  rw [candidate, Nat.add_sub_cancel_left, occursAt_iff_take]

theorem getElem?_window {skip : ℕ} (hskip : skip < (window pattern bytes offset).length) :
    (window pattern bytes offset)[skip]? = bytes[offset + skip]? := by
  rw [window, List.length_take] at hskip
  rw [window, List.getElem?_take_of_lt (by omega), List.getElem?_drop]

/-- An occurrence shows its first byte inside the window. -/
theorem mem_window_of_occursAt (hpattern : pattern ≠ [])
    (hfirst : pattern.head? = some first) {place : ℕ} (hoffset : offset ≤ place)
    (hoccurs : OccursAt pattern bytes place) :
    (window pattern bytes offset)[place - offset]? = some first := by
  have hfits := hoccurs.fits hpattern
  have hlength : 0 < pattern.length := List.length_pos_iff.mpr hpattern
  rw [getElem?_window, Nat.add_sub_cancel' hoffset]
  · exact hoccurs.head hfirst
  · rw [window, List.length_take, List.length_drop]
    omega

theorem occurrencesFrom_absent (hpattern : pattern ≠ [])
    (hfirst : pattern.head? = some first)
    (hfind : (window pattern bytes offset).findIdx? (· = first) = none) :
    occurrencesFrom pattern bytes offset = [] := by
  apply occurrencesFrom_eq_nil
  intro place hoffset hoccurs
  have hmem := mem_window_of_occursAt hpattern hfirst hoffset hoccurs
  rw [List.findIdx?_eq_none_iff] at hfind
  have hother := hfind first (List.mem_of_getElem? hmem)
  simp at hother

/-- The first-byte search jumps over no occurrence. -/
theorem occurrencesFrom_found (hpattern : pattern ≠ [])
    (hfirst : pattern.head? = some first)
    (hroom : offset + pattern.length ≤ bytes.length) {skip : ℕ}
    (hfind : (window pattern bytes offset).findIdx? (· = first) = some skip) :
    occurrencesFrom pattern bytes offset =
      occurrencesFrom pattern bytes (offset + skip) := by
  have hfits := place_fits hroom hfind
  apply occurrencesFrom_skip (Nat.le_add_right _ _) (by omega)
  intro place hoffset hplace hoccurs
  have hmem := mem_window_of_occursAt hpattern hfirst hoffset hoccurs
  obtain ⟨hinside, -, hbefore⟩ := List.findIdx?_eq_some_iff_getElem.mp hfind
  have hother := hbefore (place - offset) (by omega)
  rw [List.getElem?_eq_some_iff] at hmem
  obtain ⟨hlt, hsame⟩ := hmem
  rw [hsame] at hother
  simp at hother

theorem occurrencesFrom_past (hpattern : pattern ≠ [])
    (hroom : ¬ offset + pattern.length ≤ bytes.length) :
    occurrencesFrom pattern bytes offset = [] := by
  apply occurrencesFrom_eq_nil
  intro place hoffset hoccurs
  have hfits := hoccurs.fits hpattern
  omega

end Search

/-! ## Whole scans -/

/-- The hits so far and those of a naive search from `offset` on, cut at `maxHits`; and
whether there are as many. -/
def searched (pattern bytes : List UInt8) (start maxHits offset : ℕ) (hits : List ℕ) :
    List ℕ × Bool :=
  let all := hits ++ (occurrencesFrom pattern bytes offset).map (start + ·)
  (all.take maxHits, decide (maxHits ≤ all.length))

theorem searched_of_nil {pattern bytes : List UInt8} {maxHits offset : ℕ} {hits : List ℕ}
    (start : ℕ) (hnone : occurrencesFrom pattern bytes offset = [])
    (hhits : hits.length < maxHits) :
    searched pattern bytes start maxHits offset hits = (hits, false) := by
  simp only [searched, hnone, List.map_nil, List.append_nil,
    List.take_of_length_le (Nat.le_of_lt hhits), Nat.not_le.mpr hhits, decide_false]

theorem searched_hit {pattern bytes : List UInt8} {offset place : ℕ}
    (start maxHits : ℕ) (hits : List ℕ)
    (hfound : occurrencesFrom pattern bytes offset =
      place :: occurrencesFrom pattern bytes (place + 1)) :
    searched pattern bytes start maxHits offset hits =
      searched pattern bytes start maxHits (place + 1) (hits ++ [start + place]) := by
  simp only [searched, hfound, List.map_cons, List.append_assoc, List.singleton_append]

theorem searched_full {pattern bytes : List UInt8} {start maxHits offset : ℕ}
    {hits : List ℕ} (hfull : hits.length = maxHits) :
    searched pattern bytes start maxHits offset hits = (hits, true) := by
  simp only [searched, ← hfull, List.take_left' rfl, List.length_append,
    Nat.le_add_right, decide_true]

/-- The loop ends, with the hits of the naive search.  Each round moves `offset` on. -/
theorem scanLoop_searched {pattern bytes : List UInt8} {first : UInt8} {maxHits : ℕ}
    (hpattern : pattern ≠ []) (hfirst : pattern.head? = some first) (start offset : ℕ)
    {hits : List ℕ} (hhits : hits.length < maxHits) :
    ScanLoop pattern bytes first start maxHits offset hits
      (searched pattern bytes start maxHits offset hits) := by
  by_cases hroom : offset + pattern.length ≤ bytes.length
  case neg =>
    rw [searched_of_nil start (occurrencesFrom_past hpattern hroom) hhits]
    exact ScanLoop.past hroom
  case pos =>
    cases hfind : (window pattern bytes offset).findIdx? (· = first) with
    | none =>
        rw [searched_of_nil start (occurrencesFrom_absent hpattern hfirst hfind) hhits]
        exact ScanLoop.absent hroom hfind
    | some skip =>
        have hskipped := occurrencesFrom_found hpattern hfirst hroom hfind
        have hfits := place_fits hroom hfind
        have hlength : 0 < pattern.length := List.length_pos_iff.mpr hpattern
        by_cases hequal : candidate pattern bytes (offset + skip) = pattern
        case neg =>
          have hmissed : occurrencesFrom pattern bytes offset =
              occurrencesFrom pattern bytes (offset + skip + 1) := by
            rw [hskipped]
            apply occurrencesFrom_skip (Nat.le_succ _) (by omega)
            intro place hlow hhigh hoccurs
            rw [Nat.le_antisymm (Nat.le_of_lt_succ hhigh) hlow] at hoccurs
            exact hequal (candidate_eq_iff.mpr hoccurs)
          have hsame : searched pattern bytes start maxHits offset hits =
              searched pattern bytes start maxHits (offset + skip + 1) hits := by
            simp only [searched, hmissed]
          rw [hsame]
          exact ScanLoop.miss hroom hfind hequal
            (scanLoop_searched hpattern hfirst start (offset + skip + 1) hhits)
        case pos =>
          have hfound := hskipped.trans
            (occurrencesFrom_hit hpattern (candidate_eq_iff.mp hequal))
          rw [searched_hit start maxHits hits hfound]
          by_cases henough : maxHits ≤ (hits ++ [start + (offset + skip)]).length
          · have hexact : (hits ++ [start + (offset + skip)]).length = maxHits := by
              rw [List.length_append] at henough ⊢
              exact Nat.le_antisymm hhits henough
            rw [searched_full hexact]
            exact ScanLoop.full hroom hfind hequal henough
          · exact ScanLoop.hit hroom hfind hequal henough
              (scanLoop_searched hpattern hfirst start (offset + skip + 1)
                (Nat.lt_of_not_le henough))
termination_by bytes.length - offset

theorem scanRegion_eq {pattern : List UInt8} {first : UInt8} {maxHits : ℕ}
    (hpattern : pattern ≠ []) (hfirst : pattern.head? = some first) (start : ℕ)
    (bytes : List UInt8) {hits : List ℕ} (hhits : hits.length < maxHits) :
    Returns (scanRegion pattern first start bytes maxHits (bytes.length + 1) 0 hits)
      (some (searched pattern bytes start maxHits 0 hits)) :=
  (scanLoop_searched hpattern hfirst start 0 hhits).returns hpattern (by omega)

/-- The addresses at which the pattern stands inside a region, ascending. -/
def regionHits (memory : Memory UInt8) (pattern : List UInt8) (region : Region) : List ℕ :=
  (occurrences pattern (load memory region.start (region.stop - region.start))).map
    (region.start + ·)

/-- The naive search: every address at which the pattern stands wholly inside one region,
in region order. -/
def naiveSearch (memory : Memory UInt8) (regions : List Region) (pattern : List UInt8) :
    List ℕ :=
  regions.flatMap (regionHits memory pattern)

theorem mem_regionHits {memory : Memory UInt8} {pattern : List UInt8}
    (hpattern : pattern ≠ []) {region : Region} {address : ℕ} :
    address ∈ regionHits memory pattern region ↔
      region.start ≤ address ∧ address + pattern.length ≤ region.stop ∧
        load memory address pattern.length = pattern := by
  have hlength : 0 < pattern.length := List.length_pos_iff.mpr hpattern
  rw [regionHits, List.mem_map]
  constructor
  · rintro ⟨place, hplace, rfl⟩
    have hoccurs := (mem_occurrences hpattern).mp hplace
    have hfits := hoccurs.fits hpattern
    rw [length_load] at hfits
    rw [occursAt_iff_take, take_drop_load memory hfits] at hoccurs
    exact ⟨Nat.le_add_right _ _, by omega, hoccurs⟩
  · rintro ⟨hstart, hstop, hload⟩
    refine ⟨address - region.start, ?_, by omega⟩
    rw [mem_occurrences hpattern, occursAt_iff_take, take_drop_load memory (by omega),
      Nat.add_sub_cancel' hstart, hload]

theorem regionHits_eq_nil (memory : Memory UInt8) {pattern : List UInt8}
    (hpattern : pattern ≠ []) {region : Region}
    (hshort : region.stop - region.start < pattern.length) :
    regionHits memory pattern region = [] := by
  rw [regionHits, ← occurrencesFrom_zero, occurrencesFrom_past hpattern]
  · rfl
  · rw [length_load]
    omega

theorem scanRegions_eq (memory : Memory UInt8) {pattern : List UInt8} {first : UInt8}
    (hpattern : pattern ≠ []) (hfirst : pattern.head? = some first) {maxHits : ℕ}
    (regions : List Region) {hits : List ℕ} (hhits : hits.length < maxHits) :
    Returns (scanRegions memory pattern first maxHits regions hits)
      (some ((hits ++ naiveSearch memory regions pattern).take maxHits)) := by
  induction regions generalizing hits with
  | nil =>
      rw [naiveSearch, List.flatMap_nil, List.append_nil,
        List.take_of_length_le (Nat.le_of_lt hhits)]
      exact Returns.pure _
  | cons region regions ih =>
      rw [scanRegions]
      dsimp only
      have hall : hits ++ naiveSearch memory (region :: regions) pattern =
          (hits ++ regionHits memory pattern region) ++
            naiveSearch memory regions pattern := by
        rw [naiveSearch, List.flatMap_cons, List.append_assoc]
        rfl
      rw [hall]
      split
      case isTrue hshort =>
        rw [regionHits_eq_nil memory hpattern hshort, List.append_nil]
        exact ih hhits
      case isFalse =>
        have hregion := scanRegion_eq hpattern hfirst region.start
          (load memory region.start (region.stop - region.start)) hhits
        rw [length_load, searched, occurrencesFrom_zero] at hregion
        by_cases henough : maxHits ≤ (hits ++ regionHits memory pattern region).length
        · rw [List.take_append_of_le_length henough]
          apply hregion.step
          rw [regionHits] at henough
          simp only [henough, decide_true, if_true]
          exact Returns.pure _
        · apply hregion.step
          have hfewer := Nat.lt_of_not_le henough
          have hnext := ih hfewer
          rw [regionHits] at henough hfewer hnext
          simp only [henough, decide_false, Bool.false_eq_true, if_false,
            List.take_of_length_le (Nat.le_of_lt hfewer)]
          exact hnext

theorem aobScan_eq (memory : Memory UInt8) (regions : List Region) {pattern : List UInt8}
    (hpattern : pattern ≠ []) {maxHits : ℕ} (hmax : 1 ≤ maxHits) :
    Returns (aobScan memory regions pattern maxHits)
      (some ((naiveSearch memory regions pattern).take maxHits)) := by
  have hnone : ¬ (pattern = [] ∨ maxHits = 0) := by
    rintro (hempty | hzero)
    · exact hpattern hempty
    · omega
  have hlength : 0 < pattern.length := List.length_pos_iff.mpr hpattern
  have hfirst : pattern.head? = some pattern[0] := by
    rw [List.head?_eq_getElem?, List.getElem?_eq_getElem hlength]
  rw [aobScan, if_neg hnone]
  apply (returns_index hlength).step
  exact scanRegions_eq memory hpattern hfirst regions hmax

/-- A scan never leaves a region and answers at most `maxHits` addresses. -/
theorem aobScan_returns (memory : Memory UInt8) (regions : List Region)
    (pattern : List UInt8) (maxHits : ℕ) :
    ∃ hits, hits.length ≤ maxHits ∧
      Returns (aobScan memory regions pattern maxHits) (some hits) := by
  by_cases hnone : pattern = [] ∨ maxHits = 0
  · rw [aobScan, if_pos hnone]
    exact ⟨[], Nat.zero_le _, Returns.pure _⟩
  · obtain ⟨hpattern, hmax⟩ := not_or.mp hnone
    exact ⟨_, List.length_take_le _ _,
      aobScan_eq memory regions hpattern (Nat.pos_of_ne_zero hmax)⟩

/-- The scan finds what a naive search finds, up to the number of hits asked for, without
leaving a region; and its inner loop ends in every region, wherever it stands. -/
theorem aobScan_naive (memory : Memory UInt8) (regions : List Region)
    {pattern : List UInt8} (hpattern : pattern ≠ []) {maxHits : ℕ} (hmax : 1 ≤ maxHits) :
    Returns (aobScan memory regions pattern maxHits)
        (some ((naiveSearch memory regions pattern).take maxHits)) ∧
      ∀ region ∈ regions, ∀ offset hits, hits.length < maxHits → ∃ result,
        ScanLoop pattern (load memory region.start (region.stop - region.start))
          (pattern.head hpattern) region.start maxHits offset hits result := by
  apply And.intro (aobScan_eq memory regions hpattern hmax)
  intro region _ offset hits hhits
  exact ⟨_, scanLoop_searched hpattern (List.head?_eq_some_head hpattern) region.start
    offset hhits⟩

/-- Ones everywhere but at one address. -/
def sampleMemory : Memory UInt8 := fun address => if address = 0x1003 then 2 else 1

def sampleRegions : List Region := [⟨0x1000, 0x1004, 4⟩, ⟨0x2000, 0x2002, 4⟩]

/-- Three ones in a row hold two overlapping pairs, and one more pair fills a region. -/
theorem aobScan_naive_overlapping :
    Returns (aobScan sampleMemory sampleRegions [1, 1] 10)
      (some [0x1000, 0x1001, 0x2000]) := by
  have hpattern : ([1, 1] : List UInt8) ≠ [] := by decide
  have hmax : 1 ≤ 10 := by decide
  have hnaive : (naiveSearch sampleMemory sampleRegions [1, 1]).take 10 =
      [0x1000, 0x1001, 0x2000] := by decide
  have hscan := (aobScan_naive sampleMemory sampleRegions hpattern hmax).1
  rwa [hnaive] at hscan

end FrogAgent.Scan
