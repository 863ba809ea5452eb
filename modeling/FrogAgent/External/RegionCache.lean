import FrogAgent.External.RegionMap
import FrogAgent.Lib.Run

/-!
# The region cache over time

`external/cache.rs` keeps a captured map of the readable regions, and a background thread
replaces it.  A capture asks the system region by region while the game maps and unmaps memory,
so a map is no picture of one moment.  Whatever happens meanwhile, a validated read is never
refused where the memory is readable, and an accepted range was readable at some moment since
the capture of the map began.
-/

namespace FrogAgent.RegionCache

open Function
open FrogAgent.RegionMap
open FrogAgent.Run
open FrogAgent.Scan
open FrogAgent.VirtualMemory

/-! ## A capture, query by query -/

/-- A capture that is under way. -/
structure Walk where
  addr : ℕ
  regions : List Region
  done : Bool

def Walk.initial : Walk := ⟨0, [], false⟩

/-- One round of the loop of `capture`. -/
def Walk.query (maxRegions : ℕ) (virtualQuery : ℕ → Option MemoryBasicInformation)
    (walk : Walk) : Walk :=
  match virtualQuery walk.addr with
  | none => { walk with done := true }
  | some mbi =>
      let next := saturatingAdd mbi.baseAddress mbi.regionSize
      let found :=
        if recorded mbi then walk.regions ++ [⟨mbi.baseAddress, next, mbi.protect⟩]
        else walk.regions
      ⟨next, found, decide ((recorded mbi ∧ maxRegions ≤ found.length) ∨ next ≤ walk.addr)⟩

/-- The map that a finished capture gives. -/
def Walk.map (walk : Walk) : List Region :=
  walk.regions.mergeSort fun left right => decide (left.start ≤ right.start)

section Undisturbed

variable {maxRegions : ℕ} {virtualQuery : ℕ → Option MemoryBasicInformation}

/-- The loop of `capture` goes on exactly where the walk does. -/
theorem captureLoop_query (walk : Walk) :
    captureLoop virtualQuery maxRegions walk.addr walk.regions =
      if (walk.query maxRegions virtualQuery).done then
        (walk.query maxRegions virtualQuery).regions
      else captureLoop virtualQuery maxRegions (walk.query maxRegions virtualQuery).addr
        (walk.query maxRegions virtualQuery).regions := by
  rw [captureLoop, Walk.query]
  cases virtualQuery walk.addr with
  | none => rfl
  | some mbi =>
      simp only [decide_eq_true_eq, ite_or]

theorem query_grows {walk : Walk} (hmore : (walk.query maxRegions virtualQuery).done = false) :
    walk.addr < (walk.query maxRegions virtualQuery).addr ∧
      (walk.query maxRegions virtualQuery).addr < 2 ^ 64 := by
  rw [Walk.query] at hmore ⊢
  cases hquery : virtualQuery walk.addr with
  | none =>
      rw [hquery] at hmore
      contradiction
  | some mbi =>
      rw [hquery] at hmore
      dsimp only at hmore ⊢
      have hnext : saturatingAdd mbi.baseAddress mbi.regionSize ≤ 2 ^ 64 - 1 :=
        Nat.min_le_right _ _
      have hlater := (not_or.mp (of_decide_eq_false hmore)).2
      omega

theorem undisturbed_loop (walk : Walk) :
    ∃ rounds, 0 < rounds ∧
      ((Walk.query maxRegions virtualQuery)^[rounds] walk).done = true ∧
      ((Walk.query maxRegions virtualQuery)^[rounds] walk).regions =
        captureLoop virtualQuery maxRegions walk.addr walk.regions := by
  rw [captureLoop_query]
  cases hdone : (walk.query maxRegions virtualQuery).done with
  | true => exact ⟨1, Nat.one_pos, hdone, rfl⟩
  | false =>
      have hgrows := query_grows hdone
      obtain ⟨rounds, -, hend, hregions⟩ :=
        undisturbed_loop (walk.query maxRegions virtualQuery)
      exact ⟨rounds + 1, Nat.succ_pos _, hend, hregions⟩
termination_by 2 ^ 64 - walk.addr
decreasing_by omega

/-- While nothing is mapped or unmapped, the queries together are the capture. -/
theorem undisturbed_capture :
    ∃ rounds, ((Walk.query maxRegions virtualQuery)^[rounds] .initial).done = true ∧
      ((Walk.query maxRegions virtualQuery)^[rounds] .initial).map =
        capture virtualQuery maxRegions := by
  obtain ⟨rounds, -, hend, hregions⟩ :=
    @undisturbed_loop maxRegions virtualQuery Walk.initial
  exact ⟨rounds, hend, by rw [Walk.map, hregions, capture]; rfl⟩

end Undisturbed

/-! ## The system -/

/-- A capture with the layouts that the address space has had since it began. -/
structure Pending where
  walk : Walk
  since : List Layout

structure Cache where
  regions : List Region
  since : List Layout

structure Process where
  layout : Layout
  cache : Option Cache
  /-- The captures under way, each on its thread. -/
  captures : ℕ → Option Pending

def Process.started (layout : Layout) : Process := ⟨layout, none, fun _ => none⟩

inductive Label where
  /-- The game maps, unmaps or protects memory. -/
  | change (layout : Layout)
  | begin (thread : ℕ)
  | query (thread : ℕ)
  | publish (thread : ℕ)

def step (maxRegions : ℕ) (process : Process) : Label → Option Process
  | .change layout =>
      some {
        layout
        cache := process.cache.map fun cache => { cache with since := cache.since ++ [layout] }
        captures := fun thread => (process.captures thread).map fun pending =>
          { pending with since := pending.since ++ [layout] } }
  | .begin thread =>
      match process.captures thread with
      | none => some { process with
          captures := update process.captures thread (some ⟨.initial, [process.layout]⟩) }
      | some _ => none
  | .query thread =>
      match process.captures thread with
      | none => none
      | some pending =>
          if pending.walk.done then none
          else some { process with
            captures := update process.captures thread (some { pending with
              walk := pending.walk.query maxRegions process.layout.virtualQuery }) }
  | .publish thread =>
      match process.captures thread with
      | none => none
      | some pending =>
          if pending.walk.done then
            some { process with
              cache := some ⟨pending.walk.map, pending.since⟩
              captures := update process.captures thread none }
          else none

/-! ## What a run keeps -/

/-- The region was the rest of a readable tile in one of the layouts. -/
def Seen (since : List Layout) (region : Region) : Prop :=
  ∃ layout ∈ since, ∃ tile, layout.IsTile tile ∧ tile.Readable ∧
    tile.start ≤ region.start ∧ region.stop = tile.stop

/-- All regions were seen, and the present layout is one of those that count. -/
structure Fresh (present : Layout) (regions : List Region) (since : List Layout) : Prop where
  seen : ∀ region ∈ regions, Seen since region
  present : present ∈ since

structure Keeps (process : Process) : Prop where
  cache : ∀ cache, process.cache = some cache → Fresh process.layout cache.regions cache.since
  captures : ∀ thread pending, process.captures thread = some pending →
    Fresh process.layout pending.walk.regions pending.since

section Steps

variable {maxRegions : ℕ} {process : Process} {present layout : Layout}
variable {regions : List Region} {since : List Layout}

theorem Fresh.change (hfresh : Fresh present regions since) (layout : Layout) :
    Fresh layout regions (since ++ [layout]) where
  seen := by
    intro region hregion
    obtain ⟨earlier, hearlier, htile⟩ := hfresh.seen region hregion
    exact ⟨earlier, List.mem_append_left _ hearlier, htile⟩
  present := List.mem_append_right _ (List.mem_singleton_self layout)

theorem Fresh.query {walk : Walk} (hfresh : Fresh present walk.regions since) :
    Fresh present (walk.query maxRegions present.virtualQuery).regions since := by
  refine ⟨?_, hfresh.present⟩
  rw [Walk.query]
  cases htile : present.tileAt walk.addr with
  | none =>
      rw [present.query_none walk.addr htile]
      exact hfresh.seen
  | some tile =>
      obtain ⟨base, hstart, hbase, hquery⟩ := present.query_some walk.addr tile htile
      have hinside := present.inside walk.addr tile htile
      have hisTile := present.isTile_of_tileAt htile
      have hnext := saturatingAdd_tile hisTile (by omega : base ≤ tile.stop)
      rw [hquery]
      dsimp only
      split
      case isFalse => exact hfresh.seen
      case isTrue hrecorded =>
        intro region hregion
        rcases List.mem_append.mp hregion with hold | hnew
        · exact hfresh.seen region hold
        · rw [List.mem_singleton.mp hnew]
          exact ⟨present, hfresh.present, tile, hisTile, readable_of_recorded hrecorded, hstart,
            hnext⟩

theorem keeps_started (layout : Layout) : Keeps (.started layout) :=
  ⟨nofun, nofun⟩

/-- Only one capture changes. -/
theorem Keeps.update_capture (hkeeps : Keeps process) {thread : ℕ} {pending : Option Pending}
    (hfresh : ∀ capture ∈ pending, Fresh process.layout capture.walk.regions capture.since) :
    Keeps { process with captures := update process.captures thread pending } := by
  refine ⟨hkeeps.cache, fun other capture hcapture => ?_⟩
  by_cases hother : other = thread
  · simp only [hother, update_self] at hcapture
    exact hfresh capture hcapture
  · simp only [update_of_ne hother] at hcapture
    exact hkeeps.captures other capture hcapture

theorem Keeps.step {label : Label} {next : Process} (hkeeps : Keeps process)
    (hstep : RegionCache.step maxRegions process label = some next) : Keeps next := by
  cases label with
  | change layout =>
      obtain rfl := Option.some.inj hstep
      constructor
      · intro cache hcache
        obtain ⟨earlier, hearlier, rfl⟩ := Option.map_eq_some_iff.mp hcache
        exact (hkeeps.cache earlier hearlier).change layout
      · intro thread pending hpending
        obtain ⟨earlier, hearlier, rfl⟩ := Option.map_eq_some_iff.mp hpending
        exact (hkeeps.captures thread earlier hearlier).change layout
  | begin thread =>
      simp only [RegionCache.step] at hstep
      split at hstep
      · obtain rfl := Option.some.inj hstep
        apply hkeeps.update_capture
        intro capture hcapture
        obtain rfl := Option.some.inj hcapture
        exact ⟨nofun, List.mem_singleton_self _⟩
      · contradiction
  | query thread =>
      simp only [RegionCache.step] at hstep
      split at hstep
      · contradiction
      · rename_i pending hpending
        split at hstep
        · contradiction
        · obtain rfl := Option.some.inj hstep
          apply hkeeps.update_capture
          intro capture hcapture
          obtain rfl := Option.some.inj hcapture
          exact (hkeeps.captures thread pending hpending).query
  | publish thread =>
      simp only [RegionCache.step] at hstep
      split at hstep
      · contradiction
      · rename_i pending hpending
        split at hstep
        · obtain rfl := Option.some.inj hstep
          have hfresh := hkeeps.captures thread pending hpending
          have hidle := @Keeps.update_capture process hkeeps thread none nofun
          refine ⟨?_, hidle.captures⟩
          intro cache hcache
          obtain rfl := Option.some.inj hcache
          refine ⟨fun region hregion => ?_, hfresh.present⟩
          exact hfresh.seen region (List.mem_mergeSort.mp hregion)
        · contradiction

end Steps

/-! ## Validated reads -/

section Reads

variable {maxRegions addr len : ℕ} {start : Layout} {labels : List Label} {process : Process}

/-- Whatever the order of the regions, an accepted range lies in one of them. -/
theorem mem_of_inRegion {regions : List Region} (hregion : inRegion regions addr len = true) :
    ∃ region ∈ regions, region.start ≤ addr ∧ addr + len ≤ region.stop := by
  rw [inRegion, checkedAdd] at hregion
  split at hregion
  · contradiction
  · rename_i stop hstop
    rw [Option.ite_none_right_eq_some, Option.some.injEq] at hstop
    obtain ⟨-, rfl⟩ := hstop
    split at hregion
    · contradiction
    · rename_i region hcandidate
      simp only [Bool.and_eq_true, decide_eq_true_eq] at hregion
      refine ⟨region, ?_, hregion⟩
      rw [RegionMap.candidate] at hcandidate
      split at hcandidate
      · exact List.mem_of_getElem? hcandidate
      · contradiction
      · exact List.mem_of_getElem? hcandidate

theorem Fresh.live_of_inRegion {present : Layout} {regions : List Region}
    {since : List Layout} (hfresh : Fresh present regions since) (hlen : 1 ≤ len)
    (hregion : inRegion regions addr len = true) :
    ∃ layout ∈ since, liveReadable layout.virtualQuery addr len = true := by
  obtain ⟨region, hmem, hlow, hhigh⟩ := mem_of_inRegion hregion
  obtain ⟨layout, hlayout, tile, htile, hreadable, hstart, hstop⟩ := hfresh.seen region hmem
  refine ⟨layout, hlayout, (liveReadable_iff hlen).mpr ⟨tile, htile, hreadable, ?_, ?_⟩⟩
  · exact Nat.le_trans hstart hlow
  · rwa [← hstop]

/-- However mapping, captures and their publication interleave: where memory is readable a
validated read is accepted; an accepted range was readable in one of the layouts since the
capture of the present map began; and where all of these agree about the range, the answer is
that of the system. -/
theorem validateRead_fresh
    (hrun : run (step maxRegions) (.started start) labels = some process) {cache : Cache}
    (hcache : process.cache = some cache) (hlen : 1 ≤ len) :
    (liveReadable process.layout.virtualQuery addr len = true →
      validateRead cache.regions process.layout.virtualQuery addr len = true) ∧
    (validateRead cache.regions process.layout.virtualQuery addr len = true →
      ∃ layout ∈ cache.since, liveReadable layout.virtualQuery addr len = true) ∧
    ((∀ layout ∈ cache.since, liveReadable layout.virtualQuery addr len =
        liveReadable process.layout.virtualQuery addr len) →
      validateRead cache.regions process.layout.virtualQuery addr len =
        liveReadable process.layout.virtualQuery addr len) := by
  have hkeeps : Keeps process :=
    (visits_end hrun).invariant (keeps_started start) fun _ _ _ => Keeps.step
  have hfresh := hkeeps.cache cache hcache
  rw [validateRead]
  by_cases hregion : inRegion cache.regions addr len = true
  · rw [if_pos hregion]
    have hlive := hfresh.live_of_inRegion hlen hregion
    refine ⟨fun _ => rfl, fun _ => hlive, fun hsame => ?_⟩
    obtain ⟨layout, hlayout, hreadable⟩ := hlive
    rw [← hsame layout hlayout, hreadable]
  · rw [if_neg hregion]
    exact ⟨id, fun hlive => ⟨process.layout, hfresh.present, hlive⟩, fun _ => rfl⟩

end Reads

/-- Nothing is mapped any more. -/
def emptyLayout : Layout where
  top := 0
  top_lt := by decide
  tileAt := fun _ => none
  tileAt_isSome := by simp
  inside := nofun
  uniform := nofun
  virtualQuery := fun _ => none
  query_none := fun _ _ => rfl
  query_some := nofun

/-- The memory is unmapped behind the capture, and the map still accepts it. -/
theorem validateRead_fresh_unmapped :
    ∃ process cache, run (step 1) (.started sampleLayout)
        [.begin 0, .query 0, .query 0, .publish 0, .change emptyLayout] = some process ∧
      process.cache = some cache ∧
      validateRead cache.regions process.layout.virtualQuery 0x1000 8 = true ∧
      ∃ layout ∈ cache.since, liveReadable layout.virtualQuery 0x1000 8 = true := by
  have haccepted : validateRead (Walk.map ⟨0x3000, [⟨0x1000, 0x3000, pageReadwrite⟩], true⟩)
      emptyLayout.virtualQuery 0x1000 8 = true := by
    rw [Walk.map, List.mergeSort_singleton]
    decide +kernel
  obtain ⟨process, hrun, hcache, hlayout⟩ : ∃ process, run (step 1) (.started sampleLayout)
        [.begin 0, .query 0, .query 0, .publish 0, .change emptyLayout] = some process ∧
      process.cache = some ⟨Walk.map ⟨0x3000, [⟨0x1000, 0x3000, pageReadwrite⟩], true⟩,
        [sampleLayout, emptyLayout]⟩ ∧
      process.layout = emptyLayout := ⟨_, rfl, rfl, rfl⟩
  rw [← hlayout] at haccepted
  exact ⟨process, _, hrun, hcache, haccepted,
    (validateRead_fresh hrun hcache (by decide)).2.1 haccepted⟩

end FrogAgent.RegionCache
