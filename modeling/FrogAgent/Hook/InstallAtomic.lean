import FrogAgent.Hook.SlabAgreement

/-!
# Failed installations

`install_hook` takes a slot id, a thunk, a trampoline and the right to patch, one
after the other, and each failing exit gives back what it has taken so far.  The
pages `VirtualAlloc` hands out during the call are new to the process; apart from
them, the only bytes a failed call has written are those of the thunk slot it has
freed again, and these are `int3` as in every free slot.
-/

namespace FrogAgent.InstallAtomic

open FrogAgent.ByteMemory
open FrogAgent.Error
open FrogAgent.InlineDetour
open FrogAgent.OneHookPerMethod
open FrogAgent.SlabAgreement
open FrogAgent.Slots
open FrogAgent.Thunks

/-- The addresses of a range. -/
def Within (start width address : ℕ) : Prop :=
  start ≤ address ∧ address < start + width

instance (start width address : ℕ) : Decidable (Within start width address) :=
  inferInstanceAs (Decidable (_ ∧ _))

/-- The slots of the slab whose free bit is set. -/
def freeSlots (pages : List SlabPage) : Set ℕ :=
  {addr | ∃ page ∈ pages, ∃ idx < slotsPerPage,
    page.freeMask.getLsbD idx = true ∧ addr = page.base + idx * slotBytes}

/-- The addresses of the pages that `VirtualAlloc` hands out during the call. -/
def freshPages (allocs : Allocs) : Set ℕ :=
  {address | (∃ base ∈ allocs.page, Within base pageBytes address) ∨
    ∃ base ∈ allocs.trampoline, Within base pageBytes address}

/-- `int3` in every free slot, as `emit_thunk` fills new pages and `free_thunk`
leaves freed slots. -/
def FreeSlotsPadded (state : HookState) : Prop :=
  ∀ slot ∈ freeSlots state.pages, ∀ address, Within slot slotBytes address →
    state.memory address = 0xCC

/-- The call has left no trace: the published slots with their contexts, the used
thunk slots with their bytes, and every byte outside the pages that are new to
the process and the free slots of the slab are as before.  A free slot keeps its
bytes too, or holds `int3`. -/
structure NoTrace (allocs : Allocs) (before after : HookState) : Prop where
  slots : after.slots = before.slots
  reentry : after.reentry = before.reentry
  used : usedSlots after.pages = usedSlots before.pages
  thunks : ∀ slot ∈ usedSlots before.pages,
    load after.memory slot slotBytes = load before.memory slot slotBytes
  code : ∀ address ∉ freshPages allocs,
    (∀ slot ∈ freeSlots before.pages, ¬ Within slot slotBytes address) →
      after.memory address = before.memory address
  padded : FreeSlotsPadded before → ∀ address ∉ freshPages allocs,
    after.memory address = before.memory address

theorem noTrace_refl (allocs : Allocs) (state : HookState) :
    NoTrace allocs state state where
  slots := rfl
  reentry := rfl
  used := rfl
  thunks := fun _ _ => rfl
  code := fun _ _ _ => rfl
  padded := fun _ _ _ => rfl

/-! ## Where the stages write -/

theorem allocFromPages_free {pages next : List SlabPage} {addr : ℕ}
    (halloc : allocFromPages pages = some (addr, next)) :
    addr ∈ freeSlots pages := by
  induction pages generalizing next with
  | nil => contradiction
  | cons page pages ih =>
      rw [allocFromPages] at halloc
      split at halloc
      · rename_i found taken htaken
        cases halloc
        rw [SlabPage.tryAlloc] at htaken
        split at htaken
        · contradiction
        · rename_i idx hfind
          cases htaken
          exact ⟨page, List.mem_cons_self, idx,
            List.mem_range.mp (List.mem_of_find?_eq_some hfind),
            List.find?_some hfind, rfl⟩
      · rw [Option.map_eq_some_iff] at halloc
        obtain ⟨⟨found, rest⟩, hrest, hequal⟩ := halloc
        cases hequal
        obtain ⟨owner, howner, hslot⟩ := ih hrest
        exact ⟨owner, List.mem_cons_of_mem page howner, hslot⟩

/-- `emit_thunk` writes to one slot, which was free or lies in a new page, and to
that page. -/
theorem emitThunk_writes {shimAddr methodId addr : ℕ} {slab next : Slab}
    {newPage : Option ℕ}
    (hemit : emitThunk shimAddr slab newPage methodId = some (addr, next)) :
    (addr ∈ freeSlots slab.pages ∨ ∃ base ∈ newPage, ∀ address,
        Within addr slotBytes address → Within base pageBytes address) ∧
      ∀ address, (∀ base ∈ newPage, ¬ Within base pageBytes address) →
        ¬ Within addr slotBytes address →
          next.memory address = slab.memory address := by
  have hstore : ∀ (memory : Memory UInt8) (address : ℕ),
      ¬ Within addr slotBytes address →
        store memory ⟨addr, thunkBytes methodId shimAddr⟩ address =
          memory address := by
    intro memory address houtside
    apply store_of_not_covers
    rw [Patch.Covers, length_thunkBytes]
    exact houtside
  simp only [emitThunk, Option.map_eq_some_iff, Prod.exists, Prod.mk.injEq] at hemit
  obtain ⟨found, middle, halloc, rfl, rfl⟩ := hemit
  split at halloc
  · rename_i taken pages htaken
    cases halloc
    exact ⟨Or.inl (allocFromPages_free htaken),
      fun address _ houtside => hstore slab.memory address houtside⟩
  · simp only [Option.bind_eq_bind, Option.bind_eq_some_iff] at halloc
    obtain ⟨base, hbase, ⟨taken, page⟩, htaken, hequal⟩ := halloc
    cases hequal
    obtain ⟨-, hlow, hhigh⟩ := tryAlloc_eq_some htaken
    constructor
    · right
      use base, hbase
      intro address hinside
      exact ⟨le_trans hlow hinside.1, lt_of_lt_of_le hinside.2 hhigh⟩
    · intro address hfresh houtside
      calc
        store (fill slab.memory base pageBytes 0xCC)
            ⟨taken, thunkBytes methodId shimAddr⟩ address =
              fill slab.memory base pageBytes 0xCC address :=
          hstore _ address houtside
        _ = slab.memory address := if_neg (hfresh base hbase)

/-- A detour that is not installed has written to its trampoline at most. -/
theorem install_none_writes {platform : Platform} {memory next : Memory UInt8}
    {trampoline : Option ℕ} {target detour address : ℕ}
    (hinstall : install platform memory trampoline target detour = (next, none))
    (houtside : ∀ base ∈ trampoline, ¬ Within base pageBytes address) :
    next address = memory address := by
  obtain ⟨written, hwritten, hresult⟩ := install_effect hinstall
  have hnext : next = written := by
    rcases hresult with ⟨-, hequal⟩ | ⟨hook, stolen, hsome, -⟩
    · exact hequal
    · contradiction
  rw [hnext]
  rcases hwritten with hequal | ⟨base, bytes, hbase, hlength, hequal⟩
  · rw [hequal]
  · rw [hequal]
    apply store_of_not_covers
    intro hcovers
    apply houtside base hbase
    have hsize : bytes.length ≤ pageBytes := by
      simp only [pageBytes]
      omega
    exact ⟨hcovers.1, lt_of_lt_of_le hcovers.2 (Nat.add_le_add_left hsize base)⟩

theorem freeThunk_inside (slab : Slab) {addr address : ℕ}
    (hinside : Within addr slotBytes address) :
    (freeThunk slab addr).memory address = 0xCC := by
  obtain ⟨hlow, hhigh⟩ := hinside
  have hoffset : address - addr < slotBytes := by omega
  simp only [freeThunk, store, if_pos hlow, List.getElem?_replicate, if_pos hoffset,
    Option.getD_some]

theorem freeThunk_outside (slab : Slab) {addr address : ℕ}
    (houtside : ¬ Within addr slotBytes address) :
    (freeThunk slab addr).memory address = slab.memory address := by
  apply store_of_not_covers
  rw [Patch.Covers, List.length_replicate]
  exact houtside

/-! ## Every exit -/

section RolledBack

variable {env : Env} {allocs : Allocs} {state : HookState} {slot : SlotId}
variable {thunkAddr : ℕ} {slab : Slab} {memory : Memory UInt8}
variable (hemit : emitThunk env.shimAddr ⟨state.memory, state.pages⟩ allocs.page slot =
  some (thunkAddr, slab))
variable (hmemory : memory = slab.memory ∨ ∃ target,
  install env.platform slab.memory allocs.trampoline target thunkAddr = (memory, none))

include hemit hmemory

/-- Outside the new pages only the freed slot has been written to. -/
theorem rolledBack_outside {address : ℕ} (hfresh : address ∉ freshPages allocs)
    (houtside : ¬ Within thunkAddr slotBytes address) :
    (freeThunk ⟨memory, slab.pages⟩ thunkAddr).memory address =
      state.memory address := by
  have hpage : ∀ base ∈ allocs.page, ¬ Within base pageBytes address :=
    fun base hbase hinside => hfresh (Or.inl ⟨base, hbase, hinside⟩)
  have htrampoline : ∀ base ∈ allocs.trampoline, ¬ Within base pageBytes address :=
    fun base hbase hinside => hfresh (Or.inr ⟨base, hbase, hinside⟩)
  calc
    (freeThunk ⟨memory, slab.pages⟩ thunkAddr).memory address = memory address :=
      freeThunk_outside ⟨memory, slab.pages⟩ houtside
    _ = slab.memory address := by
      rcases hmemory with hequal | ⟨target, hinstall⟩
      · rw [hequal]
      · exact install_none_writes hinstall htrampoline
    _ = state.memory address := (emitThunk_writes hemit).2 address hpage houtside

omit hmemory in
theorem thunkAddr_free {address : ℕ} (hfresh : address ∉ freshPages allocs)
    (hinside : Within thunkAddr slotBytes address) :
    thunkAddr ∈ freeSlots state.pages := by
  rcases (emitThunk_writes hemit).1 with hfree | ⟨base, hbase, hpage⟩
  · exact hfree
  · exact absurd (Or.inl ⟨base, hbase, hpage address hinside⟩) hfresh

theorem noTrace_rolledBack {method handlerFuncRef runtimeId : ℕ}
    (hpages : PagesApart state.pages)
    (hallocs : FreshAllocs state (.install allocs method handlerFuncRef runtimeId)) :
    NoTrace allocs state { state with
      memory := (freeThunk ⟨memory, slab.pages⟩ thunkAddr).memory
      pages := (freeThunk ⟨memory, slab.pages⟩ thunkAddr).pages } := by
  have hemitted : Emitted env.shimAddr ⟨state.memory, state.pages⟩ allocs.page slot
      thunkAddr slab := by
    apply emitThunk_emitted hemit hpages
    intro base hbase other hother
    exact ((hallocs.1 base hbase).1 other hother).symm
  have hfreed := freeThunk_used ⟨memory, slab.pages⟩ hemitted.pages hemitted.mem_used
  constructor
  case slots => rfl
  case reentry => rfl
  case used =>
    calc
      usedSlots (freeThunk ⟨memory, slab.pages⟩ thunkAddr).pages =
          usedSlots slab.pages \ {thunkAddr} := hfreed.2
      _ = insert thunkAddr (usedSlots state.pages) \ {thunkAddr} := by
        rw [hemitted.used]
      _ = usedSlots state.pages := Set.insert_sdiff_self_of_notMem hemitted.fresh
  case thunks =>
    intro other hother
    have hused : other ∈ usedSlots slab.pages := by
      rw [hemitted.used]
      exact Set.mem_insert_of_mem thunkAddr hother
    have hne : thunkAddr ≠ other := by
      intro hequal
      rw [← hequal] at hother
      exact hemitted.fresh hother
    calc
      load (freeThunk ⟨memory, slab.pages⟩ thunkAddr).memory other slotBytes =
          load memory other slotBytes :=
        freeThunk_kept ⟨memory, slab.pages⟩ hemitted.pages hemitted.mem_used hused hne
      _ = load slab.memory other slotBytes := by
        rcases hmemory with hequal | ⟨target, hinstall⟩
        · rw [hequal]
        · apply load_installed hinstall (trampoline_apart hallocs hemitted) _ hused
          intro hook hnone
          contradiction
      _ = load state.memory other slotBytes := hemitted.kept other hother
  case code =>
    intro address hfresh hslots
    apply rolledBack_outside hemit hmemory hfresh
    intro hinside
    exact hslots thunkAddr (thunkAddr_free hemit hfresh hinside) hinside
  case padded =>
    intro hpadded address hfresh
    by_cases hinside : Within thunkAddr slotBytes address
    · have hfree := thunkAddr_free hemit hfresh hinside
      calc
        (freeThunk ⟨memory, slab.pages⟩ thunkAddr).memory address = 0xCC :=
          freeThunk_inside ⟨memory, slab.pages⟩ hinside
        _ = state.memory address := (hpadded thunkAddr hfree address hinside).symm
    · exact rolledBack_outside hemit hmemory hfresh hinside

end RolledBack

/-- Whichever step of `install_hook` fails, the call leaves no trace. -/
theorem installHook_error_noTrace (env : Env) (allocs : Allocs) (state : HookState)
    (method handlerFuncRef runtimeId : ℕ) (hpages : PagesApart state.pages)
    (hallocs : FreshAllocs state (.install allocs method handlerFuncRef runtimeId))
    (error : HookError)
    (herror : (installHook env allocs state method handlerFuncRef runtimeId).2 =
      .error error) :
    NoTrace allocs state
      (installHook env allocs state method handlerFuncRef runtimeId).1 := by
  have houtcome := installHook_outcome env allocs state method handlerFuncRef runtimeId
  generalize installHook env allocs state method handlerFuncRef runtimeId =
    result at houtcome herror
  cases houtcome with
  | rejected error hrejected => exact noTrace_refl allocs state
  | rolledBack slot thunkAddr slab memory hemit hmemory =>
      exact noTrace_rolledBack hemit hmemory hpages hallocs
  | published slot sig thunkAddr target slab memory patch hsig hslot hemit htarget
      hinstall => contradiction

/-- A process with one published hook. -/
def sampleState : HookState :=
  (installHook sampleEnv ⟨some 0x100000, some 0x200000⟩
    (HookState.initial sampleMemory) 0x100 0 1).1

/-- A second installation that gets a thunk but no trampoline. -/
theorem sampleState_noTrace :
    (sampleState.slots 0).isSome ∧ ∃ error,
      (installHook sampleEnv ⟨none, none⟩ sampleState 0x100 1 1).2 = .error error ∧
      NoTrace ⟨none, none⟩ sampleState
        (installHook sampleEnv ⟨none, none⟩ sampleState 0x100 1 1).1 := by
  have hfails : (installHook sampleEnv ⟨none, none⟩ sampleState 0x100 1 1).2.toBool =
      false := by
    decide +kernel
  have hpages : PagesApart sampleState.pages := by
    rw [PagesApart]
    decide +kernel
  cases hresult : (installHook sampleEnv ⟨none, none⟩ sampleState 0x100 1 1).2 with
  | ok slot =>
      rw [hresult] at hfails
      contradiction
  | error error =>
      exact ⟨by decide +kernel, error, rfl, installHook_error_noTrace sampleEnv
        ⟨none, none⟩ sampleState 0x100 1 1 hpages (by decide +kernel) error hresult⟩

end FrogAgent.InstallAtomic
