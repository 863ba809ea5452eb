import FrogAgent.Hook.OneHookPerMethod
import FrogAgent.Hook.SlabSlots

/-!
# Published slots and the thunk slab

Every exit of `install_hook` and `remove_hook` keeps the slab exact: the used
slots are the thunks of the published hooks, one each.  What the thunks contain
is another matter.  `install_hook` patches whatever address a `MethodInfo` holds
and does not ask whether it lies in the slab, so the thunks stay as emitted along
the histories in which every patched range lies outside the slab's pages.
-/

namespace FrogAgent.SlabAgreement

open FrogAgent.ByteMemory
open FrogAgent.InlineDetour
open FrogAgent.OneHookPerMethod
open FrogAgent.Run
open FrogAgent.Slots
open FrogAgent.Thunks

/-- The thunk addresses of the published slots. -/
def publishedThunks (slots : SlotId → Option HookCtx) : Set ℕ :=
  {addr | ∃ slot ctx, slots slot = some ctx ∧ ctx.thunkAddr = addr}

def DistinctThunks (slots : SlotId → Option HookCtx) : Prop :=
  ∀ left right leftCtx rightCtx, slots left = some leftCtx →
    slots right = some rightCtx → leftCtx.thunkAddr = rightCtx.thunkAddr →
      left = right

/-- No leak and no double allocation. -/
structure SlabExact (state : HookState) : Prop where
  pages : PagesApart state.pages
  used : usedSlots state.pages = publishedThunks state.slots
  distinct : DistinctThunks state.slots

/-- Each published thunk loads its own slot id and jumps to the shim. -/
def ThunksEncoded (env : Env) (state : HookState) : Prop :=
  ∀ slot ctx, state.slots slot = some ctx →
    load state.memory ctx.thunkAddr slotBytes = thunkBytes slot env.shimAddr

/-- A page that meets neither the slab nor the trampoline of a published hook. -/
def Unheld (state : HookState) (base : ℕ) : Prop :=
  (∀ other ∈ bases state.pages, Apart base pageBytes other pageBytes) ∧
    ∀ slot, ∀ ctx ∈ state.slots slot,
      Apart base pageBytes ctx.patch.trampoline pageBytes

instance (state : HookState) (base : ℕ) : Decidable (Unheld state base) :=
  inferInstanceAs (Decidable (_ ∧ _))

/-- `VirtualAlloc` returns pages disjoint from all live ones. -/
def FreshAllocs (state : HookState) : HookOp → Prop
  | .install allocs _ _ _ =>
      (∀ base ∈ allocs.page, Unheld state base) ∧
        ∀ base ∈ allocs.trampoline, Unheld state base ∧
          ∀ page ∈ allocs.page, Apart base pageBytes page pageBytes
  | .remove _ => True

instance (state : HookState) : ∀ op, Decidable (FreshAllocs state op)
  | .install _ _ _ _ => inferInstanceAs (Decidable (_ ∧ _))
  | .remove _ => inferInstanceAs (Decidable True)

/-- No published hook has its patch inside the slab. -/
def PatchesOutside (state : HookState) : Prop :=
  ∀ slot, ∀ ctx ∈ state.slots slot, ∀ base ∈ bases state.pages,
    Apart ctx.patch.target ctx.patch.originalBytes.length base pageBytes

/-- The call leaves every patch outside the slab. -/
def KeepsPatchesOutside (env : Env) (state : HookState) (op : HookOp) : Prop :=
  ∀ next ∈ hookStep env state op, PatchesOutside next

instance (state : HookState) : Decidable (PatchesOutside state) :=
  inferInstanceAs (Decidable (∀ _, _))

instance (env : Env) (state : HookState) (op : HookOp) :
    Decidable (KeepsPatchesOutside env state op) :=
  inferInstanceAs (Decidable (∀ next ∈ hookStep env state op, PatchesOutside next))

/-! ## The slot table -/

theorem mem_publishedThunks {slots : SlotId → Option HookCtx} {slot : SlotId}
    {ctx : HookCtx} (hslot : slots slot = some ctx) :
    ctx.thunkAddr ∈ publishedThunks slots :=
  ⟨slot, ctx, hslot, rfl⟩

theorem publishedThunks_publish {slots : SlotId → Option HookCtx} {slot : SlotId}
    (hslot : slots slot = none) (ctx : HookCtx) :
    publishedThunks (Function.update slots slot (some ctx)) =
      insert ctx.thunkAddr (publishedThunks slots) := by
  ext addr
  rw [Set.mem_insert_iff]
  constructor
  · rintro ⟨other, otherCtx, hother, rfl⟩
    rcases slots_of_published hother with ⟨-, rfl⟩ | ⟨-, hold⟩
    · exact Or.inl rfl
    · exact Or.inr (mem_publishedThunks hold)
  · rintro (rfl | ⟨other, otherCtx, hother, rfl⟩)
    · exact mem_publishedThunks (Function.update_self slot (some ctx) slots)
    · refine ⟨other, otherCtx, ?_, rfl⟩
      rw [Function.update_of_ne, hother]
      rintro rfl
      rw [hslot] at hother
      contradiction

theorem publishedThunks_withdraw {slots : SlotId → Option HookCtx} {slot : SlotId}
    {ctx : HookCtx} (hdistinct : DistinctThunks slots)
    (hslot : slots slot = some ctx) :
    publishedThunks (Function.update slots slot none) =
      publishedThunks slots \ {ctx.thunkAddr} := by
  ext addr
  rw [Set.mem_sdiff, Set.mem_singleton_iff]
  constructor
  · rintro ⟨other, otherCtx, hother, rfl⟩
    obtain ⟨hne, hold⟩ := slots_of_withdrawn hother
    refine ⟨mem_publishedThunks hold, ?_⟩
    intro hequal
    exact hne (hdistinct other slot otherCtx ctx hold hslot hequal)
  · rintro ⟨⟨other, otherCtx, hother, rfl⟩, hne⟩
    refine ⟨other, otherCtx, ?_, rfl⟩
    rw [Function.update_of_ne, hother]
    rintro rfl
    rw [hslot] at hother
    cases hother
    exact hne rfl

theorem distinctThunks_publish {slots : SlotId → Option HookCtx} {slot : SlotId}
    {ctx : HookCtx} (hdistinct : DistinctThunks slots)
    (hfresh : ctx.thunkAddr ∉ publishedThunks slots) :
    DistinctThunks (Function.update slots slot (some ctx)) := by
  intro left right leftCtx rightCtx hleft hright hequal
  rcases slots_of_published hleft with ⟨hl, rfl⟩ | ⟨-, hold⟩
  · rcases slots_of_published hright with ⟨hr, rfl⟩ | ⟨-, hother⟩
    · rw [hl, hr]
    · rw [hequal] at hfresh
      exact absurd (mem_publishedThunks hother) hfresh
  · rcases slots_of_published hright with ⟨-, rfl⟩ | ⟨-, hother⟩
    · rw [← hequal] at hfresh
      exact absurd (mem_publishedThunks hold) hfresh
    · exact hdistinct left right leftCtx rightCtx hold hother hequal

theorem distinctThunks_withdraw {slots : SlotId → Option HookCtx} {slot : SlotId}
    (hdistinct : DistinctThunks slots) :
    DistinctThunks (Function.update slots slot none) := by
  intro left right leftCtx rightCtx hleft hright hequal
  exact hdistinct left right leftCtx rightCtx (slots_of_withdrawn hleft).2
    (slots_of_withdrawn hright).2 hequal

/-! ## The used slots are the published thunks -/

theorem slabExact_initial (memory : Memory UInt8) :
    SlabExact (HookState.initial memory) where
  pages := List.Pairwise.nil
  used := by
    ext addr
    simp [HookState.initial, publishedThunks]
  distinct := by
    intro left right leftCtx rightCtx hleft
    contradiction

theorem SlabExact.publish {state : HookState} (hexact : SlabExact state)
    {shimAddr methodId : ℕ} {newPage : Option ℕ} {memory : Memory UInt8}
    {slab : Slab} {slot : SlotId} {ctx : HookCtx}
    (hslot : state.slots slot = none)
    (hemitted : Emitted shimAddr ⟨state.memory, state.pages⟩ newPage methodId
      ctx.thunkAddr slab) :
    SlabExact (publishSlot { state with memory := memory, pages := slab.pages }
      slot ctx) where
  pages := hemitted.pages
  used := by
    simp only [publishSlot]
    rw [publishedThunks_publish hslot, hemitted.used, hexact.used]
  distinct := by
    apply distinctThunks_publish hexact.distinct
    rw [← hexact.used]
    exact hemitted.fresh

/-- Giving the thunk back leaves the slab as it was before the call. -/
theorem SlabExact.rollBack {state : HookState} (hexact : SlabExact state)
    {shimAddr methodId addr : ℕ} {newPage : Option ℕ} {memory : Memory UInt8}
    {slab : Slab}
    (hemitted : Emitted shimAddr ⟨state.memory, state.pages⟩ newPage methodId
      addr slab) :
    SlabExact { state with
      memory := (freeThunk ⟨memory, slab.pages⟩ addr).memory
      pages := (freeThunk ⟨memory, slab.pages⟩ addr).pages } where
  pages := (freeThunk_used ⟨memory, slab.pages⟩ hemitted.pages
    hemitted.mem_used).1
  used := by
    calc
      usedSlots (freeThunk ⟨memory, slab.pages⟩ addr).pages =
          usedSlots slab.pages \ {addr} :=
        (freeThunk_used ⟨memory, slab.pages⟩ hemitted.pages hemitted.mem_used).2
      _ = insert addr (usedSlots state.pages) \ {addr} := by rw [hemitted.used]
      _ = usedSlots state.pages := Set.insert_sdiff_self_of_notMem hemitted.fresh
      _ = publishedThunks state.slots := hexact.used
  distinct := hexact.distinct

theorem SlabExact.mem_used {state : HookState} (hexact : SlabExact state)
    {slot : SlotId} {ctx : HookCtx} (hslot : state.slots slot = some ctx) :
    ctx.thunkAddr ∈ usedSlots state.pages := by
  rw [hexact.used]
  exact mem_publishedThunks hslot

theorem SlabExact.apart {state : HookState} (hexact : SlabExact state)
    {left right : SlotId} {leftCtx rightCtx : HookCtx}
    (hleft : state.slots left = some leftCtx)
    (hright : state.slots right = some rightCtx) (hne : left ≠ right) :
    Apart leftCtx.thunkAddr slotBytes rightCtx.thunkAddr slotBytes := by
  apply usedSlots_apart hexact.pages (hexact.mem_used hleft)
    (hexact.mem_used hright)
  intro hequal
  exact hne (hexact.distinct left right leftCtx rightCtx hleft hright hequal)

theorem SlabExact.withdraw {state : HookState} (hexact : SlabExact state)
    {slot : SlotId} {ctx : HookCtx} (hslot : state.slots slot = some ctx)
    (memory : Memory UInt8) (reentry : SlotId → Bool) :
    SlabExact
      { memory := (freeThunk ⟨memory, state.pages⟩ ctx.thunkAddr).memory
        pages := (freeThunk ⟨memory, state.pages⟩ ctx.thunkAddr).pages
        slots := Function.update state.slots slot none
        reentry := reentry } where
  pages := (freeThunk_used ⟨memory, state.pages⟩ hexact.pages
    (hexact.mem_used hslot)).1
  used := by
    rw [publishedThunks_withdraw hexact.distinct hslot, ← hexact.used]
    exact (freeThunk_used ⟨memory, state.pages⟩ hexact.pages
      (hexact.mem_used hslot)).2
  distinct := distinctThunks_withdraw hexact.distinct

/-- The slab page of a fresh installation meets none of the old ones. -/
theorem emitted_of_fresh {env : Env} {state : HookState} {allocs : Allocs}
    {method handlerFuncRef runtimeId methodId addr : ℕ} {slab : Slab}
    (hexact : SlabExact state)
    (hfresh : FreshAllocs state (.install allocs method handlerFuncRef runtimeId))
    (hemit : emitThunk env.shimAddr ⟨state.memory, state.pages⟩ allocs.page
      methodId = some (addr, slab)) :
    Emitted env.shimAddr ⟨state.memory, state.pages⟩ allocs.page methodId addr
      slab := by
  apply emitThunk_emitted hemit hexact.pages
  intro base hbase other hother
  exact ((hfresh.1 base hbase).1 other hother).symm

theorem slabExact_step (env : Env) (state : HookState) (op : HookOp)
    (next : HookState) (hexact : SlabExact state) (hfresh : FreshAllocs state op)
    (hstep : hookStep env state op = some next) : SlabExact next := by
  cases op with
  | install allocs method handlerFuncRef runtimeId =>
      obtain ⟨result, houtcome⟩ := hookStep_install hstep
      cases houtcome with
      | rejected error herror => exact hexact
      | rolledBack slot thunkAddr slab memory hemit hmemory =>
          exact hexact.rollBack (emitted_of_fresh hexact hfresh hemit)
      | published slot sig thunkAddr target slab memory patch hsig hslot hemit
          htarget hinstall =>
          exact hexact.publish hslot (emitted_of_fresh hexact hfresh hemit)
  | remove handle =>
      obtain ⟨result, houtcome⟩ := hookStep_remove hstep
      cases houtcome with
      | unknown hunknown => exact hexact
      | removed slot ctx hhandle hslot => exact hexact.withdraw hslot _ _

/-! ## The contents of the thunks -/

/-- Installing a detour outside the slab leaves the used slots alone. -/
theorem load_installed {platform : Platform} {memory next : Memory UInt8}
    {trampoline : Option ℕ} {target detour addr : ℕ} {result : Option Hook}
    {pages : List SlabPage}
    (hinstall : install platform memory trampoline target detour = (next, result))
    (htrampoline : ∀ base ∈ trampoline, ∀ other ∈ bases pages,
      Apart base pageBytes other pageBytes)
    (hpatch : ∀ hook ∈ result, ∀ base ∈ bases pages,
      Apart hook.target hook.originalBytes.length base pageBytes)
    (hused : addr ∈ usedSlots pages) :
    load next addr slotBytes = load memory addr slotBytes := by
  obtain ⟨written, hwritten, hresult⟩ := install_effect hinstall
  have hbefore : load written addr slotBytes = load memory addr slotBytes := by
    rcases hwritten with rfl | ⟨base, bytes, hbase, hlength, rfl⟩
    · rfl
    · apply load_store_of_apart
      apply (apart_used (htrampoline base hbase) hused).mono le_rfl _ le_rfl le_rfl
      simp only [pageBytes]
      omega
  rcases hresult with ⟨-, rfl⟩ | ⟨hook, stolen, rfl, hlong, -, rfl, hwidth, -, rfl⟩
  · exact hbefore
  · rw [load_store_of_apart, hbefore]
    rw [length_patchBytes _ hlong, ← hwidth]
    exact apart_used (hpatch hook rfl) hused

/-- So does writing its saved bytes back. -/
theorem load_removed {platform : Platform} {memory : Memory UInt8} {hook : Hook}
    {addr : ℕ} {pages : List SlabPage}
    (hpatch : ∀ base ∈ bases pages,
      Apart hook.target hook.originalBytes.length base pageBytes)
    (hused : addr ∈ usedSlots pages) :
    load (hook.remove platform memory) addr slotBytes =
      load memory addr slotBytes := by
  unfold Hook.remove
  split
  · rfl
  · split
    · apply load_store_of_apart
      exact apart_used hpatch hused
    · rfl

/-- The trampoline of a fresh installation lies outside the slab, also when the
same call has just extended the slab. -/
theorem trampoline_apart {shimAddr methodId addr : ℕ} {state : HookState}
    {allocs : Allocs} {method handlerFuncRef runtimeId : ℕ} {slab : Slab}
    (hfresh : FreshAllocs state (.install allocs method handlerFuncRef runtimeId))
    (hemitted : Emitted shimAddr ⟨state.memory, state.pages⟩ allocs.page methodId
      addr slab) :
    ∀ base ∈ allocs.trampoline, ∀ other ∈ bases slab.pages,
      Apart base pageBytes other pageBytes := by
  intro base hbase other hother
  obtain ⟨hunheld, hpage⟩ := hfresh.2 base hbase
  rcases hemitted.bases other hother with hold | hnew
  · exact hunheld.1 other hold
  · exact hpage other hnew

/-- The slab is exact, no patch lies inside it, and its thunks are as emitted. -/
structure SlabIntact (env : Env) (state : HookState) : Prop where
  slab : SlabExact state
  outside : PatchesOutside state
  encoded : ThunksEncoded env state

theorem thunksEncoded_rollBack {env : Env} {state : HookState}
    (hintact : SlabIntact env state) {methodId addr : ℕ} {newPage : Option ℕ}
    {memory : Memory UInt8} {slab : Slab}
    (hemitted : Emitted env.shimAddr ⟨state.memory, state.pages⟩ newPage methodId
      addr slab)
    (hkept : ∀ other ∈ usedSlots slab.pages,
      load memory other slotBytes = load slab.memory other slotBytes) :
    ThunksEncoded env { state with
      memory := (freeThunk ⟨memory, slab.pages⟩ addr).memory
      pages := (freeThunk ⟨memory, slab.pages⟩ addr).pages } := by
  intro slot ctx hslot
  have hold : ctx.thunkAddr ∈ usedSlots state.pages := hintact.slab.mem_used hslot
  have hused : ctx.thunkAddr ∈ usedSlots slab.pages := by
    rw [hemitted.used]
    exact Set.mem_insert_of_mem addr hold
  have hne : addr ≠ ctx.thunkAddr := by
    intro hequal
    rw [← hequal] at hold
    exact hemitted.fresh hold
  calc
    load (freeThunk ⟨memory, slab.pages⟩ addr).memory ctx.thunkAddr slotBytes =
        load memory ctx.thunkAddr slotBytes :=
      freeThunk_kept ⟨memory, slab.pages⟩ hemitted.pages hemitted.mem_used hused hne
    _ = load slab.memory ctx.thunkAddr slotBytes := hkept _ hused
    _ = load state.memory ctx.thunkAddr slotBytes := hemitted.kept _ hold
    _ = thunkBytes slot env.shimAddr := hintact.encoded slot ctx hslot

theorem thunksEncoded_publish {env : Env} {state : HookState}
    (hintact : SlabIntact env state) {newPage : Option ℕ} {memory : Memory UInt8}
    {slab : Slab} {slot : SlotId} {ctx : HookCtx}
    (hemitted : Emitted env.shimAddr ⟨state.memory, state.pages⟩ newPage slot
      ctx.thunkAddr slab)
    (hkept : ∀ other ∈ usedSlots slab.pages,
      load memory other slotBytes = load slab.memory other slotBytes) :
    ThunksEncoded env (publishSlot
      { state with memory := memory, pages := slab.pages } slot ctx) := by
  intro other otherCtx hother
  simp only [publishSlot] at hother ⊢
  rcases slots_of_published hother with ⟨hsame, rfl⟩ | ⟨-, hslot⟩
  · rw [hsame, hkept _ hemitted.mem_used, hemitted.written]
  · have hold : otherCtx.thunkAddr ∈ usedSlots state.pages :=
      hintact.slab.mem_used hslot
    have hused : otherCtx.thunkAddr ∈ usedSlots slab.pages := by
      rw [hemitted.used]
      exact Set.mem_insert_of_mem ctx.thunkAddr hold
    rw [hkept _ hused, hemitted.kept _ hold]
    exact hintact.encoded other otherCtx hslot

theorem thunksEncoded_withdraw {env : Env} {state : HookState}
    (hintact : SlabIntact env state) {slot : SlotId} {ctx : HookCtx}
    (hslot : state.slots slot = some ctx) (reentry : SlotId → Bool) :
    ThunksEncoded env
      { memory := (freeThunk ⟨ctx.patch.remove env.platform state.memory,
          state.pages⟩ ctx.thunkAddr).memory
        pages := (freeThunk ⟨ctx.patch.remove env.platform state.memory,
          state.pages⟩ ctx.thunkAddr).pages
        slots := Function.update state.slots slot none
        reentry := reentry } := by
  intro other otherCtx hother
  obtain ⟨hdiffers, hold⟩ := slots_of_withdrawn hother
  have hused : otherCtx.thunkAddr ∈ usedSlots state.pages :=
    hintact.slab.mem_used hold
  have hne : ctx.thunkAddr ≠ otherCtx.thunkAddr := by
    intro hequal
    exact hdiffers (hintact.slab.distinct other slot otherCtx ctx hold hslot
      hequal.symm)
  rw [freeThunk_kept _ hintact.slab.pages (hintact.slab.mem_used hslot) hused
    hne, load_removed (hintact.outside slot ctx hslot) hused]
  exact hintact.encoded other otherCtx hold

theorem thunksEncoded_step {env : Env} {state next : HookState} {op : HookOp}
    (hintact : SlabIntact env state) (hfresh : FreshAllocs state op)
    (houtside : PatchesOutside next) (hstep : hookStep env state op = some next) :
    ThunksEncoded env next := by
  cases op with
  | install allocs method handlerFuncRef runtimeId =>
      obtain ⟨result, houtcome⟩ := hookStep_install hstep
      cases houtcome with
      | rejected error herror => exact hintact.encoded
      | rolledBack slot thunkAddr slab memory hemit hmemory =>
          have hemitted := emitted_of_fresh hintact.slab hfresh hemit
          apply thunksEncoded_rollBack hintact hemitted
          intro other hused
          rcases hmemory with rfl | ⟨target, hinstall⟩
          · rfl
          · apply load_installed hinstall (trampoline_apart hfresh hemitted) _ hused
            intro hook hnone
            contradiction
      | published slot sig thunkAddr target slab memory patch hsig hslot hemit
          htarget hinstall =>
          have hemitted := emitted_of_fresh hintact.slab hfresh hemit
          apply thunksEncoded_publish hintact hemitted
          intro other hused
          apply load_installed hinstall (trampoline_apart hfresh hemitted) _ hused
          intro hook hhook
          cases hhook
          exact houtside slot _ (Function.update_self slot _ state.slots)
  | remove handle =>
      obtain ⟨result, houtcome⟩ := hookStep_remove hstep
      cases houtcome with
      | unknown hunknown => exact hintact.encoded
      | removed slot ctx hhandle hslot =>
          exact thunksEncoded_withdraw hintact hslot _

/-! ## Histories of calls -/

theorem slabIntact_initial (env : Env) (memory : Memory UInt8) :
    SlabIntact env (HookState.initial memory) where
  slab := slabExact_initial memory
  outside := by
    intro slot ctx hslot
    contradiction
  encoded := by
    intro slot ctx hslot
    contradiction

theorem slabIntact_step (env : Env) (state : HookState) (op : HookOp)
    (next : HookState) (hintact : SlabIntact env state)
    (hguard : FreshAllocs state op ∧ KeepsPatchesOutside env state op)
    (hstep : hookStep env state op = some next) : SlabIntact env next where
  slab := slabExact_step env state op next hintact.slab hguard.1 hstep
  outside := hguard.2 next hstep
  encoded := thunksEncoded_step hintact hguard.1 (hguard.2 next hstep) hstep

/-- In every state of every history with fresh allocations, whichever calls
succeed or fail, the thunks of the published slots are used slots of the slab,
disjoint from one another, and no other slot is used.  If moreover no call puts a
patch inside the slab, each thunk holds the code emitted for its slot. -/
theorem published_thunks_agree_with_slab (env : Env) (memory : Memory UInt8)
    (ops : List HookOp)
    (hfresh : Meets (hookStep env) FreshAllocs (HookState.initial memory) ops)
    (state : HookState)
    (hvisits : Visits (hookStep env) (HookState.initial memory) ops state) :
    (∀ slot ctx, state.slots slot = some ctx →
      ctx.thunkAddr ∈ usedSlots state.pages) ∧
    (∀ left right leftCtx rightCtx, state.slots left = some leftCtx →
      state.slots right = some rightCtx → left ≠ right →
        Apart leftCtx.thunkAddr slotBytes rightCtx.thunkAddr slotBytes) ∧
    usedSlots state.pages = publishedThunks state.slots ∧
    (Meets (hookStep env) (KeepsPatchesOutside env) (HookState.initial memory)
      ops → ThunksEncoded env state) := by
  have hexact : SlabExact state :=
    hfresh.invariant (slabExact_initial memory) (slabExact_step env) hvisits
  refine ⟨?_, ?_, hexact.used, ?_⟩
  · intro slot ctx hslot
    exact hexact.mem_used hslot
  · intro left right leftCtx rightCtx hleft hright hne
    exact hexact.apart hleft hright hne
  · intro houtside
    have hboth : Meets (hookStep env)
        (fun state op => FreshAllocs state op ∧ KeepsPatchesOutside env state op)
        (HookState.initial memory) ops := by
      intro taken op rest before hsplit hrun
      exact ⟨hfresh taken op rest before hsplit hrun,
        houtside taken op rest before hsplit hrun⟩
    have hintact : SlabIntact env state :=
      hboth.invariant (slabIntact_initial env memory) (slabIntact_step env) hvisits
    exact hintact.encoded

/-- One installation that succeeds and one that fails for want of a trampoline. -/
def sampleOps : List HookOp :=
  [sampleInstall 0, .install ⟨none, none⟩ 0x100 1 1]

theorem sample_thunk_agrees :
    ∃ state, Visits (hookStep sampleEnv) (HookState.initial sampleMemory)
        sampleOps state ∧ (state.slots 0).isSome ∧
      usedSlots state.pages = publishedThunks state.slots ∧
      ThunksEncoded sampleEnv state := by
  have hrun : (run (hookStep sampleEnv) (HookState.initial sampleMemory)
      sampleOps).map (fun state => (state.slots 0).isSome) = some true := by
    decide +kernel
  obtain ⟨state, hstate, hpublished⟩ := Option.map_eq_some_iff.mp hrun
  have hvisits := visits_end hstate
  obtain ⟨-, -, hused, hencoded⟩ := published_thunks_agree_with_slab sampleEnv
    sampleMemory sampleOps (by decide +kernel) state hvisits
  exact ⟨state, hvisits, hpublished, hused, hencoded (by decide +kernel)⟩

/-- The sample process with a second `MethodInfo`, at `0x300`, whose code pointer
is `0x100000`. -/
def slabMethodMemory : Memory UInt8 := fun address =>
  if 0x300 ≤ address ∧ address < 0x400 then
    if address = 0x30A then 0x10 else 0
  else sampleMemory address

/-- The second hook's patch replaces the thunk of the first. -/
theorem thunk_overwritten_by_hook_in_slab :
    Meets (hookStep sampleEnv) FreshAllocs (HookState.initial slabMethodMemory)
      [sampleInstall 0, .install ⟨none, some 0x201000⟩ 0x300 1 1] ∧
    ∃ state, Visits (hookStep sampleEnv) (HookState.initial slabMethodMemory)
        [sampleInstall 0, .install ⟨none, some 0x201000⟩ 0x300 1 1] state ∧
      ¬ ThunksEncoded sampleEnv state := by
  refine ⟨by decide +kernel, ?_⟩
  have hrun : (run (hookStep sampleEnv) (HookState.initial slabMethodMemory)
      [sampleInstall 0, .install ⟨none, some 0x201000⟩ 0x300 1 1]).map
        (fun state => (state.slots 0).map fun ctx =>
          decide (load state.memory ctx.thunkAddr slotBytes =
            thunkBytes 0 sampleEnv.shimAddr)) = some (some false) := by
    decide +kernel
  obtain ⟨state, hstate, hslot⟩ := Option.map_eq_some_iff.mp hrun
  obtain ⟨ctx, hctx, hdiffers⟩ := Option.map_eq_some_iff.mp hslot
  refine ⟨state, visits_end hstate, ?_⟩
  intro hencoded
  exact of_decide_eq_false hdiffers (hencoded 0 ctx hctx)

end FrogAgent.SlabAgreement
