import FrogAgent.Hook.OneHookPerMethod

/-!
# Restoring patched code

Each detour saves the bytes it finds and writes them back when it is removed.
Removing hooks therefore undoes installing them when overlapping hooks are taken
off in the reverse order of their installation.  Nothing in the code enforces
that order: `registry_reload` removes a runtime's hooks by ascending slot.
-/

namespace FrogAgent.CodeRestore

open FrogAgent.ByteMemory
open FrogAgent.InlineDetour
open FrogAgent.OneHookPerMethod
open FrogAgent.Run
open FrogAgent.Slots
open FrogAgent.Thunks

/-- The hook state with its published slots listed by installation, the most
recent first. -/
structure Tracked where
  state : HookState
  live : List SlotId

def Tracked.initial (memory : Memory UInt8) : Tracked :=
  ⟨HookState.initial memory, []⟩

def trackStep (env : Env) (tracked : Tracked) : HookOp → Option Tracked
  | .install allocs method handlerFuncRef runtimeId =>
      match installHook env allocs tracked.state method handlerFuncRef
          runtimeId with
      | (state, .ok slot) => some ⟨state, slot :: tracked.live⟩
      | (state, .error _) => some ⟨state, tracked.live⟩
  | .remove handle =>
      match removeHook env tracked.state handle with
      | (state, .ok _) =>
          some ⟨state, tracked.live.filter fun slot => slot.val ≠ handle⟩
      | (state, .error _) => some ⟨state, tracked.live⟩

/-- Tracking only adds the list: the state moves by `install_hook` and
`remove_hook` alone. -/
theorem trackStep_state (env : Env) (tracked : Tracked) (op : HookOp) :
    (trackStep env tracked op).map Tracked.state =
      hookStep env tracked.state op := by
  cases op with
  | install allocs method handlerFuncRef runtimeId =>
      simp only [trackStep, hookStep]
      rcases installHook env allocs tracked.state method handlerFuncRef
        runtimeId with ⟨state, result⟩
      cases result <;> rfl
  | remove handle =>
      simp only [trackStep, hookStep]
      rcases removeHook env tracked.state handle with ⟨state, result⟩
      cases result <;> rfl

/-- Code bytes outside the patches of live hooks hold their original value. -/
def CodeIntact (code : Set ℕ) (original : Memory UInt8) (state : HookState) :
    Prop :=
  ∀ address ∈ code,
    (∀ slot ctx, state.slots slot = some ctx →
      ¬ ctx.patch.saved.Covers address) →
    state.memory address = original address

/-- `VirtualAlloc` hands out pages that hold no code. -/
def AllocsAvoid (code : Set ℕ) : HookOp → Prop
  | .install allocs _ _ _ =>
      (∀ base ∈ allocs.page, Avoids code base pageBytes) ∧
        ∀ base ∈ allocs.trampoline, Avoids code base pageBytes
  | .remove _ => True

/-- A hook is removed only when no hook installed after it and still live
overlaps its patch. -/
def RemovesNested (tracked : Tracked) : HookOp → Prop
  | .install _ _ _ _ => True
  | .remove handle =>
      ∀ later slot earlier ctx, tracked.live = later ++ slot :: earlier →
        slot.val = handle → tracked.state.slots slot = some ctx →
          ∀ other ∈ later, ∀ otherCtx, tracked.state.slots other = some otherCtx →
            otherCtx.patch.saved.Disjoint ctx.patch.saved

/-! ## Unwinding the live hooks -/

/-- The saved bytes of the slots listed, in list order. -/
def savedPatches (slots : SlotId → Option HookCtx) (live : List SlotId) :
    List (Patch UInt8) :=
  live.filterMap fun slot => (slots slot).map fun ctx => ctx.patch.saved

/-- The invariant behind nested removal: writing back all saved bytes, most
recent hook first, yields the original code. -/
structure Layered (env : Env) (code : Set ℕ) (original : Memory UInt8)
    (tracked : Tracked) : Prop where
  pages : PagesAvoid code tracked.state.pages
  thunks : ∀ slot ctx, tracked.state.slots slot = some ctx →
    Avoids code ctx.thunkAddr slotBytes
  protects : ∀ slot ctx, tracked.state.slots slot = some ctx →
    ctx.patch.target ≠ 0 ∧
      env.platform.protect ctx.patch.target
        ctx.patch.originalBytes.length = true
  nodup : tracked.live.Nodup
  live : ∀ slot, slot ∈ tracked.live ↔ (tracked.state.slots slot).isSome
  unwound : AgreeOn code
    (storeAll tracked.state.memory
      (savedPatches tracked.state.slots tracked.live)) original

theorem savedPatches_update_of_not_mem {slots : SlotId → Option HookCtx}
    {live : List SlotId} {slot : SlotId} (value : Option HookCtx)
    (habsent : slot ∉ live) :
    savedPatches (Function.update slots slot value) live =
      savedPatches slots live := by
  apply List.filterMap_congr
  intro other hother
  rw [Function.update_of_ne]
  rintro rfl
  exact habsent hother

theorem savedPatches_append (slots : SlotId → Option HookCtx)
    (later earlier : List SlotId) :
    savedPatches slots (later ++ earlier) =
      savedPatches slots later ++ savedPatches slots earlier :=
  List.filterMap_append

theorem savedPatches_cons {slots : SlotId → Option HookCtx} {slot : SlotId}
    {ctx : HookCtx} (hslot : slots slot = some ctx) (earlier : List SlotId) :
    savedPatches slots (slot :: earlier) =
      ctx.patch.saved :: savedPatches slots earlier := by
  simp [savedPatches, hslot]

theorem layered_initial (env : Env) (code : Set ℕ) (memory : Memory UInt8) :
    Layered env code memory (Tracked.initial memory) where
  pages := by simp [Tracked.initial, HookState.initial, PagesAvoid]
  thunks := by simp [Tracked.initial, HookState.initial]
  protects := by simp [Tracked.initial, HookState.initial]
  nodup := List.nodup_nil
  live := by simp [Tracked.initial, HookState.initial]
  unwound := fun _ _ => rfl

/-- An invariant state yields intact code: unwinding does not reach the bytes
outside the live patches. -/
theorem Layered.codeIntact {env : Env} {code : Set ℕ}
    {original : Memory UInt8} {tracked : Tracked}
    (hlayered : Layered env code original tracked) :
    CodeIntact code original tracked.state := by
  intro address hcode houtside
  rw [← hlayered.unwound address hcode]
  symm
  apply storeAll_of_not_covers
  intro patch hpatch
  simp only [savedPatches, List.mem_filterMap, Option.map_eq_some_iff] at hpatch
  obtain ⟨slot, -, ctx, hslot, rfl⟩ := hpatch
  exact houtside slot ctx hslot

/-- Changing memory outside the code, and the pages, keeps the invariant. -/
theorem Layered.frame {env : Env} {code : Set ℕ} {original : Memory UInt8}
    {tracked : Tracked} (hlayered : Layered env code original tracked)
    {memory : Memory UInt8} {pages : List SlabPage}
    (hmemory : AgreeOn code memory tracked.state.memory)
    (hpages : PagesAvoid code pages) :
    Layered env code original
      ⟨{ tracked.state with memory := memory, pages := pages },
        tracked.live⟩ where
  pages := hpages
  thunks := hlayered.thunks
  protects := hlayered.protects
  nodup := hlayered.nodup
  live := hlayered.live
  unwound := (hmemory.storeAll _).trans hlayered.unwound

/-- The trampoline buffer of an installation holds no code. -/
theorem install_written_agreeOn {code : Set ℕ} {memory written : Memory UInt8}
    {trampoline : Option ℕ}
    (havoids : ∀ base ∈ trampoline, Avoids code base pageBytes)
    (hwritten : written = memory ∨ ∃ base bytes, trampoline = some base ∧
      bytes.length ≤ 46 ∧ written = store memory ⟨base, bytes⟩) :
    AgreeOn code written memory := by
  rcases hwritten with rfl | ⟨base, bytes, hbase, hlength, rfl⟩
  · exact fun _ _ => rfl
  · apply store_agreeOn_of_avoids
    apply (havoids base hbase).mono le_rfl
    simp only [pageBytes]
    omega

/-- Publishing a hook on top of the live ones keeps the invariant. -/
theorem Layered.publish {env : Env} {code : Set ℕ} {original : Memory UInt8}
    {tracked : Tracked} (hlayered : Layered env code original tracked)
    {slot : SlotId} {ctx : HookCtx} {written : Memory UInt8}
    {patch : Patch UInt8} (hslot : tracked.state.slots slot = none)
    (hwritten : AgreeOn code written tracked.state.memory)
    (hsaved : ctx.patch.saved =
      ⟨patch.start, load written patch.start patch.cells.length⟩)
    (hthunk : Avoids code ctx.thunkAddr slotBytes)
    (htarget : ctx.patch.target ≠ 0)
    (hprotect : env.platform.protect ctx.patch.target
      ctx.patch.originalBytes.length = true)
    {pages : List SlabPage} (hpages : PagesAvoid code pages) :
    Layered env code original
      ⟨publishSlot { tracked.state with
          memory := store written patch, pages := pages } slot ctx,
        slot :: tracked.live⟩ where
  pages := hpages
  thunks := by
    intro other otherCtx hother
    rcases slots_of_published hother with ⟨-, rfl⟩ | ⟨-, hold⟩
    · exact hthunk
    · exact hlayered.thunks other otherCtx hold
  protects := by
    intro other otherCtx hother
    rcases slots_of_published hother with ⟨-, rfl⟩ | ⟨-, hold⟩
    · exact ⟨htarget, hprotect⟩
    · exact hlayered.protects other otherCtx hold
  nodup := by
    refine List.nodup_cons.mpr ⟨?_, hlayered.nodup⟩
    rw [hlayered.live slot, hslot]
    simp
  live := by
    intro other
    simp only [publishSlot, Function.update_apply, List.mem_cons]
    by_cases hother : other = slot
    · simp [hother]
    · simp [hother, hlayered.live other]
  unwound := by
    have habsent : slot ∉ tracked.live := by
      rw [hlayered.live slot, hslot]
      simp
    have hpatches : savedPatches (Function.update tracked.state.slots slot
        (some ctx)) (slot :: tracked.live) =
          ctx.patch.saved :: savedPatches tracked.state.slots tracked.live := by
      rw [← savedPatches_update_of_not_mem (some ctx) habsent]
      exact savedPatches_cons (by rw [Function.update_self]) tracked.live
    simp only [publishSlot, hpatches, storeAll_cons, hsaved]
    rw [store_store_load written patch rfl]
    exact (hwritten.storeAll _).trans hlayered.unwound

/-- Filtering out a slot that is listed once cuts it out. -/
theorem filter_withdrawn {later earlier : List SlotId} {slot : SlotId}
    (hlater : slot ∉ later) (hearlier : slot ∉ earlier) :
    (later ++ slot :: earlier).filter (fun other => other.val ≠ slot.val) =
      later ++ earlier := by
  have hkeep : ∀ slots : List SlotId, slot ∉ slots →
      slots.filter (fun other => other.val ≠ slot.val) = slots := by
    intro slots habsent
    rw [List.filter_eq_self]
    intro other hother
    have hne : other.val ≠ slot.val := by
      intro hequal
      rw [Fin.ext hequal] at hother
      exact habsent hother
    simpa using hne
  rw [List.filter_append, List.filter_cons, hkeep later hlater,
    hkeep earlier hearlier]
  simp

/-- Removing a hook that no later live hook overlaps keeps the invariant. -/
theorem Layered.withdraw {env : Env} {code : Set ℕ} {original : Memory UInt8}
    {tracked : Tracked} (hlayered : Layered env code original tracked)
    {slot : SlotId} {ctx : HookCtx}
    (hslot : tracked.state.slots slot = some ctx)
    (hnested : ∀ later earlier, tracked.live = later ++ slot :: earlier →
      ∀ other ∈ later, ∀ otherCtx,
        tracked.state.slots other = some otherCtx →
          otherCtx.patch.saved.Disjoint ctx.patch.saved)
    (reentry : SlotId → Bool) :
    Layered env code original
      ⟨⟨store tracked.state.memory ctx.patch.saved, tracked.state.pages,
          Function.update tracked.state.slots slot none, reentry⟩,
        tracked.live.filter fun other => other.val ≠ slot.val⟩ where
  pages := hlayered.pages
  thunks := by
    intro other otherCtx hother
    exact hlayered.thunks other otherCtx (slots_of_withdrawn hother).2
  protects := by
    intro other otherCtx hother
    exact hlayered.protects other otherCtx (slots_of_withdrawn hother).2
  nodup := hlayered.nodup.filter _
  live := by
    intro other
    simp only [List.mem_filter, Function.update_apply, hlayered.live other]
    by_cases hother : other = slot
    · simp [hother]
    · have hval : other.val ≠ slot.val := fun hequal => hother (Fin.ext hequal)
      simp [hother, hval]
  unwound := by
    have hmem : slot ∈ tracked.live := by
      rw [hlayered.live slot, hslot]
      rfl
    obtain ⟨later, earlier, hsplit⟩ := List.append_of_mem hmem
    have hdisjoint := hnested later earlier hsplit
    have hnodup := hlayered.nodup
    have hunwound := hlayered.unwound
    rw [hsplit] at hnodup hunwound ⊢
    have hlater : slot ∉ later := fun hin =>
      (List.nodup_append.mp hnodup).2.2 slot hin slot List.mem_cons_self rfl
    have hearlier : slot ∉ earlier :=
      (List.nodup_cons.mp (List.nodup_append.mp hnodup).2.1).1
    rw [filter_withdrawn hlater hearlier, savedPatches_update_of_not_mem none
      (by simp [hlater, hearlier]), savedPatches_append]
    rw [savedPatches_append, savedPatches_cons hslot, storeAll_pull] at hunwound
    · exact hunwound
    · intro patch hpatch
      simp only [savedPatches, List.mem_filterMap,
        Option.map_eq_some_iff] at hpatch
      obtain ⟨other, hother, otherCtx, hotherSlot, rfl⟩ := hpatch
      exact hdisjoint other hother otherCtx hotherSlot

theorem methodPointer_ne_zero {env : Env} {memory : Memory UInt8}
    {method target : ℕ}
    (htarget : methodPointer env.internals memory method = some target) :
    target ≠ 0 := by
  simp only [methodPointer, Option.bind_eq_bind, Option.bind_eq_some_iff,
    Option.ite_none_right_eq_some, Option.some.injEq] at htarget
  obtain ⟨cfg, -, ptr, -, hne, rfl⟩ := htarget
  exact hne

theorem layered_install {env : Env} {code : Set ℕ} {original : Memory UInt8}
    {tracked next : Tracked} {allocs : Allocs}
    {method handlerFuncRef runtimeId : ℕ}
    (hlayered : Layered env code original tracked)
    (hallocs : AllocsAvoid code
      (.install allocs method handlerFuncRef runtimeId))
    (hstep : trackStep env tracked
      (.install allocs method handlerFuncRef runtimeId) = some next) :
    Layered env code original next := by
  have houtcome := installHook_outcome env allocs tracked.state method
    handlerFuncRef runtimeId
  rw [trackStep] at hstep
  generalize installHook env allocs tracked.state method handlerFuncRef
    runtimeId = result at houtcome hstep
  cases houtcome with
  | rejected error herror =>
      cases hstep
      exact hlayered
  | rolledBack slot thunkAddr slab memory hemit hmemory =>
      cases hstep
      obtain ⟨hslot, hpages, hemitted⟩ :=
        emitThunk_avoids hemit hlayered.pages hallocs.1
      have hagree : AgreeOn code memory tracked.state.memory := by
        rcases hmemory with rfl | ⟨target, hinstall⟩
        · exact hemitted
        · obtain ⟨written, hwritten, hresult⟩ := install_effect hinstall
          rcases hresult with ⟨-, rfl⟩ | ⟨hook, stolen, hnone, -⟩
          · exact (install_written_agreeOn hallocs.2 hwritten).trans hemitted
          · contradiction
      obtain ⟨hfreePages, hfreeMemory⟩ :=
        freeThunk_avoids ⟨memory, slab.pages⟩ hslot hpages
      exact hlayered.frame (hfreeMemory.trans hagree) hfreePages
  | published slot sig thunkAddr target slab memory patch hsig hslot hemit
      htarget hinstall =>
      cases hstep
      obtain ⟨hthunk, hpages, hemitted⟩ :=
        emitThunk_avoids hemit hlayered.pages hallocs.1
      obtain ⟨written, hwritten, hresult⟩ := install_effect hinstall
      rcases hresult with ⟨hnone, -⟩ | ⟨hook, stolen, hhook, hstolen, hsaved,
        hhookTarget, hlength, hprotect, rfl⟩
      · contradiction
      cases hhook
      have hagree := (install_written_agreeOn hallocs.2 hwritten).trans hemitted
      have hpatchLength := length_patchBytes thunkAddr hstolen
      refine hlayered.publish hslot hagree ?_ hthunk ?_ ?_ hpages
      · simpa only [hpatchLength] using hsaved
      · simpa only [hhookTarget] using methodPointer_ne_zero htarget
      · simpa only [hhookTarget, hlength] using hprotect

theorem layered_remove {env : Env} {code : Set ℕ} {original : Memory UInt8}
    {tracked next : Tracked} {handle : ℕ}
    (hlayered : Layered env code original tracked)
    (hnested : RemovesNested tracked (.remove handle))
    (hstep : trackStep env tracked (.remove handle) = some next) :
    Layered env code original next := by
  have houtcome := removeHook_outcome env tracked.state handle
  rw [trackStep] at hstep
  generalize removeHook env tracked.state handle = result at houtcome hstep
  cases houtcome with
  | unknown hunknown =>
      cases hstep
      exact hlayered
  | removed slot ctx hhandle hslot =>
      cases hstep
      subst hhandle
      obtain ⟨htarget, hprotect⟩ := hlayered.protects slot ctx hslot
      have hremove : ctx.patch.remove env.platform tracked.state.memory =
          store tracked.state.memory ctx.patch.saved := by
        rw [Hook.remove, if_neg htarget, if_pos hprotect]
      rw [hremove]
      have hwithdrawn := hlayered.withdraw hslot
        (fun later earlier hsplit =>
          hnested later slot earlier ctx hsplit rfl hslot)
        (Function.update tracked.state.reentry slot false)
      obtain ⟨hpages, hmemory⟩ := freeThunk_avoids
        ⟨store tracked.state.memory ctx.patch.saved, tracked.state.pages⟩
        (hlayered.thunks slot ctx hslot) hlayered.pages
      exact hwithdrawn.frame hmemory hpages

theorem layered_step {env : Env} {code : Set ℕ} {original : Memory UInt8}
    (tracked : Tracked) (op : HookOp) (next : Tracked)
    (hlayered : Layered env code original tracked)
    (hguard : AllocsAvoid code op ∧ RemovesNested tracked op)
    (hstep : trackStep env tracked op = some next) :
    Layered env code original next := by
  cases op with
  | install allocs method handlerFuncRef runtimeId =>
      exact layered_install hlayered hguard.1 hstep
  | remove handle => exact layered_remove hlayered hguard.2 hstep

/-- Along every history in which a hook is removed only while no later
installed live hook overlaps it, the code outside live patches is original in
every state; without live hooks all of it is. -/
theorem codeIntact_of_nested_removals (env : Env) (code : Set ℕ)
    (original : Memory UInt8) (ops : List HookOp)
    (hallocs : ∀ op ∈ ops, AllocsAvoid code op)
    (hnested : Meets (trackStep env) RemovesNested
      (Tracked.initial original) ops)
    (tracked : Tracked)
    (hvisits : Visits (trackStep env) (Tracked.initial original) ops tracked) :
    CodeIntact code original tracked.state ∧
      ((∀ slot, tracked.state.slots slot = none) →
        ∀ address ∈ code, tracked.state.memory address = original address) := by
  have hguards : Meets (trackStep env)
      (fun tracked op => AllocsAvoid code op ∧ RemovesNested tracked op)
      (Tracked.initial original) ops := by
    intro taken op rest state hsplit hrun
    refine ⟨hallocs op ?_, hnested taken op rest state hsplit hrun⟩
    rw [hsplit]
    simp
  have hintact : CodeIntact code original tracked.state :=
    (hguards.invariant (layered_initial env code original) layered_step
      hvisits).codeIntact
  refine ⟨hintact, fun hempty address hcode => hintact address hcode ?_⟩
  intro slot ctx hslot
  rw [hempty slot] at hslot
  contradiction

/-- The code of the sample method. -/
def sampleCode : Set ℕ := {address | 0x1000 ≤ address ∧ address < 0x1020}

theorem allocsAvoid_sampleInstall_zero :
    AllocsAvoid sampleCode (sampleInstall 0) := by
  constructor
  · rintro base ⟨⟩ address hlow hhigh ⟨-, hcode⟩
    omega
  · rintro base ⟨⟩ address hlow hhigh ⟨-, hcode⟩
    omega

/-- One hook on the sample method, installed and removed. -/
theorem codeIntact_install_remove :
    ∃ tracked, run (trackStep sampleEnv) (Tracked.initial sampleMemory)
        [sampleInstall 0, .remove 0] = some tracked ∧
      CodeIntact sampleCode sampleMemory tracked.state := by
  have hlive : (run (trackStep sampleEnv) (Tracked.initial sampleMemory)
      [sampleInstall 0]).map Tracked.live = some [0] := by
    decide +kernel
  have hdone : (run (trackStep sampleEnv) (Tracked.initial sampleMemory)
      [sampleInstall 0, .remove 0]).isSome = true := by
    decide +kernel
  obtain ⟨tracked, hrun⟩ := Option.isSome_iff_exists.mp hdone
  refine ⟨tracked, hrun, (codeIntact_of_nested_removals sampleEnv sampleCode
    sampleMemory [sampleInstall 0, .remove 0] ?_ ?_ tracked
    (visits_end hrun)).1⟩
  · intro op hop
    rcases List.mem_cons.mp hop with rfl | hop
    · exact allocsAvoid_sampleInstall_zero
    · rw [List.mem_singleton] at hop
      subst hop
      trivial
  · refine meets_cons trivial fun first hfirst => meets_cons ?_ fun second _ =>
      meets_nil second
    intro later slot earlier ctx hsplit _ _ other hother
    rw [run_cons, hfirst] at hlive
    have hfirstLive : first.live = [0] := by simpa using hlive
    rw [hfirstLive] at hsplit
    cases later with
    | nil => simp at hother
    | cons head tail => simp at hsplit

/-- Two hooks on the sample method, removed in ascending slot order as a reload
does: the second removal writes the first hook's jump back into the code. -/
theorem not_codeIntact_ascending_removal :
    ∃ tracked, run (trackStep sampleEnv) (Tracked.initial sampleMemory)
        [sampleInstall 0, sampleInstall 1, .remove 0, .remove 1] =
          some tracked ∧
      (∀ slot, tracked.state.slots slot = none) ∧
      ¬ CodeIntact sampleCode sampleMemory tracked.state := by
  have hevaluated : (run (trackStep sampleEnv) (Tracked.initial sampleMemory)
      [sampleInstall 0, sampleInstall 1, .remove 0, .remove 1]).map
        (fun tracked => (decide (∀ slot, tracked.state.slots slot = none),
          tracked.state.memory 0x1000)) = some (true, 0x48) := by
    decide +kernel
  obtain ⟨tracked, hrun, hvalues⟩ := Option.map_eq_some_iff.mp hevaluated
  simp only [Prod.mk.injEq, decide_eq_true_eq] at hvalues
  obtain ⟨hempty, hbyte⟩ := hvalues
  refine ⟨tracked, hrun, hempty, fun hintact => ?_⟩
  have horiginal : tracked.state.memory 0x1000 = sampleMemory 0x1000 := by
    apply hintact 0x1000 (by simp [sampleCode])
    intro slot ctx hslot
    simp [hempty slot] at hslot
  rw [hbyte] at horiginal
  revert horiginal
  decide

end FrogAgent.CodeRestore
