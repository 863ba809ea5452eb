import FrogAgent.Hook.InlineDetour
import FrogAgent.Hook.Signature
import FrogAgent.Hook.Thunks
import Mathlib.Data.List.FinRange

/-!
# Hook slots, installation and removal

`hook_runtime/registry.rs` and the install/remove half of `hook_runtime/api.rs`.
A slot is published when it holds a context; `SLOT_VALID` and `HOOK_SLOTS` are
one optional context per slot.  Both operations run under `INSTALL_GUARD`, so a
history of calls is a sequence of transitions of the state below.
-/

namespace FrogAgent.Slots

open FrogAgent.ByteMemory
open FrogAgent.Error
open FrogAgent.InlineDetour
open FrogAgent.Signature
open FrogAgent.Thunks

def maxHooks : ℕ := 256

instance : NeZero maxHooks := ⟨by decide⟩

abbrev SlotId := Fin maxHooks

structure HookCtx where
  method : ℕ
  sig : MethodSignature
  thunkAddr : ℕ
  patch : Hook
  handlerFuncRef : ℕ
  runtimeId : ℕ
  deriving DecidableEq

/-- Everything `install_hook` and `remove_hook` change. -/
structure HookState where
  memory : Memory UInt8
  pages : List SlabPage
  slots : SlotId → Option HookCtx
  reentry : SlotId → Bool

/-- A process that has never installed a hook. -/
def HookState.initial (memory : Memory UInt8) : HookState :=
  ⟨memory, [], fun _ => none, fun _ => false⟩

/-- Process-wide parameters of the hook runtime. -/
structure Env where
  internals : Internals
  platform : Platform
  shimAddr : ℕ

/-- The answers of `VirtualAlloc` during one installation: a slab page, should
one be needed, and the trampoline buffer. -/
structure Allocs where
  page : Option ℕ
  trampoline : Option ℕ

def ctxFor (state : HookState) (methodId : ℕ) : Option HookCtx :=
  if hid : methodId < maxHooks then state.slots ⟨methodId, hid⟩ else none

/-- The slot search of `call_original_now`: the context of the first published
slot whose method is the one of the current hook. -/
def findByMethod (state : HookState) (method : ℕ) : Option HookCtx :=
  (List.finRange maxHooks).findSome? fun slot =>
    (state.slots slot).filter fun ctx => ctx.method = method

/-- The first unpublished slot. -/
def allocSlot (state : HookState) : Option SlotId :=
  (List.finRange maxHooks).find? fun slot => (state.slots slot).isNone

def publishSlot (state : HookState) (slot : SlotId) (ctx : HookCtx) :
    HookState :=
  { state with slots := Function.update state.slots slot (some ctx) }

/-- Unpublish a slot: its context is dropped, which removes the detour, and its
reentry flag is cleared. -/
def unpublishSlot (platform : Platform) (state : HookState) (slot : SlotId)
    (ctx : HookCtx) : HookState where
  memory := ctx.patch.remove platform state.memory
  pages := state.pages
  slots := Function.update state.slots slot none
  reentry := Function.update state.reentry slot false

/-- The code address stored in a `MethodInfo`, if readable and not null. -/
def methodPointer (internals : Internals) (memory : Memory UInt8)
    (method : ℕ) : Option ℕ := do
  let cfg ← internals.ctx
  let ptr ← cacheRead internals memory 8 (method + cfg.methodPointerOff)
  if ptr ≠ 0 then some ptr else none

/-- Steps 2 to 6 of `install_hook`.  The bookkeeping call `record_hook` that
follows belongs to the runtime registry. -/
def installHook (env : Env) (allocs : Allocs) (state : HookState)
    (method handlerFuncRef runtimeId : ℕ) :
    HookState × Except HookError SlotId :=
  match readSignature env.internals state.memory method with
  | .error _ => (state, .error .methodNotHookable)
  | .ok sig =>
      match allocSlot state with
      | none => (state, .error .slotPoolExhausted)
      | some slot =>
          match emitThunk env.shimAddr ⟨state.memory, state.pages⟩ allocs.page
              slot with
          | none => (state, .error .patchFailed)
          | some (thunkAddr, slab) =>
              match methodPointer env.internals slab.memory method with
              | none =>
                  let freed := freeThunk slab thunkAddr
                  ({ state with memory := freed.memory, pages := freed.pages },
                    .error .patchFailed)
              | some target =>
                  match install env.platform slab.memory allocs.trampoline
                      target thunkAddr with
                  | (memory, none) =>
                      let freed := freeThunk ⟨memory, slab.pages⟩ thunkAddr
                      ({ state with
                          memory := freed.memory, pages := freed.pages },
                        .error .patchFailed)
                  | (memory, some patch) =>
                      (publishSlot
                        { state with memory := memory, pages := slab.pages }
                        slot ⟨method, sig, thunkAddr, patch, handlerFuncRef,
                          runtimeId⟩,
                        .ok slot)

/-- `remove_hook`: drop the context of a published slot, then free its thunk. -/
def removeHook (env : Env) (state : HookState) (handle : ℕ) :
    HookState × Except HookError Unit :=
  if hid : handle < maxHooks then
    match state.slots ⟨handle, hid⟩ with
    | none => (state, .error .unknownHandle)
    | some ctx =>
        let unpublished := unpublishSlot env.platform state ⟨handle, hid⟩ ctx
        let freed := freeThunk ⟨unpublished.memory, unpublished.pages⟩
          ctx.thunkAddr
        ({ unpublished with memory := freed.memory, pages := freed.pages },
          .ok ())
  else (state, .error .unknownHandle)

/-! ## What the two operations can do -/

/-- The three ways an installation ends: it is rejected before anything is
allocated, it gives its thunk back, or it publishes a slot. -/
inductive InstallOutcome (env : Env) (allocs : Allocs) (state : HookState)
    (method handlerFuncRef runtimeId : ℕ) :
    HookState × Except HookError SlotId → Prop where
  | rejected (error : HookError) (herror : error ≠ .alreadyHooked) :
      InstallOutcome env allocs state method handlerFuncRef runtimeId
        (state, .error error)
  | rolledBack (slot : SlotId) (thunkAddr : ℕ) (slab : Slab)
      (memory : Memory UInt8)
      (hemit : emitThunk env.shimAddr ⟨state.memory, state.pages⟩ allocs.page
        slot = some (thunkAddr, slab))
      (hmemory : memory = slab.memory ∨ ∃ target,
        install env.platform slab.memory allocs.trampoline target thunkAddr =
          (memory, none)) :
      InstallOutcome env allocs state method handlerFuncRef runtimeId
        ({ state with
            memory := (freeThunk ⟨memory, slab.pages⟩ thunkAddr).memory
            pages := (freeThunk ⟨memory, slab.pages⟩ thunkAddr).pages },
          .error .patchFailed)
  | published (slot : SlotId) (sig : MethodSignature) (thunkAddr target : ℕ)
      (slab : Slab) (memory : Memory UInt8) (patch : Hook)
      (hsig : readSignature env.internals state.memory method = .ok sig)
      (hslot : state.slots slot = none)
      (hemit : emitThunk env.shimAddr ⟨state.memory, state.pages⟩ allocs.page
        slot = some (thunkAddr, slab))
      (htarget : methodPointer env.internals slab.memory method = some target)
      (hinstall : install env.platform slab.memory allocs.trampoline target
        thunkAddr = (memory, some patch)) :
      InstallOutcome env allocs state method handlerFuncRef runtimeId
        (publishSlot { state with memory := memory, pages := slab.pages } slot
          ⟨method, sig, thunkAddr, patch, handlerFuncRef, runtimeId⟩, .ok slot)

theorem allocSlot_eq_some {state : HookState} {slot : SlotId}
    (hslot : allocSlot state = some slot) : state.slots slot = none := by
  have hfound := List.find?_some hslot
  simpa using hfound

theorem installHook_outcome (env : Env) (allocs : Allocs) (state : HookState)
    (method handlerFuncRef runtimeId : ℕ) :
    InstallOutcome env allocs state method handlerFuncRef runtimeId
      (installHook env allocs state method handlerFuncRef runtimeId) := by
  unfold installHook
  cases hsig : readSignature env.internals state.memory method with
  | error _ => exact .rejected .methodNotHookable (by decide)
  | ok sig =>
      cases hslot : allocSlot state with
      | none =>
          dsimp only
          exact .rejected .slotPoolExhausted (by decide)
      | some slot =>
          dsimp only
          cases hemit : emitThunk env.shimAddr ⟨state.memory, state.pages⟩
              allocs.page slot with
          | none =>
              dsimp only
              exact .rejected .patchFailed (by decide)
          | some emitted =>
              obtain ⟨thunkAddr, slab⟩ := emitted
              dsimp only
              cases htarget : methodPointer env.internals slab.memory method with
              | none =>
                  dsimp only
                  exact .rolledBack slot thunkAddr slab slab.memory hemit
                    (Or.inl rfl)
              | some target =>
                  dsimp only
                  rcases hinstall : install env.platform slab.memory
                    allocs.trampoline target thunkAddr with ⟨memory, patch⟩
                  cases patch with
                  | none =>
                      dsimp only
                      exact .rolledBack slot thunkAddr slab memory hemit
                        (Or.inr ⟨target, hinstall⟩)
                  | some patch =>
                      dsimp only
                      exact .published slot sig thunkAddr target slab memory
                        patch hsig (allocSlot_eq_some hslot) hemit htarget
                        hinstall

/-- The two ways a removal ends. -/
inductive RemoveOutcome (env : Env) (state : HookState) (handle : ℕ) :
    HookState × Except HookError Unit → Prop where
  | unknown (hunknown : ctxFor state handle = none) :
      RemoveOutcome env state handle (state, .error .unknownHandle)
  | removed (slot : SlotId) (ctx : HookCtx) (hhandle : slot.val = handle)
      (hslot : state.slots slot = some ctx) :
      RemoveOutcome env state handle
        ({ memory := (freeThunk ⟨ctx.patch.remove env.platform state.memory,
              state.pages⟩ ctx.thunkAddr).memory
           pages := (freeThunk ⟨ctx.patch.remove env.platform state.memory,
              state.pages⟩ ctx.thunkAddr).pages
           slots := Function.update state.slots slot none
           reentry := Function.update state.reentry slot false },
          .ok ())

theorem removeHook_outcome (env : Env) (state : HookState) (handle : ℕ) :
    RemoveOutcome env state handle (removeHook env state handle) := by
  unfold removeHook
  split
  · rename_i hid
    cases hslot : state.slots ⟨handle, hid⟩ with
    | none => exact .unknown (by simp [ctxFor, hid, hslot])
    | some ctx => exact .removed ⟨handle, hid⟩ ctx rfl hslot
  · rename_i hid
    exact .unknown (by simp [ctxFor, hid])

/-- The slot table after an installation: unchanged on an error, and one free
slot filled on success. -/
theorem installHook_slots (env : Env) (allocs : Allocs) (state : HookState)
    (method handlerFuncRef runtimeId : ℕ) :
    let result := installHook env allocs state method handlerFuncRef runtimeId
    ((∃ error, result.2 = .error error) ∧ result.1.slots = state.slots) ∨
      ∃ slot ctx, result.2 = .ok slot ∧ state.slots slot = none ∧
        result.1.slots = Function.update state.slots slot (some ctx) ∧
        ctx.runtimeId = runtimeId := by
  have houtcome := installHook_outcome env allocs state method
    handlerFuncRef runtimeId
  generalize installHook env allocs state method handlerFuncRef
    runtimeId = result at houtcome
  cases houtcome with
  | rejected error herror => exact Or.inl ⟨⟨error, rfl⟩, rfl⟩
  | rolledBack slot thunkAddr slab memory hemit hmemory =>
      exact Or.inl ⟨⟨_, rfl⟩, rfl⟩
  | published slot sig thunkAddr target slab memory patch hsig hslot hemit
      htarget hinstall =>
      exact Or.inr ⟨slot, _, rfl, hslot, rfl, rfl⟩

/-- The slot table after a removal. -/
theorem removeHook_slots (env : Env) (state : HookState) (handle : ℕ) :
    (removeHook env state handle).1.slots = fun slot =>
      if slot.val = handle then none else state.slots slot := by
  funext slot
  have houtcome := removeHook_outcome env state handle
  generalize removeHook env state handle = result at houtcome
  cases houtcome with
  | unknown hunknown =>
      split
      · rename_i hhandle
        subst hhandle
        simpa [ctxFor, slot.isLt] using hunknown
      · rfl
  | removed other ctx hhandle hslot =>
      subst hhandle
      simp only [Function.update_apply, Fin.ext_iff]

/-- The published slots once one more is published. -/
theorem slots_of_published {slots : SlotId → Option HookCtx} {slot other : SlotId}
    {ctx otherCtx : HookCtx}
    (hother : Function.update slots slot (some ctx) other = some otherCtx) :
    (other = slot ∧ otherCtx = ctx) ∨ (other ≠ slot ∧ slots other = some otherCtx) := by
  rw [Function.update_apply] at hother
  split at hother
  · rename_i hsame
    exact Or.inl ⟨hsame, (Option.some.inj hother).symm⟩
  · rename_i hne
    exact Or.inr ⟨hne, hother⟩

/-- The published slots once one is withdrawn. -/
theorem slots_of_withdrawn {slots : SlotId → Option HookCtx} {slot other : SlotId}
    {otherCtx : HookCtx}
    (hother : Function.update slots slot none other = some otherCtx) :
    other ≠ slot ∧ slots other = some otherCtx := by
  rw [Function.update_apply] at hother
  split at hother
  · contradiction
  · rename_i hne
    exact ⟨hne, hother⟩

/-! ## Histories of calls -/

inductive HookOp where
  | install (allocs : Allocs) (method handlerFuncRef runtimeId : ℕ)
  | remove (handle : ℕ)

/-- One call; both operations return in every state. -/
def hookStep (env : Env) (state : HookState) : HookOp → Option HookState
  | .install allocs method handlerFuncRef runtimeId =>
      some (installHook env allocs state method handlerFuncRef runtimeId).1
  | .remove handle => some (removeHook env state handle).1

theorem hookStep_install {env : Env} {state next : HookState} {allocs : Allocs}
    {method handlerFuncRef runtimeId : ℕ}
    (hstep : hookStep env state
      (.install allocs method handlerFuncRef runtimeId) = some next) :
    ∃ result, InstallOutcome env allocs state method handlerFuncRef runtimeId
      (next, result) := by
  cases hstep
  exact ⟨_, installHook_outcome env allocs state method handlerFuncRef runtimeId⟩

theorem hookStep_remove {env : Env} {state next : HookState} {handle : ℕ}
    (hstep : hookStep env state (.remove handle) = some next) :
    ∃ result, RemoveOutcome env state handle (next, result) := by
  cases hstep
  exact ⟨_, removeHook_outcome env state handle⟩

end FrogAgent.Slots
