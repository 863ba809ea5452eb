import FrogAgent.Hook.Slots
import FrogAgent.Lib.Run

/-!
# One live hook per method

The design note lists multi-hook chains as a non-goal: a second installation on
a hooked method is to be refused with `AlreadyHooked`, and `call_original_now`
relies on it when it searches the slots by method.  No code path constructs that
error.  The published methods stay distinct exactly along the histories in which
the caller never asks for a second hook.
-/

namespace FrogAgent.OneHookPerMethod

open FrogAgent.ByteMemory
open FrogAgent.Error
open FrogAgent.InlineDetour
open FrogAgent.Run
open FrogAgent.Signature
open FrogAgent.Slots

def Hooked (state : HookState) (method : ℕ) : Prop :=
  ∃ slot ctx, state.slots slot = some ctx ∧ ctx.method = method

def DistinctMethods (state : HookState) : Prop :=
  ∀ left right leftCtx rightCtx, state.slots left = some leftCtx →
    state.slots right = some rightCtx → leftCtx.method = rightCtx.method →
      left = right

/-- For every published slot, `call_original_now` finds that very slot. -/
def CallsOwnTrampoline (state : HookState) : Prop :=
  ∀ slot ctx, state.slots slot = some ctx →
    (findByMethod state ctx.method).map (fun found => found.patch.trampoline) =
      some ctx.patch.trampoline

/-- An installation on a hooked method returns `AlreadyHooked` and changes
nothing. -/
def RefusesSecondHook (env : Env) (state : HookState) : HookOp → Prop
  | .install allocs method handlerFuncRef runtimeId =>
      Hooked state method →
        installHook env allocs state method handlerFuncRef runtimeId =
          (state, .error .alreadyHooked)
  | .remove _ => True

/-- The intended contract along a history of calls. -/
def OneLiveHook (env : Env) (memory : Memory UInt8) (ops : List HookOp) : Prop :=
  (∀ state, Visits (hookStep env) (HookState.initial memory) ops state →
    DistinctMethods state ∧ CallsOwnTrampoline state) ∧
  Meets (hookStep env) (RefusesSecondHook env) (HookState.initial memory) ops

/-- The caller asks only for hooks on methods that have none. -/
def InstallsUnhooked (state : HookState) : HookOp → Prop
  | .install _ method _ _ => ¬ Hooked state method
  | .remove _ => True

theorem distinctMethods_publish {state : HookState} {slot : SlotId}
    {ctx : HookCtx} (hdistinct : DistinctMethods state)
    (hfresh : ¬ Hooked state ctx.method) :
    DistinctMethods (publishSlot state slot ctx) := by
  intro left right leftCtx rightCtx hleft hright hmethod
  rcases slots_of_published hleft with ⟨hl, rfl⟩ | ⟨-, hold⟩
  · rcases slots_of_published hright with ⟨hr, rfl⟩ | ⟨-, hother⟩
    · rw [hl, hr]
    · exact absurd ⟨right, rightCtx, hother, hmethod.symm⟩ hfresh
  · rcases slots_of_published hright with ⟨-, rfl⟩ | ⟨-, hother⟩
    · exact absurd ⟨left, leftCtx, hold, hmethod⟩ hfresh
    · exact hdistinct left right leftCtx rightCtx hold hother hmethod

theorem distinctMethods_of_slots_le {state next : HookState}
    (hdistinct : DistinctMethods state)
    (hslots : ∀ slot ctx, next.slots slot = some ctx →
      state.slots slot = some ctx) : DistinctMethods next := by
  intro left right leftCtx rightCtx hleft hright hmethod
  exact hdistinct left right leftCtx rightCtx (hslots left leftCtx hleft)
    (hslots right rightCtx hright) hmethod

theorem distinctMethods_step (env : Env) (state : HookState) (op : HookOp)
    (next : HookState) (hdistinct : DistinctMethods state)
    (hguard : InstallsUnhooked state op)
    (hstep : hookStep env state op = some next) : DistinctMethods next := by
  cases op with
  | install allocs method handlerFuncRef runtimeId =>
      obtain ⟨result, houtcome⟩ := hookStep_install hstep
      cases houtcome with
      | rejected error herror => exact hdistinct
      | rolledBack slot thunkAddr slab memory hemit hmemory => exact hdistinct
      | published slot sig thunkAddr target slab memory patch hsig hslot hemit
          htarget hinstall =>
          exact distinctMethods_publish
            (distinctMethods_of_slots_le hdistinct fun _ _ hsame => hsame) hguard
  | remove handle =>
      obtain ⟨result, houtcome⟩ := hookStep_remove hstep
      cases houtcome with
      | unknown hunknown => exact hdistinct
      | removed slot ctx hhandle hslot =>
          apply distinctMethods_of_slots_le hdistinct
          intro other otherCtx hother
          exact (slots_of_withdrawn hother).2

/-- With distinct methods the linear search can only stop at the slot itself. -/
theorem callsOwnTrampoline_of_distinct {state : HookState}
    (hdistinct : DistinctMethods state) : CallsOwnTrampoline state := by
  intro slot ctx hslot
  have hsome : (findByMethod state ctx.method).isSome := by
    rw [findByMethod, List.findSome?_isSome_iff]
    exact ⟨slot, List.mem_finRange slot, by simp [hslot]⟩
  obtain ⟨found, hfound⟩ := Option.isSome_iff_exists.mp hsome
  obtain ⟨other, -, hother⟩ := List.exists_of_findSome?_eq_some hfound
  rw [Option.filter_eq_some_iff] at hother
  have hmethod : found.method = ctx.method := by simpa using hother.2
  have hsame : other = slot :=
    hdistinct other slot found ctx hother.1 hslot hmethod
  subst hsame
  rw [hslot] at hother
  cases hother.1
  rw [hfound]
  rfl

theorem installHook_ne_alreadyHooked (env : Env) (allocs : Allocs)
    (state : HookState) (method handlerFuncRef runtimeId : ℕ) :
    (installHook env allocs state method handlerFuncRef runtimeId).2 ≠
      .error .alreadyHooked := by
  have houtcome := installHook_outcome env allocs state method
    handlerFuncRef runtimeId
  generalize installHook env allocs state method handlerFuncRef
    runtimeId = result at houtcome
  cases houtcome with
  | rejected error herror =>
      intro hequal
      cases hequal
      exact herror rfl
  | rolledBack slot thunkAddr slab memory hemit hmemory => simp
  | published slot sig thunkAddr target slab memory patch hsig hslot hemit
      htarget hinstall => simp

/-- Along a history, the contract holds exactly when no installation is
requested on a method that already has a published slot. -/
theorem oneLiveHook_iff_installsUnhooked (env : Env) (memory : Memory UInt8)
    (ops : List HookOp) :
    OneLiveHook env memory ops ↔
      Meets (hookStep env) InstallsUnhooked (HookState.initial memory) ops := by
  constructor
  · rintro ⟨-, hrefuses⟩ taken op rest state hsplit hrun
    cases op with
    | remove handle => trivial
    | install allocs method handlerFuncRef runtimeId =>
        intro hhooked
        have hrefused := hrefuses taken _ rest state hsplit hrun hhooked
        exact installHook_ne_alreadyHooked env allocs state method
          handlerFuncRef runtimeId (congrArg Prod.snd hrefused)
  · intro hmeets
    have hinitial : DistinctMethods (HookState.initial memory) := by
      intro left right leftCtx rightCtx hleft
      simp [HookState.initial] at hleft
    constructor
    · intro state hvisits
      have hdistinct : DistinctMethods state :=
        hmeets.invariant hinitial (distinctMethods_step env) hvisits
      exact ⟨hdistinct, callsOwnTrampoline_of_distinct hdistinct⟩
    · intro taken op rest state hsplit hrun
      cases op with
      | remove handle => trivial
      | install allocs method handlerFuncRef runtimeId =>
          intro hhooked
          exact absurd hhooked (hmeets taken _ rest state hsplit hrun)

/-! ## A process with one hookable method -/

/-- A `MethodInfo` at `0x100` whose code pointer is `0x1000`; `nop`s elsewhere. -/
def sampleMemory : Memory UInt8 := fun address =>
  if 0x100 ≤ address ∧ address < 0x200 then
    if address = 0x109 then 0x10 else 0
  else 0x90

def sampleEnv : Env where
  internals :=
    { ctx := some ⟨0x08, 0x20, 0x28, 0x4C, 0x52, 0x18, 0, 0, 0⟩
      readable := fun _ _ => true }
  platform :=
    { decode := fun _ window => List.replicate window.length 1
      protect := fun _ _ => true
      decode_sum_le := by simp }
  shimAddr := 0x7000

/-- Installation number `index` on the sample method. -/
def sampleInstall (index : ℕ) : HookOp :=
  .install ⟨some 0x100000, some (0x200000 + 0x1000 * index)⟩ 0x100 index 1

/-- Hooking the sample method twice publishes two slots for it. -/
theorem not_oneLiveHook_twice :
    ¬ OneLiveHook sampleEnv sampleMemory [sampleInstall 0, sampleInstall 1] := by
  rintro ⟨hstates, -⟩
  have hmethods : (run (hookStep sampleEnv) (HookState.initial sampleMemory)
      [sampleInstall 0, sampleInstall 1]).map (fun state =>
        ((state.slots 0).map HookCtx.method, (state.slots 1).map HookCtx.method)) =
      some (some 0x100, some 0x100) := by
    decide +kernel
  obtain ⟨state, hrun, hslots⟩ := Option.map_eq_some_iff.mp hmethods
  simp only [Prod.mk.injEq, Option.map_eq_some_iff] at hslots
  obtain ⟨⟨left, hleft, hleftMethod⟩, ⟨right, hright, hrightMethod⟩⟩ := hslots
  have hequal := (hstates state (visits_end hrun)).1 0 1 left right hleft hright
    (hleftMethod.trans hrightMethod.symm)
  exact absurd hequal (by decide)

end FrogAgent.OneHookPerMethod
