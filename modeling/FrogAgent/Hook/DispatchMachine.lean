import FrogAgent.Hook.Slots
import FrogAgent.Runtime.Orchestrator
import FrogAgent.Runtime.SwapProtocol

/-!
# Nested dispatches on call stacks

`dispatch_rust`, `call_hook_handler`, the hook host functions and
`registry_reload` as frames of two call stacks, with the two process-wide
mutexes `REGISTRY` and `INSTALL_GUARD`.  Game code may enter a hooked method at
any point, also below a running handler or inside a `frog_main` that a reload
runs.  A step belongs to the top frame of one thread; what a script decides to
do, and whether arguments, modules and handlers resolve, is part of the label.
-/

namespace FrogAgent.DispatchMachine

open FrogAgent.ByteMemory
open FrogAgent.Slots
open FrogAgent.SwapProtocol

inductive Mutex where
  | registry
  | installGuard
  deriving DecidableEq

/-- Inside the scope block of `dispatch_rust`.  `replay` runs the trampoline
without a handler, for a reentrant call or for arguments that do not marshal
(only then the reentry flag is this frame's to clear); `original` is the
transparent observer's trampoline call in the continuation. -/
inductive ScopePc where
  | replay (clears : Bool)
  | handler
  | inHandler
  | continuation
  | original
  deriving DecidableEq

/-- wasm code, or one of the host calls that take `INSTALL_GUARD`.  `record` to
`unlock` are the end of `install_hook`: `record_hook` only tries the registry
lock. -/
inductive ScriptPc where
  | running
  | installWait (allocs : Allocs) (method handlerFuncRef : ℕ)
  | installBody (allocs : Allocs) (method handlerFuncRef : ℕ)
  | record
  | recording
  | unlock
  | removeWait (handle : ℕ)
  | removeBody (handle : ℕ)

/-- `registry_reload`.  The `lock` and `Wait` stages are blocking lock calls,
the sections hold the registry lock, and `removing` holds `INSTALL_GUARD`.  With
no slot left, `unhooking` is about to lock the registry for step 4. -/
inductive ReloadPc where
  | lock (bytes : List UInt8)
  | section1 (bytes : List UInt8)
  | reverting (currentId : ℕ) (bytes : List UInt8)
  | scanning (currentId : ℕ) (bytes : List UInt8)
  | unhooking (ids : List SlotId) (bytes : List UInt8)
  | removing (slot : SlotId) (ids : List SlotId) (bytes : List UInt8)
  | section4 (bytes : List UInt8)
  | spawn
  | spawned (runtimeId : ℕ)
  | insertWait (runtimeId : ℕ)
  | insertSection (runtimeId : ℕ)
  | writeWait
  | writing

/-- A frame of a call stack.  A `scope` frame holds a reference to a slot; `ctx`
is what the slot held when the reference was taken and `called` is the
trampoline address read through it for the last call. -/
inductive Frame where
  | code
  | watch
  | entering (methodId : ℕ)
  | scope (slot : SlotId) (ctx : HookCtx) (called : Option ℕ) (pc : ScopePc)
  | tail
  | draining
  | script (runtimeId : ℕ) (pc : ScriptPc)
  | reload (pc : ReloadPc)
  | dead

structure Shared where
  hooks : HookState
  registry : List ℕ
  nextId : ℕ
  reloadPending : Option (List UInt8)
  poisoned : Bool
  owner : Mutex → Option ThreadId

structure Machine where
  shared : Shared
  stack : ThreadId → List Frame

inductive Action where
  | enter (methodId : ℕ)
  | finish
  | memory (memory : Memory UInt8)
  | dispatch (marshals : Bool)
  | callHandler (resolves : Bool)
  | resume
  | continue (observes : Bool)
  | drain
  | call
  | install (allocs : Allocs) (method handlerFuncRef : ℕ)
  | remove (handle : ℕ)
  | lock
  | work
  | parse (valid : Bool)
  | spawnEnds (returned : Bool)
  | publish (bytes : List UInt8)
  | fallback (bytes : List UInt8)
  | writeState

abbrev Label := ThreadId × Action

/-! ## Mutexes -/

/-- The mutex a frame's next action blocks on. -/
def Frame.waitsFor : Frame → Option Mutex
  | .script _ (.installWait ..) | .script _ (.removeWait _) => some .installGuard
  | .reload (.unhooking (_ :: _) _) => some .installGuard
  | .reload (.lock _) | .reload (.unhooking [] _) | .reload (.insertWait _)
  | .reload .writeWait => some .registry
  | _ => none

/-- The mutexes a frame has locked. -/
def Frame.holds (mutex : Mutex) : Frame → Bool
  | .scope _ _ _ .inHandler | .reload (.section1 _) | .reload (.section4 _)
  | .reload (.insertSection _) | .reload .writing => mutex = .registry
  | .script _ .recording => true
  | .script _ (.installBody ..) | .script _ .record | .script _ .unlock
  | .script _ (.removeBody _) | .reload (.removing ..) => mutex = .installGuard
  | _ => false

/-- The frame once its blocking lock call has returned. -/
def Frame.locked : Frame → Frame
  | .script id (.installWait allocs method handlerFuncRef) =>
      .script id (.installBody allocs method handlerFuncRef)
  | .script id (.removeWait handle) => .script id (.removeBody handle)
  | .reload (.unhooking (slot :: ids) bytes) => .reload (.removing slot ids bytes)
  | .reload (.lock bytes) => .reload (.section1 bytes)
  | .reload (.unhooking [] bytes) => .reload (.section4 bytes)
  | .reload (.insertWait id) => .reload (.insertSection id)
  | .reload .writeWait => .reload .writing
  | frame => frame

def Shared.acquire (shared : Shared) (mutex : Mutex) (thread : ThreadId) :
    Shared :=
  { shared with owner := Function.update shared.owner mutex (some thread) }

def Shared.release (shared : Shared) (mutex : Mutex) : Shared :=
  { shared with owner := Function.update shared.owner mutex none }

/-! ## The code of each frame -/

def Shared.setReentry (shared : Shared) (slot : SlotId) (flag : Bool) : Shared :=
  { shared with hooks := { shared.hooks with
      reentry := Function.update shared.hooks.reentry slot flag } }

/-- The trampoline address a frame reads through its reference to a slot. -/
def Shared.trampoline (shared : Shared) (slot : SlotId) : Option ℕ :=
  (shared.hooks.slots slot).map fun ctx => ctx.patch.trampoline

/-- `dispatch_rust` from its entry to the handler call. -/
def dispatchRust (shared : Shared) (methodId : ℕ) (marshals : Bool) :
    Shared × List Frame :=
  if hid : methodId < maxHooks then
    let slot : SlotId := ⟨methodId, hid⟩
    match shared.hooks.slots slot with
    | none => (shared, [])
    | some ctx =>
        let trampoline := shared.trampoline slot
        if shared.hooks.reentry slot then
          (shared, [.code, .scope slot ctx trampoline (.replay false)])
        else
          let entered := shared.setReentry slot true
          if marshals then (entered, [.scope slot ctx none .handler])
          else (entered, [.code, .scope slot ctx trampoline (.replay true)])
  else (shared, [])

/-- `call_hook_handler` up to the wasm call: a busy or poisoned registry lock,
an empty registry or an unresolved handler falls through to the continuation. -/
def callHookHandler (shared : Shared) (thread : ThreadId) (slot : SlotId)
    (ctx : HookCtx) (called : Option ℕ) (resolves : Bool) :
    Shared × List Frame :=
  let skipped := (shared, [Frame.scope slot ctx called .continuation])
  if shared.owner .registry ≠ none ∨ shared.poisoned = true then skipped
  else
    match shared.registry with
    | [] => skipped
    | runtimeId :: _ =>
        if resolves then
          (shared.acquire .registry thread,
            [.script runtimeId .running, .scope slot ctx called .inHandler])
        else skipped

/-- Step 5 is entered only for a non-empty buffer. -/
def afterTeardown (bytes : List UInt8) : ReloadPc :=
  if bytes = [] then .writeWait else .spawn

/-- What a frame does with the mutexes it has locked, and the unlocked steps of
`registry_reload`. -/
def work (env : Env) (shared : Shared) (thread : ThreadId) :
    Frame → Option (Shared × List Frame)
  | .script id (.installBody allocs method handlerFuncRef) =>
      some ({ shared with
        hooks := (installHook env allocs shared.hooks method handlerFuncRef id).1 },
          [.script id .record])
  | .script id .record =>
      if shared.owner .registry = none then
        some (shared.acquire .registry thread, [.script id .recording])
      else some (shared, [.script id .unlock])
  | .script id .recording => some (shared.release .registry, [.script id .unlock])
  | .script id .unlock => some (shared.release .installGuard, [.script id .running])
  | .script id (.removeBody handle) =>
      some ({ shared with hooks := (removeHook env shared.hooks handle).1 }.release
        .installGuard, [.script id .running])
  | .reload (.section1 bytes) =>
      if shared.poisoned then some (shared.release .registry, [])
      else
        match shared.registry with
        | [] => some (shared.release .registry, [.reload (afterTeardown bytes)])
        | currentId :: _ =>
            some (shared.release .registry, [.reload (.reverting currentId bytes)])
  | .reload (.scanning currentId bytes) =>
      some (shared, [.reload (.unhooking
        (Orchestrator.collectOwnedHookIds shared.hooks currentId) bytes)])
  | .reload (.removing slot ids bytes) =>
      some ({ shared with
        hooks := (removeHook env shared.hooks slot.val).1 }.release .installGuard,
          [.reload (.unhooking ids bytes)])
  | .reload (.section4 bytes) =>
      if shared.poisoned then some (shared.release .registry, [])
      else
        some ({ shared with registry := shared.registry.dropLast }.release
          .registry, [.reload (afterTeardown bytes)])
  | .reload (.insertSection runtimeId) =>
      if shared.poisoned = false ∧ shared.registry = [] then
        some ({ shared with registry := [runtimeId] }.release .registry,
          [.reload .writeWait])
      else some ({ shared with poisoned := true }.release .registry, [.dead])
  | .reload .writing => some (shared.release .registry, [])
  | _ => none

/-- One step of a frame: the shared state after it and what replaces the frame
on top of the stack. -/
def act (env : Env) (shared : Shared) (thread : ThreadId) (frame : Frame) :
    Action → Option (Shared × List Frame)
  | .enter methodId =>
      match frame with
      | .code => some (shared, [.entering methodId, .code])
      | _ => none
  | .finish =>
      match frame with
      | .code | .script _ .running => some (shared, [])
      | _ => none
  | .memory memory =>
      let written := { shared with
        hooks := { shared.hooks with memory := memory } }
      match frame with
      | .code | .script _ .running => some (written, [frame])
      | .reload (.reverting currentId bytes) =>
          some (written, [.reload (.scanning currentId bytes)])
      | _ => none
  | .dispatch marshals =>
      match frame with
      | .entering methodId => some (dispatchRust shared methodId marshals)
      | _ => none
  | .callHandler resolves =>
      match frame with
      | .scope slot ctx called .handler =>
          some (callHookHandler shared thread slot ctx called resolves)
      | _ => none
  | .resume =>
      match frame with
      | .scope slot _ _ (.replay clears) =>
          some (if clears then shared.setReentry slot false else shared, [])
      | .scope slot ctx called .inHandler =>
          some (shared.release .registry, [.scope slot ctx called .continuation])
      | .scope slot _ _ .original =>
          some (shared.setReentry slot false, [.tail])
      | .draining => some (shared, [])
      | _ => none
  | .continue observes =>
      match frame with
      | .scope slot ctx _ .continuation =>
          if observes then
            some (shared, [.code,
              .scope slot ctx (shared.trampoline slot) .original])
          else some (shared.setReentry slot false, [.tail])
      | _ => none
  | .drain =>
      match frame with
      | .tail =>
          match shared.reloadPending with
          | none => some (shared, [])
          | some bytes =>
              some ({ shared with reloadPending := none },
                [.reload (.lock bytes), .draining])
      | _ => none
  | .call =>
      match frame with
      | .script _ .running => some (shared, [.code, frame])
      | _ => none
  | .install allocs method handlerFuncRef =>
      match frame with
      | .script id .running =>
          some (shared, [.script id (.installWait allocs method handlerFuncRef)])
      | _ => none
  | .remove handle =>
      match frame with
      | .script id .running => some (shared, [.script id (.removeWait handle)])
      | _ => none
  | .lock =>
      match frame.waitsFor with
      | none => none
      | some mutex =>
          if shared.owner mutex = none then
            some (shared.acquire mutex thread, [frame.locked])
          else none
  | .work => work env shared thread frame
  | .parse valid =>
      match frame with
      | .reload .spawn =>
          if valid then
            some ({ shared with nextId := shared.nextId + 1 },
              [.script shared.nextId .running, .reload (.spawned shared.nextId)])
          else some (shared, [.reload .writeWait])
      | _ => none
  | .spawnEnds returned =>
      match frame with
      | .reload (.spawned runtimeId) =>
          some (shared, [.reload
            (if returned then .insertWait runtimeId else .writeWait)])
      | _ => none
  | .publish bytes =>
      match frame with
      | .watch => some ({ shared with reloadPending := some bytes }, [.watch])
      | _ => none
  | .fallback bytes =>
      match frame with
      | .watch =>
          some ({ shared with reloadPending := none },
            [.reload (.lock bytes), .watch])
      | _ => none
  | .writeState =>
      match frame with
      | .watch => some (shared, [.reload .writeWait, .watch])
      | _ => none

def step (env : Env) (machine : Machine) (label : Label) : Option Machine :=
  match machine.stack label.1 with
  | [] => none
  | frame :: rest =>
      (act env machine.shared label.1 frame label.2).map fun next =>
        ⟨next.1, Function.update machine.stack label.1 (next.2 ++ rest)⟩

/-- The game runs its own code, the watcher its loop, and no mutex is locked. -/
structure Start where
  shared : Shared
  owner : ∀ mutex, shared.owner mutex = none

def begin (start : Start) : Machine where
  shared := start.shared
  stack := fun
    | .game => [.code]
    | .watcher => [.watch]

/-- A hook of runtime 1 on a parameterless method. -/
def sampleCtx (method : ℕ) : HookCtx where
  method := method
  sig := ⟨[], .u64, 0x0B, true⟩
  thunkAddr := 0x100000 + 16 * method
  patch := ⟨0x1000 * method, 0x100000 + 16 * method, 0x200000 * method, []⟩
  handlerFuncRef := 0
  runtimeId := 1

/-- Two hooks, installed by the runtime that is in the registry. -/
def sampleStart : Start where
  shared :=
    { hooks :=
        { HookState.initial fun _ => 0 with
          slots := fun slot =>
            if slot = 0 then some (sampleCtx 1)
            else if slot = 1 then some (sampleCtx 2) else none }
      registry := [1]
      nextId := 2
      reloadPending := none
      poisoned := false
      owner := fun _ => none }
  owner := fun _ => rfl

/-! ## What one step can do -/

/-- Frames that may have another frame above them. -/
def Frame.calls : Frame → Bool
  | .code | .watch | .draining | .script _ .running | .reload (.spawned _)
  | .scope _ _ _ (.replay _) | .scope _ _ _ .inHandler
  | .scope _ _ _ .original => true
  | _ => false

/-- Frames from which a reload runs without an enclosing dispatch. -/
def Frame.reloads : Frame → Bool
  | .watch | .reload _ => true
  | _ => false

/-- The slot a frame is about to unpublish. -/
def Frame.removes : Frame → Option ℕ
  | .script _ (.removeBody handle) => some handle
  | .reload (.removing slot _ _) => some slot.val
  | _ => none

/-- How many of the frames hold a mutex. -/
def held (mutex : Mutex) (frames : List Frame) : ℕ :=
  frames.countP (Frame.holds mutex)

inductive OwnerEffect (shared : Shared) (thread : ThreadId) (frame : Frame)
    (shared' : Shared) (frames : List Frame) : Prop where
  | keeps (howner : shared'.owner = shared.owner)
      (hheld : ∀ mutex, held mutex frames = held mutex [frame])
  | acquires (mutex : Mutex) (hfree : shared.owner mutex = none)
      (howner : shared'.owner = Function.update shared.owner mutex (some thread))
      (hheld : ∀ other, held other frames =
        held other [frame] + if other = mutex then 1 else 0)
  | releases (mutex : Mutex)
      (howner : shared'.owner = Function.update shared.owner mutex none)
      (hheld : ∀ other, held other [frame] =
        held other frames + if other = mutex then 1 else 0)

inductive SlotEffect (shared : Shared) (frame : Frame) (shared' : Shared)
    (frames : List Frame) : Prop where
  | keeps (hslots : shared'.hooks.slots = shared.hooks.slots)
  | fills (slot : SlotId) (ctx : HookCtx)
      (hfree : shared.hooks.slots slot = none)
      (hslots : shared'.hooks.slots =
        Function.update shared.hooks.slots slot (some ctx))
  | removes (handle : ℕ) (hframe : frame.removes = some handle)
      (hslots : shared'.hooks.slots = fun slot =>
        if slot.val = handle then none else shared.hooks.slots slot)
      (hscopes : ∀ slot ctx called pc, .scope slot ctx called pc ∉ frames)

/-- Where a scope frame comes from: the frame before the step, or a dispatch that
has just read the slot. -/
def ScopeFrom (shared : Shared) (frame : Frame) : Frame → Prop
  | .scope slot ctx called _ =>
      (∃ before pc, frame = .scope slot ctx before pc ∧
        (called = before ∨ called = shared.trampoline slot)) ∨
      (frame = .entering slot.val ∧ shared.hooks.slots slot = some ctx ∧
        (called = none ∨ called = shared.trampoline slot))
  | _ => True

/-- A frame is replaced by at most two, the lower of which calls the upper.  It
holds the registry lock only for a handler. -/
def Calling (frames : List Frame) : Prop :=
  frames.length ≤ 1 ∨ ∃ top below, frames = [top, below] ∧ below.calls = true ∧
    (below.holds .registry = true → top.reloads = false)

/-- The effect of a step on mutexes, slots and the shape of the stack. -/
structure Effect (shared : Shared) (thread : ThreadId) (frame : Frame)
    (shared' : Shared) (frames : List Frame) : Prop where
  owner : OwnerEffect shared thread frame shared' frames
  slots : SlotEffect shared frame shared' frames
  calling : Calling frames
  reloads : ∀ other ∈ frames, other.reloads = true → frame.reloads = true ∨
    (frame = .tail ∧ shared.reloadPending ≠ none)
  scopes : ∀ other ∈ frames, ScopeFrom shared frame other

attribute [local simp] Frame.calls Frame.reloads Frame.holds held ScopeFrom Calling

/-- The frames that replace `frame` hold the same mutexes and are of the kinds it
may call or turn into. -/
structure Passes (shared : Shared) (frame : Frame) (frames : List Frame) :
    Prop where
  held : ∀ mutex, held mutex frames = held mutex [frame]
  calling : Calling frames
  reloads : ∀ other ∈ frames, other.reloads = true → frame.reloads = true
  scopes : ∀ other ∈ frames, ScopeFrom shared frame other

/-- A step that moves along inside a frame or calls and returns, without
touching a mutex or a slot. -/
theorem effect_control {shared shared' : Shared} {thread : ThreadId}
    {frame : Frame} {frames : List Frame}
    (howner : shared'.owner = shared.owner)
    (hslots : shared'.hooks.slots = shared.hooks.slots)
    (hpasses : Passes shared frame frames) :
    Effect shared thread frame shared' frames where
  owner := .keeps howner hpasses.held
  slots := .keeps hslots
  calling := hpasses.calling
  reloads := fun other hother hreload =>
    Or.inl (hpasses.reloads other hother hreload)
  scopes := hpasses.scopes

theorem effect_dispatchRust {shared shared' : Shared} {thread : ThreadId}
    {methodId : ℕ} {marshals : Bool} {frames : List Frame}
    (hdispatch : dispatchRust shared methodId marshals = (shared', frames)) :
    Effect shared thread (.entering methodId) shared' frames := by
  unfold dispatchRust at hdispatch
  split at hdispatch
  · dsimp only at hdispatch
    split at hdispatch
    · cases hdispatch
      exact effect_control rfl rfl (by constructor <;> simp)
    · rename_i hslot
      split at hdispatch
      · cases hdispatch
        exact effect_control rfl rfl (by constructor <;> simp [hslot])
      · split at hdispatch
        · cases hdispatch
          exact effect_control rfl rfl (by constructor <;> simp [hslot])
        · cases hdispatch
          exact effect_control rfl rfl (by constructor <;> simp [hslot])
  · cases hdispatch
    exact effect_control rfl rfl (by constructor <;> simp)

theorem effect_callHookHandler {shared shared' : Shared} {thread : ThreadId}
    {slot : SlotId} {ctx : HookCtx} {called : Option ℕ} {resolves : Bool}
    {frames : List Frame}
    (hcall : callHookHandler shared thread slot ctx called resolves =
      (shared', frames)) :
    Effect shared thread (.scope slot ctx called .handler) shared' frames := by
  have hskipped : Effect shared thread (.scope slot ctx called .handler) shared
      [.scope slot ctx called .continuation] :=
    effect_control rfl rfl (by constructor <;> simp)
  simp only [callHookHandler] at hcall
  split at hcall
  · cases hcall
    exact hskipped
  · rename_i hfree
    have howner : shared.owner .registry = none := by
      by_contra hne
      exact hfree (Or.inl hne)
    split at hcall
    · cases hcall
      exact hskipped
    · split at hcall
      · cases hcall
        refine ⟨.acquires .registry howner rfl ?_, .keeps rfl, by simp, by simp,
          by simp⟩
        intro mutex
        cases mutex <;> simp
      · cases hcall
        exact hskipped

theorem effect_lock {shared : Shared} {thread : ThreadId} {frame : Frame}
    {mutex : Mutex} (hwaits : frame.waitsFor = some mutex)
    (hfree : shared.owner mutex = none) :
    Effect shared thread frame (shared.acquire mutex thread)
      [frame.locked] := by
  have hlocked : (∀ other, held other [frame.locked] = held other [frame] +
      if other = mutex then 1 else 0) ∧
      (frame.locked.reloads = true → frame.reloads = true) ∧
      ScopeFrom shared frame frame.locked := by
    unfold Frame.waitsFor at hwaits
    split at hwaits <;> cases hwaits
    all_goals
      refine ⟨?_, by simp [Frame.locked], by simp [Frame.locked]⟩
      intro other
      cases other <;> simp [Frame.locked]
  refine ⟨.acquires mutex hfree rfl hlocked.1, .keeps rfl, by simp, ?_, ?_⟩
  · intro other hother hreloads
    rw [List.mem_singleton] at hother
    subst hother
    exact Or.inl (hlocked.2.1 hreloads)
  · intro other hother
    rw [List.mem_singleton] at hother
    exact hother ▸ hlocked.2.2

theorem held_afterTeardown (mutex : Mutex) (bytes : List UInt8) :
    held mutex [.reload (afterTeardown bytes)] = 0 := by
  unfold afterTeardown
  split <;> simp

/-- The end of a registry section of `registry_reload`. -/
theorem effect_section {shared shared' : Shared} {thread : ThreadId}
    {pc : ReloadPc} {frames : List Frame}
    (hholds : ∀ mutex, held mutex [.reload pc] =
      if mutex = .registry then 1 else 0)
    (howner : shared'.owner = Function.update shared.owner .registry none)
    (hslots : shared'.hooks = shared.hooks)
    (hframes : frames = [] ∨ frames = [.dead] ∨ ∃ pc', frames = [.reload pc'] ∧
      ∀ mutex, held mutex [.reload pc'] = 0) :
    Effect shared thread (.reload pc) shared' frames := by
  have hkeeps : SlotEffect shared (.reload pc) shared' frames :=
    .keeps (by rw [hslots])
  have hheld : ∀ mutex, held mutex frames = 0 := by
    intro mutex
    obtain rfl | rfl | ⟨pc', rfl, hpc⟩ := hframes
    · rfl
    · rfl
    · exact hpc mutex
  refine ⟨.releases .registry howner ?_, hkeeps, ?_, by simp, ?_⟩
  · intro mutex
    rw [hholds, hheld, Nat.zero_add]
  all_goals
    obtain rfl | rfl | ⟨pc', rfl, hpc⟩ := hframes <;> simp

theorem effect_work {env : Env} {shared shared' : Shared} {thread : ThreadId}
    {frame : Frame} {frames : List Frame}
    (hwork : work env shared thread frame = some (shared', frames)) :
    Effect shared thread frame shared' frames := by
  cases frame with
  | script id pc =>
      cases pc with
      | installBody allocs method handlerFuncRef =>
          cases hwork
          refine ⟨.keeps rfl (by simp), ?_, by simp, by simp, by simp⟩
          cases installHook_slots env allocs shared.hooks method handlerFuncRef
            id with
          | inl hsame => exact .keeps hsame.2
          | inr hfilled =>
              obtain ⟨slot, ctx, -, hfree, hslots, -⟩ := hfilled
              exact .fills slot ctx hfree hslots
      | record =>
          simp only [work] at hwork
          split at hwork
          · rename_i hfree
            cases hwork
            refine ⟨.acquires .registry hfree rfl ?_, .keeps rfl, by simp,
              by simp, by simp⟩
            intro mutex
            cases mutex <;> simp
          · cases hwork
            exact effect_control rfl rfl (by constructor <;> simp)
      | recording =>
          cases hwork
          refine ⟨.releases .registry rfl ?_, .keeps rfl, by simp, by simp,
            by simp⟩
          intro mutex
          cases mutex <;> simp
      | unlock =>
          cases hwork
          refine ⟨.releases .installGuard rfl ?_, .keeps rfl, by simp, by simp,
            by simp⟩
          intro mutex
          cases mutex <;> simp
      | removeBody handle =>
          cases hwork
          refine ⟨.releases .installGuard rfl ?_,
            .removes handle rfl (removeHook_slots env shared.hooks handle)
              (by simp), by simp, by simp, by simp⟩
          intro mutex
          cases mutex <;> simp
      | running => contradiction
      | installWait allocs method handlerFuncRef => contradiction
      | removeWait handle => contradiction
  | reload pc =>
      cases pc with
      | section1 bytes =>
          have hafter : ∃ pc', [Frame.reload (afterTeardown bytes)] =
              [.reload pc'] ∧ ∀ mutex, held mutex [.reload pc'] = 0 :=
            ⟨_, rfl, fun mutex => held_afterTeardown mutex bytes⟩
          simp only [work] at hwork
          split at hwork
          · cases hwork
            exact effect_section (by simp) rfl rfl (Or.inl rfl)
          · split at hwork
            · cases hwork
              exact effect_section (by simp) rfl rfl (Or.inr (Or.inr hafter))
            · cases hwork
              exact effect_section (by simp) rfl rfl
                (Or.inr (Or.inr ⟨_, rfl, by simp⟩))
      | section4 bytes =>
          have hafter : ∃ pc', [Frame.reload (afterTeardown bytes)] =
              [.reload pc'] ∧ ∀ mutex, held mutex [.reload pc'] = 0 :=
            ⟨_, rfl, fun mutex => held_afterTeardown mutex bytes⟩
          simp only [work] at hwork
          split at hwork
          · cases hwork
            exact effect_section (by simp) rfl rfl (Or.inl rfl)
          · cases hwork
            exact effect_section (by simp) rfl rfl (Or.inr (Or.inr hafter))
      | insertSection runtimeId =>
          simp only [work] at hwork
          split at hwork
          · cases hwork
            exact effect_section (by simp) rfl rfl
              (Or.inr (Or.inr ⟨_, rfl, by simp⟩))
          · cases hwork
            exact effect_section (by simp) rfl rfl (Or.inr (Or.inl rfl))
      | writing =>
          cases hwork
          exact effect_section (by simp) rfl rfl (Or.inl rfl)
      | scanning currentId bytes =>
          cases hwork
          exact effect_control rfl rfl (by constructor <;> simp)
      | removing slot ids bytes =>
          cases hwork
          refine ⟨.releases .installGuard rfl ?_,
            .removes slot.val rfl (removeHook_slots env shared.hooks slot.val)
              (by simp), by simp, by simp, by simp⟩
          intro mutex
          cases mutex <;> simp
      | lock bytes => contradiction
      | reverting currentId bytes => contradiction
      | unhooking ids bytes => contradiction
      | spawn => contradiction
      | spawned runtimeId => contradiction
      | insertWait runtimeId => contradiction
      | writeWait => contradiction
  | code => contradiction
  | watch => contradiction
  | entering methodId => contradiction
  | scope slot ctx called pc => contradiction
  | tail => contradiction
  | draining => contradiction
  | dead => contradiction

theorem act_effect {env : Env} {shared shared' : Shared} {thread : ThreadId}
    {frame : Frame} {action : Action} {frames : List Frame}
    (hact : act env shared thread frame action = some (shared', frames)) :
    Effect shared thread frame shared' frames := by
  cases action with
  | enter methodId =>
      simp only [act] at hact
      split at hact
      · cases hact
        exact effect_control rfl rfl (by constructor <;> simp)
      · contradiction
  | finish =>
      simp only [act] at hact
      split at hact
      · cases hact
        exact effect_control rfl rfl (by constructor <;> simp)
      · cases hact
        exact effect_control rfl rfl (by constructor <;> simp)
      · contradiction
  | memory memory =>
      simp only [act] at hact
      split at hact
      · cases hact
        exact effect_control rfl rfl (by constructor <;> simp)
      · cases hact
        exact effect_control rfl rfl (by constructor <;> simp)
      · cases hact
        exact effect_control rfl rfl (by constructor <;> simp)
      · contradiction
  | dispatch marshals =>
      simp only [act] at hact
      split at hact
      · exact effect_dispatchRust (Option.some.inj hact)
      · contradiction
  | callHandler resolves =>
      simp only [act] at hact
      split at hact
      · exact effect_callHookHandler (Option.some.inj hact)
      · contradiction
  | resume =>
      simp only [act] at hact
      split at hact
      · rename_i clears
        cases clears <;> cases hact
        all_goals
          exact effect_control rfl rfl (by constructor <;> simp)
      · cases hact
        refine ⟨.releases .registry rfl ?_, .keeps rfl, by simp, by simp,
          by simp⟩
        intro mutex
        cases mutex <;> simp
      · cases hact
        exact effect_control rfl rfl (by constructor <;> simp)
      · cases hact
        exact effect_control rfl rfl (by constructor <;> simp)
      · contradiction
  | «continue» observes =>
      simp only [act] at hact
      split at hact
      · split at hact
        · cases hact
          exact effect_control rfl rfl (by constructor <;> simp)
        · cases hact
          exact effect_control rfl rfl (by constructor <;> simp)
      · contradiction
  | drain =>
      simp only [act] at hact
      split at hact
      · split at hact
        · cases hact
          exact effect_control rfl rfl (by constructor <;> simp)
        · rename_i hpending
          cases hact
          refine ⟨.keeps rfl (by simp), .keeps rfl, by simp, ?_, by simp⟩
          intro other hother hreload
          exact Or.inr ⟨rfl, by simp [hpending]⟩
      · contradiction
  | call =>
      simp only [act] at hact
      split at hact
      · cases hact
        exact effect_control rfl rfl (by constructor <;> simp)
      · contradiction
  | install allocs method handlerFuncRef =>
      simp only [act] at hact
      split at hact
      · cases hact
        exact effect_control rfl rfl (by constructor <;> simp)
      · contradiction
  | remove handle =>
      simp only [act] at hact
      split at hact
      · cases hact
        exact effect_control rfl rfl (by constructor <;> simp)
      · contradiction
  | lock =>
      simp only [act] at hact
      split at hact
      · contradiction
      · rename_i mutex hwaits
        split at hact
        · rename_i hfree
          cases hact
          exact effect_lock hwaits hfree
        · contradiction
  | work => exact effect_work hact
  | parse valid =>
      simp only [act] at hact
      split at hact
      · split at hact
        · cases hact
          exact effect_control rfl rfl (by constructor <;> simp)
        · cases hact
          exact effect_control rfl rfl (by constructor <;> simp)
      · contradiction
  | spawnEnds returned =>
      simp only [act] at hact
      split at hact
      · cases returned <;> cases hact
        all_goals
          exact effect_control rfl rfl (by constructor <;> simp)
      · contradiction
  | publish bytes =>
      simp only [act] at hact
      split at hact
      · cases hact
        exact effect_control rfl rfl (by constructor <;> simp)
      · contradiction
  | fallback bytes =>
      simp only [act] at hact
      split at hact
      · cases hact
        exact effect_control rfl rfl (by constructor <;> simp)
      · contradiction
  | writeState =>
      simp only [act] at hact
      split at hact
      · cases hact
        exact effect_control rfl rfl (by constructor <;> simp)
      · contradiction

/-- A step is a step of the top frame of its thread. -/
theorem step_eq_some {env : Env} {machine next : Machine} {label : Label}
    (hstep : step env machine label = some next) :
    ∃ frame rest shared frames, machine.stack label.1 = frame :: rest ∧
      act env machine.shared label.1 frame label.2 = some (shared, frames) ∧
        next = ⟨shared, Function.update machine.stack label.1
          (frames ++ rest)⟩ := by
  unfold step at hstep
  split at hstep
  · contradiction
  · rename_i frame rest hstack
    obtain ⟨⟨shared, frames⟩, hact, rfl⟩ := Option.map_eq_some_iff.mp hstep
    exact ⟨frame, rest, shared, frames, hstack, hact, rfl⟩

/-- Every frame below the top of a stack is waiting for a call to return. -/
def Stacked (machine : Machine) : Prop :=
  ∀ thread, ∀ frame ∈ (machine.stack thread).tail, frame.calls = true

theorem stacked_step {env : Env} {machine next : Machine} {label : Label}
    (hstacked : Stacked machine) (hstep : step env machine label = some next) :
    Stacked next := by
  obtain ⟨frame, rest, shared, frames, hstack, hact, rfl⟩ := step_eq_some hstep
  obtain ⟨thread, action⟩ := label
  intro other below hbelow
  simp only [Function.update_apply] at hbelow
  split at hbelow
  · have hrest : ∀ caller ∈ rest, caller.calls = true := by
      have hthread := hstacked thread
      rw [hstack] at hthread
      exact hthread
    cases (act_effect hact).calling with
    | inl hshort =>
        apply hrest
        cases frames with
        | nil => exact List.mem_of_mem_tail hbelow
        | cons top frames =>
            have hnil : frames = [] := by simpa using hshort
            simpa [hnil] using hbelow
    | inr hpair =>
        obtain ⟨top, caller, rfl, hcalls, -⟩ := hpair
        cases List.mem_cons.mp hbelow with
        | inl hcaller => exact hcaller ▸ hcalls
        | inr hmem => exact hrest below hmem
  · exact hstacked other below hbelow

theorem stacked_begin (start : Start) : Stacked (begin start) := by
  intro thread frame hframe
  cases thread <;> simp [begin] at hframe

end FrogAgent.DispatchMachine
