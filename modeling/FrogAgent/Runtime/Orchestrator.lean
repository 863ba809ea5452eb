import FrogAgent.Host.JournalRevert
import FrogAgent.Hook.Slots

/-!
# The runtime registry and the reload sequence

`runtime/registry.rs`, `run_wasm_with_mem` of `runtime/mem_host.rs`,
`call_hook_handler` of `runtime/host.rs` and `registry_reload` of
`runtime/orchestrator.rs`, run on one thread.  The wasm engine is seen through
the host calls a module makes, in program order, and the way each of its entry
points ends.  Two ghost lists remember which entries a runtime journalled and
which entries were handed to the revert step.
-/

namespace FrogAgent.Orchestrator

open FrogAgent.ByteMemory
open FrogAgent.Error
open FrogAgent.Journal
open FrogAgent.JournalRevert
open FrogAgent.MemHost
open FrogAgent.Slots

/-- Process-wide parameters: the hook runtime and the memory backend. -/
structure World where
  hook : Env
  backend : Backend

/-- A host call that can change process memory, hooks or the journal.
`gameCode` stands for `il2cpp.invoke` and `il2cpp.call_original`: the game has
run and left this memory. -/
inductive HostCall where
  | mem (call : ScriptCall)
  | writePermanent (guest : Option (List UInt8)) (addr : BitVec 64)
      (ty inPtr inLen : BitVec 32)
  | installHook (allocs : Allocs) (methodPtr : BitVec 64)
      (handlerFuncrefTableIdx : BitVec 32)
  | removeHook (handle : BitVec 64)
  | gameCode (memory : Memory UInt8)

/-- A store whose code is running, with the part of the process it can reach. -/
structure Exec where
  data : HostState
  hooks : HookState

/-- The caller handed to a `mem.*` host function. -/
def Exec.caller (exec : Exec) (guest : Option (List UInt8)) : Caller :=
  ⟨exec.data, guest, exec.hooks.memory⟩

/-- Take back what a `mem.*` host function changed. -/
def Exec.resume (exec : Exec) (caller : Caller) : Exec where
  data := caller.data
  hooks := { exec.hooks with memory := caller.process }

/-- `host_install_hook`: the hook is tagged with the runtime id of the store. -/
def hostInstallHook (world : World) (exec : Exec) (allocs : Allocs)
    (methodPtr : BitVec 64) (handlerFuncrefTableIdx : BitVec 32) :
    HookState × Except HookError SlotId :=
  Slots.installHook world.hook allocs exec.hooks methodPtr.toNat
    (handlerFuncrefTableIdx.signExtend 64).toNat exec.data.runtimeId

def runHostCall (world : World) (exec : Exec) : HostCall → Exec
  | .mem call => exec.resume (runCall world.backend (exec.caller none) call)
  | .writePermanent guest addr ty inPtr inLen =>
      exec.resume (hostWritePermanent world.backend (exec.caller guest) addr ty
        inPtr inLen).1
  | .installHook allocs methodPtr idx =>
      { exec with hooks := (hostInstallHook world exec allocs methodPtr idx).1 }
  | .removeHook handle =>
      { exec with
        hooks := (Slots.removeHook world.hook exec.hooks handle.toNat).1 }
  | .gameCode memory =>
      { exec with hooks := { exec.hooks with memory := memory } }

def runHostCalls (world : World) (exec : Exec) (calls : List HostCall) : Exec :=
  calls.foldl (runHostCall world) exec

/-! ## Modules and runtimes -/

/-- One call into a module: the host calls it makes, and whether it traps (fuel
exhaustion included). -/
structure Entry where
  calls : List HostCall
  traps : Bool

inductive TableEntry where
  | funcRef (func : ℕ) (nullary : Bool)
  | null
  | other

/-- A module that parses: what instantiation with its start function does, the
`frog_main` export and the exported `__indirect_function_table`. -/
structure WasmModule where
  start : Entry
  frogMain : Option Entry
  table : Option (List TableEntry)

inductive WasmError where
  | parse
  | instantiate
  | noEntry
  | trap
  deriving DecidableEq

structure ParkedRuntime where
  id : ℕ
  store : HostState
  funcrefTable : Option (List TableEntry)

structure RuntimeState where
  hooks : HookState
  registry : List ParkedRuntime
  nextId : ℕ
  journalled : List (ℕ × Patch UInt8)
  reverted : List (ℕ × Patch UInt8)

def RuntimeState.initial (memory : Memory UInt8) : RuntimeState :=
  ⟨HookState.initial memory, [], 1, [], []⟩

def tagged (id : ℕ) (entries : List (Patch UInt8)) : List (ℕ × Patch UInt8) :=
  entries.map fun entry => (id, entry)

/-- The process after the code of a store has stopped. -/
def RuntimeState.stopped (state : RuntimeState) (exec : Exec) : RuntimeState :=
  { state with
    hooks := exec.hooks
    journalled := state.journalled ++
      tagged exec.data.runtimeId exec.data.writeJournal.entries }

/-- `registry::insert`; `none` is the failed assertion. -/
def insert (state : RuntimeState) (runtime : ParkedRuntime) :
    Option RuntimeState :=
  if state.registry.isEmpty then
    some { state with registry := state.registry ++ [runtime] }
  else none

/-- The store `run_wasm_with_mem` creates: a fresh id and an empty journal. -/
def spawnExec (state : RuntimeState) : Exec :=
  ⟨⟨state.nextId, WriteJournal.new⟩, state.hooks⟩

/-- `run_wasm_with_mem`.  The id is allocated once the module has parsed, and
every error after that drops the store with its journal. -/
def runWasmWithMem (world : World) (state : RuntimeState)
    (loaded : Option WasmModule) :
    Option (RuntimeState × Except WasmError Unit) :=
  match loaded with
  | none => some (state, .error .parse)
  | some loaded =>
      let allocated := { state with nextId := state.nextId + 1 }
      let started := runHostCalls world (spawnExec state) loaded.start.calls
      if loaded.start.traps then
        some (allocated.stopped started, .error .instantiate)
      else
        match loaded.frogMain with
        | none => some (allocated.stopped started, .error .noEntry)
        | some frogMain =>
            let finished := runHostCalls world started frogMain.calls
            if frogMain.traps then
              some (allocated.stopped finished, .error .trap)
            else
              (insert (allocated.stopped finished)
                ⟨state.nextId, finished.data, loaded.table⟩).map
                  fun next => (next, .ok ())

/-- `spawn_fresh` logs the result of the spawn and drops it. -/
def spawnFresh (world : World) (state : RuntimeState)
    (loaded : Option WasmModule) : Option RuntimeState :=
  (runWasmWithMem world state loaded).map Prod.fst

/-- The iteration order of one hash map. -/
structure HashOrder where
  iter : List (Patch UInt8) → List (Patch UInt8)
  iter_perm : ∀ entries, (iter entries).Perm entries

/-- The arguments of one `registry_reload` call: the buffer, what the engine
makes of it, and the order in which the extracted journal is iterated. -/
structure Reload where
  bytes : List UInt8
  loaded : Option WasmModule
  order : HashOrder

def collectOwnedHookIds (hooks : HookState) (targetId : ℕ) : List SlotId :=
  (List.finRange maxHooks).filter fun slot =>
    (hooks.slots slot).any fun ctx => ctx.runtimeId = targetId

/-- Step 3: `remove_hook` on every slot the runtime owns. -/
def unhookOwned (env : Env) (hooks : HookState) (targetId : ℕ) : HookState :=
  (collectOwnedHookIds hooks targetId).foldl
    (fun hooks slot => (Slots.removeHook env hooks slot.val).1) hooks

/-- Steps 1 to 4, with `runtime` the first entry of the registry. -/
def tearDown (world : World) (state : RuntimeState) (order : HashOrder)
    (runtime : ParkedRuntime) : RuntimeState :=
  let entries := order.iter runtime.store.writeJournal.takeEntries.1
  let reverted := { state.hooks with
    memory := revertEntries world.backend state.hooks.memory entries }
  { state with
    hooks := unhookOwned world.hook reverted runtime.id
    registry := state.registry.dropLast
    reverted := state.reverted ++ tagged runtime.id entries }

/-- The state in which a reload starts its spawn. -/
def tornDown (world : World) (state : RuntimeState) (reload : Reload) :
    RuntimeState :=
  match state.registry with
  | [] => state
  | runtime :: _ => tearDown world state reload.order runtime

/-- `registry_reload`. -/
def registryReload (world : World) (state : RuntimeState) (reload : Reload) :
    Option RuntimeState :=
  if reload.bytes = [] then some (tornDown world state reload)
  else spawnFresh world (tornDown world state reload) reload.loaded

/-! ## Dispatch -/

/-- `call_hook_handler` up to the call, with the registry lock free: the runtime
whose store it locks and the function it finds there. -/
def callHookHandler (registry : List ParkedRuntime) (handlerFuncrefIdx : ℕ) :
    Except String (ParkedRuntime × ℕ) :=
  match registry with
  | [] => .error "REGISTRY empty (no script loaded, or frog_main still running)"
  | runtime :: _ =>
      match runtime.funcrefTable with
      | none =>
          .error "no funcref table exported — script cannot dispatch hooks"
      | some table =>
          match (table[handlerFuncrefIdx % 2 ^ 32]? : Option TableEntry) with
          | none => .error "funcref index out of range"
          | some .null => .error "funcref is null"
          | some .other => .error "table entry is not a funcref"
          | some (.funcRef func nullary) =>
              if nullary then .ok (runtime, func)
              else .error "handler signature is not () -> ()"

/-- A dispatch of slot `slot`: if its handler resolves, the handler runs in the
store of the registered runtime, up to its end or a trap. -/
def dispatchHandler (world : World) (state : RuntimeState) (slot : SlotId)
    (calls : List HostCall) : RuntimeState :=
  match state.hooks.slots slot with
  | none => state
  | some ctx =>
      match callHookHandler state.registry ctx.handlerFuncRef with
      | .error _ => state
      | .ok (runtime, _) =>
          let exec := runHostCalls world ⟨runtime.store, state.hooks⟩ calls
          { state.stopped exec with
            registry := { runtime with store := exec.data } ::
              state.registry.tail }

/-- What happens to the agent between and during reloads. -/
inductive Event where
  | reload (reload : Reload)
  | handler (slot : SlotId) (calls : List HostCall)
  | game (memory : Memory UInt8)

def step (world : World) (state : RuntimeState) : Event → Option RuntimeState
  | .reload reload => registryReload world state reload
  | .handler slot calls => some (dispatchHandler world state slot calls)
  | .game memory =>
      some { state with hooks := { state.hooks with memory := memory } }

end FrogAgent.Orchestrator
