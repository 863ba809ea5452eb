import FrogAgent.Hook.HandlerCalls

/-!
# Call trees of nested dispatches

Everything that happens on one thread while hooked methods run: game code enters
hooked methods, `dispatch_rust` runs handlers and trampolines, and handlers call
back into game code through `call_original` and `invoke`.  A tree records what the
game and the scripts decide to do; running it yields the thread state and a log.
`CURRENT` is a stack behind a `RefCell`, whose borrows are taken and released where
the source does, and every call of `dispatch_rust` gets a number, which its context
and its log entries carry.
-/

namespace FrogAgent.CallTree

open FrogAgent.ByteMemory
open FrogAgent.Error
open FrogAgent.HandlerCalls
open FrogAgent.Marshal
open FrogAgent.PackedArg
open FrogAgent.Signature
open FrogAgent.Slots
open FrogAgent.TypedValue

/-! ## The thread -/

/-- The borrow state of a `RefCell`. -/
inductive BorrowFlag where
  | unused
  | reading (count : ℕ)
  | writing
  deriving DecidableEq

/-- The panics of the code that uses `CURRENT`. -/
inductive Fault where
  | alreadyBorrowed
  | alreadyMutablyBorrowed
  | contextUnderflow

/-- An element of `CURRENT`, with the number of the dispatch that has pushed it. -/
structure Entry where
  dispatch : ℕ
  context : CurrentContext

/-- The state one thread sees; the last element of `CURRENT` comes first.
`holdsRegistry` says that a handler of this thread holds the registry lock. -/
structure Thread where
  hooks : HookState
  current : List Entry
  flag : BorrowFlag
  holdsRegistry : Bool
  dispatches : ℕ

def Thread.borrow (thread : Thread) : Except Fault Thread :=
  match thread.flag with
  | .unused => .ok { thread with flag := .reading 1 }
  | .reading count => .ok { thread with flag := .reading (count + 1) }
  | .writing => .error .alreadyMutablyBorrowed

def Thread.borrowMut (thread : Thread) : Except Fault Thread :=
  match thread.flag with
  | .unused => .ok { thread with flag := .writing }
  | .reading _ | .writing => .error .alreadyBorrowed

/-- The guard of the last borrow is dropped. -/
def Thread.release (thread : Thread) : Thread :=
  match thread.flag with
  | .reading (count + 2) => { thread with flag := .reading (count + 1) }
  | .unused | .reading _ | .writing => { thread with flag := .unused }

def Thread.setReentry (thread : Thread) (slot : SlotId) (flag : Bool) : Thread :=
  { thread with hooks := { thread.hooks with
      reentry := Function.update thread.hooks.reentry slot flag } }

/-! ## What game code and scripts do -/

/-- The host functions that work on the current context. -/
inductive ContextCall where
  | hookArg (argIdx : ℕ)
  | hookSetArg (argIdx : ℕ) (bytes : List UInt8)
  | hookThis
  | hookSetReturn (bytes : List UInt8)

/-- What `call_hook_handler` meets: whether another thread holds `REGISTRY`, and
whether a runtime is registered whose table holds the handler. -/
structure Lookup where
  contended : Bool
  resolves : Bool

mutual

/-- Game code.  `world` is any change to memory and hooks from elsewhere.  `enter`
calls the method hooked by slot `methodId`; `handler` is what the handler does if it
is run, and `original` what the code behind the trampoline does if `dispatch_rust`
runs it. -/
inductive Code where
  | ret
  | world (change : HookState → HookState) (rest : Code)
  | enter (methodId : ℕ) (regs : RegArgs) (lookup : Lookup) (handler : Script)
      (original rest : Code)

/-- A handler.  `world` stands for the host functions that do not use the context,
`install_hook` and `remove_hook` among them; `result` is what the original leaves in
the return registers. -/
inductive Script where
  | ret
  | trap
  | world (change : HookState → HookState) (rest : Script)
  | context (call : ContextCall) (rest : Script)
  | callOriginal (original : Code) (result : UInt64 × F64) (rest : Script)
  | invoke (code : Code) (rest : Script)

end

/-- What has happened, in order; `body` is what happened inside. -/
inductive Log where
  | nil
  | dispatch (methodId : ℕ) (body rest : Log)
  | trampoline (address : ℕ) (body rest : Log)
  | handler (slot : SlotId) (body rest : Log)
  | invoke (body rest : Log)
  /-- `CURRENT` was borrowed on behalf of dispatch number `dispatch`: the flag
  before, and the number on the element that was used. -/
  | access (dispatch : ℕ) (flag : BorrowFlag) (context : Option ℕ) (rest : Log)

abbrev Action := Thread → Except Fault (Thread × Log)

/-! ## The code of the agent -/

def callTrampoline (address : ℕ) (original : Action) : Action := fun thread => do
  let (returned, body) ← original thread
  .ok (returned, .trampoline address body .nil)

/-- `call_hook_handler`: the log of the handler, if it is run.  A trap ends the
handler, and the registry guard is dropped either way. -/
def callHookHandler (lookup : Lookup) (handler : Action) (thread : Thread) :
    Except Fault (Thread × Option Log) :=
  if thread.holdsRegistry || lookup.contended || !lookup.resolves then
    .ok (thread, none)
  else do
    let (handled, body) ← handler { thread with holdsRegistry := true }
    .ok ({ handled with holdsRegistry := false }, some body)

def Thread.push (thread : Thread) (entry : Entry) : Except Fault Thread := do
  let borrowed ← thread.borrowMut
  .ok { borrowed with current := entry :: borrowed.current }.release

def Thread.pop (thread : Thread) : Except Fault (Entry × Thread) := do
  let borrowed ← thread.borrowMut
  match borrowed.current with
  | [] => .error .contextUnderflow
  | entry :: rest => .ok (entry, { borrowed with current := rest }.release)

def Log.ofHandler (slot : SlotId) (body : Option Log) (rest : Log) : Log :=
  match body with
  | none => rest
  | some body => .handler slot body rest

def withCurrentContext (dispatch : ℕ) (slot : SlotId) (context : CurrentContext)
    (lookup : Lookup) (handler : Action) (cont : CurrentContext → Action) :
    Action := fun thread => do
  let pushed ← thread.push ⟨dispatch, context⟩
  let (handled, body) ← callHookHandler lookup handler pushed
  let (entry, popped) ← handled.pop
  let (finished, later) ← cont entry.context popped
  .ok (finished, .access dispatch thread.flag (some dispatch)
    (Log.ofHandler slot body
      (.access dispatch handled.flag (some entry.dispatch) later)))

/-- The continuation: the original runs unless a return value is set or the handler
has called it. -/
def continuation (address : ℕ) (original : Action) (handled : CurrentContext) :
    Action := fun thread =>
  if handled.explicitReturn.isNone && !handled.calledOriginal then
    callTrampoline address original thread
  else .ok (thread, .nil)

/-- `dispatch_rust` once the reentry flag is set: arguments that do not marshal fall
back to the trampoline. -/
def dispatchEntered (internals : Internals) (dispatch : ℕ) (slot : SlotId)
    (ctx : HookCtx) (regs : RegArgs) (lookup : Lookup) (handler original : Action) :
    Action := fun thread =>
  match regargsToArgs internals thread.hooks.memory ctx.method regs with
  | .error _ => callTrampoline ctx.patch.trampoline original thread
  | .ok args =>
      withCurrentContext dispatch slot ⟨ctx.method, regs, args, none, false⟩ lookup
        handler (continuation ctx.patch.trampoline original) thread

/-- `dispatch_rust` with no reload pending, as call number `dispatch`. -/
def dispatchNumbered (internals : Internals) (dispatch methodId : ℕ) (regs : RegArgs)
    (lookup : Lookup) (handler original : Action) : Action := fun thread =>
  if hid : methodId < maxHooks then
    let slot : SlotId := ⟨methodId, hid⟩
    match thread.hooks.slots slot with
    | none => .ok (thread, .nil)
    | some ctx =>
        if thread.hooks.reentry slot then
          callTrampoline ctx.patch.trampoline original thread
        else do
          let (left, log) ← dispatchEntered internals dispatch slot ctx regs lookup
            handler original (thread.setReentry slot true)
          .ok (left.setReentry slot false, log)
  else .ok (thread, .nil)

def dispatchRust (internals : Internals) (methodId : ℕ) (regs : RegArgs)
    (lookup : Lookup) (handler : ℕ → Action) (original : Action) : Action :=
  fun caller => dispatchNumbered internals caller.dispatches methodId regs lookup
    (handler caller.dispatches) original
    { caller with dispatches := caller.dispatches + 1 }

/-! ## The host functions -/

/-- The process as the host functions see it; `result` is what the original
returns, should it be called. -/
def Thread.game (internals : Internals) (thread : Thread) (result : UInt64 × F64) :
    Game :=
  ⟨internals, thread.hooks, fun _ _ => result⟩

/-- What a host function does to the context it finds. -/
def ContextCall.apply (internals : Internals) (thread : Thread)
    (current : CurrentContext) : ContextCall → CurrentContext
  | .hookArg _ | .hookThis => current
  | .hookSetArg argIdx bytes =>
      (hookArgWrite (thread.game internals (0, zeroFloat)) current argIdx bytes).1
  | .hookSetReturn bytes => (HandlerCalls.hookSetReturn current bytes).1

/-- `hook_arg` and `hook_this` only read; `hook_set_return` decodes its buffer
before it looks at `CURRENT`. -/
def ContextCall.borrow (thread : Thread) : ContextCall → Option (Except Fault Thread)
  | .hookArg _ | .hookThis => some thread.borrow
  | .hookSetArg _ _ => some thread.borrowMut
  | .hookSetReturn bytes =>
      if (InvokeArg.decode bytes).isSome then some thread.borrowMut else none

/-- Outside a handler the host functions find no context and return an error. -/
def ContextCall.run (internals : Internals) (call : ContextCall) (dispatch : ℕ)
    (rest : Action) : Action := fun thread =>
  match call.borrow thread with
  | none => rest thread
  | some borrow => do
      let borrowed ← borrow
      let (current, used) := match borrowed.current with
        | [] => ([], none)
        | entry :: below =>
            ({ entry with context := call.apply internals thread entry.context } ::
              below, some entry.dispatch)
      let (next, later) ← rest { borrowed with current := current }.release
      .ok (next, .access dispatch thread.flag used later)

/-- Write the return registers of a dispatch through the pointer in its context. -/
def writeReturn (dispatch : ℕ) (result : UInt64 × F64) : List Entry → List Entry
  | [] => []
  | entry :: below =>
      if entry.dispatch = dispatch then
        { entry with context := { entry.context with
            regs := entry.context.regs.setReturn result } } :: below
      else entry :: writeReturn dispatch result below

/-- `call_original_now`: the borrow ends with the closure that finds the
trampoline, before the original runs. -/
def callOriginalNow (dispatch : ℕ) (original : Action) (result : UInt64 × F64)
    (rest : Action) : Action := fun thread => do
  let borrowed ← thread.borrowMut
  match borrowed.current with
  | [] =>
      let (next, later) ← rest borrowed.release
      .ok (next, .access dispatch thread.flag none later)
  | entry :: below =>
      match findByMethod borrowed.hooks entry.context.method with
      | none =>
          let (next, later) ← rest borrowed.release
          .ok (next, .access dispatch thread.flag (some entry.dispatch) later)
      | some ctx =>
          let marked : Entry :=
            { entry with context := { entry.context with calledOriginal := true } }
          let (returned, body) ←
            original { borrowed with current := marked :: below }.release
          let (next, later) ← rest { returned with
            current := writeReturn entry.dispatch result returned.current }
          .ok (next, .access dispatch thread.flag (some entry.dispatch)
            (.trampoline ctx.patch.trampoline body later))

mutual

def Code.run (internals : Internals) : Code → Action
  | .ret => fun thread => .ok (thread, .nil)
  | .world change rest => fun thread =>
      rest.run internals { thread with hooks := change thread.hooks }
  | .enter methodId regs lookup handler original rest => fun thread => do
      let (returned, body) ← dispatchRust internals methodId regs lookup
        (handler.run internals) (original.run internals) thread
      let (next, later) ← rest.run internals returned
      .ok (next, .dispatch methodId body later)

/-- The handler that dispatch number `dispatch` has started. -/
def Script.run (internals : Internals) : Script → ℕ → Action
  | .ret, _ => fun thread => .ok (thread, .nil)
  | .trap, _ => fun thread => .ok (thread, .nil)
  | .world change rest, dispatch => fun thread =>
      rest.run internals dispatch { thread with hooks := change thread.hooks }
  | .context call rest, dispatch =>
      call.run internals dispatch (rest.run internals dispatch)
  | .callOriginal original result rest, dispatch =>
      callOriginalNow dispatch (original.run internals) result
        (rest.run internals dispatch)
  | .invoke code rest, dispatch => fun thread => do
      let (returned, body) ← code.run internals thread
      let (next, later) ← rest.run internals dispatch returned
      .ok (next, .invoke body later)

end

/-! ## A fixed set of hooks -/

/-- The change neither publishes nor withdraws a slot nor touches a reentry flag. -/
def KeepsHooks (change : HookState → HookState) : Prop :=
  ∀ hooks, (change hooks).slots = hooks.slots ∧ (change hooks).reentry = hooks.reentry

mutual

/-- No hook is installed or removed anywhere in the tree. -/
def Code.HooksFixed : Code → Prop
  | .ret => True
  | .world change rest => KeepsHooks change ∧ rest.HooksFixed
  | .enter _ _ _ handler original rest =>
      handler.HooksFixed ∧ original.HooksFixed ∧ rest.HooksFixed

def Script.HooksFixed : Script → Prop
  | .ret | .trap => True
  | .world change rest => KeepsHooks change ∧ rest.HooksFixed
  | .context _ rest => rest.HooksFixed
  | .callOriginal original _ rest => original.HooksFixed ∧ rest.HooksFixed
  | .invoke code rest => code.HooksFixed ∧ rest.HooksFixed

end

end FrogAgent.CallTree
