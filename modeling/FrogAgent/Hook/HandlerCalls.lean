import FrogAgent.Hook.Marshal
import FrogAgent.Hook.Slots

/-!
# The host calls of a handler and the dispatch around them

One dispatch as a function of the registers: `dispatch_rust` with
`with_current_context`, and the host functions of `hook_runtime/api.rs` through
which a handler reads and changes the call.  The original method is a function
of the register arguments, and a handler is the sequence of host calls it makes.
-/

namespace FrogAgent.HandlerCalls

open FrogAgent.Error
open FrogAgent.Marshal
open FrogAgent.PackedArg
open FrogAgent.Signature
open FrogAgent.Slots
open FrogAgent.TypedValue

abbrev Original := (Fin 4 → UInt64) → (Fin 4 → F64) → UInt64 × F64

/-- The process a dispatch runs in. -/
structure Game where
  internals : Internals
  hooks : HookState
  original : Original

/-- The entry of the per-thread stack `CURRENT`; `regs` is what its pointer
points to. -/
structure CurrentContext where
  method : ℕ
  regs : RegArgs
  args : List InvokeArg
  explicitReturn : Option InvokeArg
  calledOriginal : Bool

/-- A handler at work: its context, and how often the original has run. -/
structure Handling where
  current : CurrentContext
  executions : ℕ

def callTrampolineWithRegargs (original : Original) (regs : RegArgs) : RegArgs :=
  regs.setReturn (original regs.intArgs regs.floatArgs)

/-- The new argument is stored before the write-back, and stays stored when the
write-back fails. -/
def hookArgWrite (game : Game) (current : CurrentContext) (argIdx : ℕ)
    (bytes : List UInt8) : CurrentContext × Except InvokeError Unit :=
  match InvokeArg.decode bytes with
  | none => (current,
      .error (.marshalFailed (UInt8.ofNat argIdx) "decode failed"))
  | some (decoded, _) =>
      if current.args.length ≤ argIdx then
        (current, .error (.argCountMismatch (UInt8.ofNat current.args.length)
          (UInt8.ofNat argIdx)))
      else
        let args := current.args.set argIdx decoded
        let written := argsToRegargs game.internals game.hooks.memory
          current.method args current.regs
        ({ current with args := args, regs := written.1 }, written.2)

def hookSetReturn (current : CurrentContext) (bytes : List UInt8) :
    CurrentContext × Except InvokeError Unit :=
  match InvokeArg.decode bytes with
  | none => (current, .error (.marshalFailed 0 "decode failed"))
  | some (decoded, _) => ({ current with explicitReturn := some decoded }, .ok ())

/-- The original runs as soon as a slot of the method is found, whether or not
its result can be packed for the script. -/
def callOriginalNow (game : Game) (handling : Handling) :
    Handling × Except InvokeError (List UInt8) :=
  match findByMethod game.hooks handling.current.method with
  | none => (handling, .error (.internalFailure "no current hook"))
  | some ctx =>
      let regs := callTrampolineWithRegargs game.original handling.current.regs
      ({ current :=
          { handling.current with calledOriginal := true, regs := regs }
         executions := handling.executions + 1 },
        (originalReturn ctx.sig.returnType regs).map InvokeArg.encode)

inductive HandlerCall where
  | setArg (argIdx : ℕ) (bytes : List UInt8)
  | setReturn (bytes : List UInt8)
  | callOriginal

def hostCall (game : Game) (handling : Handling) :
    HandlerCall → Handling × Except InvokeError Unit
  | .setArg argIdx bytes =>
      let written := hookArgWrite game handling.current argIdx bytes
      ({ handling with current := written.1 }, written.2)
  | .setReturn bytes =>
      let written := hookSetReturn handling.current bytes
      ({ handling with current := written.1 }, written.2)
  | .callOriginal =>
      let called := callOriginalNow game handling
      (called.1, called.2.map fun _ => ())

def runHandler (game : Game) (handling : Handling) (calls : List HandlerCall) :
    Handling :=
  calls.foldl (fun handling call => (hostCall game handling call).1) handling

/-- Every host call of the handler returns success. -/
def Succeeds (game : Game) (handling : Handling) : List HandlerCall → Prop
  | [] => True
  | call :: calls => (hostCall game handling call).2 = .ok () ∧
      Succeeds game (hostCall game handling call).1 calls

/-- The context `with_current_context` pushes. -/
def pushed (ctx : HookCtx) (regs : RegArgs) (args : List InvokeArg) :
    Handling where
  current := ⟨ctx.method, regs, args, none, false⟩
  executions := 0

/-- The continuation of `dispatch_rust`: an explicit return value is packed,
else the original runs unless the handler has called it. -/
def finish (game : Game) (ctx : HookCtx) (handled : Handling) :
    RegArgs × ℕ :=
  match handled.current.explicitReturn with
  | some value =>
      ((packReturnIntoRegargs ctx.sig.returnType value handled.current.regs).1,
        handled.executions)
  | none =>
      if handled.current.calledOriginal then
        (handled.current.regs, handled.executions)
      else
        (callTrampolineWithRegargs game.original handled.current.regs,
          handled.executions + 1)

/-- The registers `dispatch_rust` leaves and the number of times the original
ran, with a handler that makes `calls`. -/
def dispatchRust (game : Game) (methodId : ℕ) (regs : RegArgs)
    (calls : List HandlerCall) : RegArgs × ℕ :=
  let replayed := (callTrampolineWithRegargs game.original regs, 1)
  if hid : methodId < maxHooks then
    match game.hooks.slots ⟨methodId, hid⟩ with
    | none => (regs.setReturn (0, zeroFloat), 0)
    | some ctx =>
        if game.hooks.reentry ⟨methodId, hid⟩ then replayed
        else
          match regargsToArgs game.internals game.hooks.memory ctx.method
              regs with
          | .error _ => replayed
          | .ok args =>
              finish game ctx (runHandler game (pushed ctx regs args) calls)
  else (regs.setReturn (0, zeroFloat), 0)

/-! ## What one host call changes -/

/-- `current'` differs from `current` at most in the return slots and in what
the handler has decided about the return. -/
def SameArguments (current current' : CurrentContext) : Prop :=
  current'.method = current.method ∧ current'.args = current.args ∧
    ∃ result, current'.regs = current.regs.setReturn result

theorem sameArguments_refl (current : CurrentContext) :
    SameArguments current current :=
  ⟨rfl, rfl, (current.regs.retInt, current.regs.retFloat), rfl⟩

theorem SameArguments.trans {first second third : CurrentContext}
    (hfirst : SameArguments first second) (hsecond : SameArguments second third) :
    SameArguments first third := by
  obtain ⟨hmethod, hargs, result, hregs⟩ := hfirst
  obtain ⟨hmethod', hargs', result', hregs'⟩ := hsecond
  refine ⟨hmethod'.trans hmethod, hargs'.trans hargs, result', ?_⟩
  rw [hregs', hregs]
  rfl

/-- A `hook_set_arg` call reads and writes the arguments only. -/
theorem hookArgWrite_sameArguments (game : Game)
    {current current' : CurrentContext} (hsame : SameArguments current current')
    (argIdx : ℕ) (bytes : List UInt8) :
    SameArguments (hookArgWrite game current argIdx bytes).1
      (hookArgWrite game current' argIdx bytes).1 := by
  obtain ⟨hmethod, hargs, result, hregs⟩ := hsame
  unfold hookArgWrite
  split
  · exact ⟨hmethod, hargs, result, hregs⟩
  · rw [hargs]
    split
    · exact ⟨hmethod, hargs, result, hregs⟩
    · refine ⟨hmethod, rfl, result, ?_⟩
      dsimp only
      rw [hmethod, hregs, argsToRegargs_setReturn]

theorem hookArgWrite_frame (game : Game) (current : CurrentContext)
    (argIdx : ℕ) (bytes : List UInt8) :
    (hookArgWrite game current argIdx bytes).1.explicitReturn =
        current.explicitReturn ∧
      (hookArgWrite game current argIdx bytes).1.calledOriginal =
        current.calledOriginal := by
  unfold hookArgWrite
  split
  · exact ⟨rfl, rfl⟩
  · split <;> exact ⟨rfl, rfl⟩

/-- A `hook_set_arg` call keeps the return slots. -/
theorem hookArgWrite_return (game : Game) (current : CurrentContext)
    (argIdx : ℕ) (bytes : List UInt8) :
    (hookArgWrite game current argIdx bytes).1.regs.retInt =
        current.regs.retInt ∧
      (hookArgWrite game current argIdx bytes).1.regs.retFloat =
        current.regs.retFloat := by
  have hself : current.regs =
      current.regs.setReturn (current.regs.retInt, current.regs.retFloat) := rfl
  unfold hookArgWrite
  split
  · exact ⟨rfl, rfl⟩
  · split
    · exact ⟨rfl, rfl⟩
    · dsimp only
      rw [hself, argsToRegargs_setReturn]
      exact ⟨rfl, rfl⟩

theorem hostCall_callOriginal_ok {game : Game} {handling : Handling}
    (hok : (hostCall game handling .callOriginal).2 = .ok ()) :
    (hostCall game handling .callOriginal).1 =
      { current := { handling.current with
          calledOriginal := true
          regs := callTrampolineWithRegargs game.original
            handling.current.regs }
        executions := handling.executions + 1 } := by
  unfold hostCall callOriginalNow at hok ⊢
  dsimp only at hok ⊢
  split at hok
  · contradiction
  · rfl

/-! ## Sequences of host calls -/

theorem runHandler_append (game : Game) (handling : Handling)
    (first second : List HandlerCall) :
    runHandler game handling (first ++ second) =
      runHandler game (runHandler game handling first) second :=
  List.foldl_append

/-- What no call of a sequence changes is unchanged after it. -/
theorem runHandler_keeps {α : Type*} {game : Game} {calls : List HandlerCall}
    (read : Handling → α)
    (hkeeps : ∀ handling, ∀ call ∈ calls,
      read (hostCall game handling call).1 = read handling)
    (handling : Handling) :
    read (runHandler game handling calls) = read handling := by
  induction calls generalizing handling with
  | nil => rfl
  | cons call calls ih =>
      have hrest := ih (fun handling later hlater =>
        hkeeps handling later (List.mem_cons_of_mem call hlater))
        (hostCall game handling call).1
      exact hrest.trans (hkeeps handling call List.mem_cons_self)

theorem succeeds_append {game : Game} {handling : Handling}
    {first second : List HandlerCall} :
    Succeeds game handling (first ++ second) ↔
      Succeeds game handling first ∧
        Succeeds game (runHandler game handling first) second := by
  induction first generalizing handling with
  | nil => simp [Succeeds, runHandler]
  | cons call calls ih =>
      rw [List.cons_append, Succeeds, ih, Succeeds, and_assoc]
      rfl

end FrogAgent.HandlerCalls
