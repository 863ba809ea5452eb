import FrogAgent.Hook.Precedence

/-!
# Falling back to the original

`dispatcher.rs` promises that any failure to dispatch falls through to the
trampoline.  A dispatch fails when its arguments do not marshal, when the handler
cannot be called or traps before it has set a return value, and when the value it has
set cannot be packed.  The first three end in the trampoline; the last one is only
logged, after the return slots have been cleared.
-/

namespace FrogAgent.Fallback

open FrogAgent.Error
open FrogAgent.HandlerCalls
open FrogAgent.Marshal
open FrogAgent.PackedArg
open FrogAgent.Precedence
open FrogAgent.Slots
open FrogAgent.TypedValue

/-- What becomes of the handler: it is not called (the registry is busy or empty, or
the table has no such function), or it makes `calls` and then returns or traps. -/
inductive HandlerRun where
  | notCalled
  | ran (calls : List HandlerCall) (traps : Bool)

def HandlerRun.calls : HandlerRun → List HandlerCall
  | .notCalled => []
  | .ran calls _ => calls

/-- The handler was not called, or it has trapped. -/
def HandlerRun.Broken : HandlerRun → Prop
  | .notCalled => True
  | .ran _ traps => traps = true

/-- The explicit return value after one more host call. -/
def returnAfter (value : Option InvokeArg) : HandlerCall → Option InvokeArg
  | .setReturn bytes =>
      match InvokeArg.decode bytes with
      | none => value
      | some (decoded, _) => some decoded
  | .setArg _ _ | .callOriginal => value

/-- The value of the last `hook_set_return` whose buffer decodes. -/
def latestReturn (calls : List HandlerCall) : Option InvokeArg :=
  calls.foldl returnAfter none

/-- What `pack_return_into_regargs` accepts. -/
def Packable (returnType : ValType) : InvokeArg → Prop
  | .null => True
  | .prim value => value.valType = returnType ∧ returnType.fixedWidth.isSome = true
  | .instance _ | .string _ | .struct _ | .array _ => False

/-- A call of a method whose hook is published. -/
structure Dispatch where
  game : Game
  slot : SlotId
  ctx : HookCtx
  regs : RegArgs
  run : HandlerRun
  published : game.hooks.slots slot = some ctx

namespace Dispatch

def args (dispatch : Dispatch) : Except InvokeError (List InvokeArg) :=
  regargsToArgs dispatch.game.internals dispatch.game.hooks.memory dispatch.ctx.method
    dispatch.regs

def reentrant (dispatch : Dispatch) : Bool := dispatch.game.hooks.reentry dispatch.slot

/-- The registers that are current when the dispatch gives up on the handler. -/
def currentRegs (dispatch : Dispatch) : RegArgs :=
  match dispatch.args with
  | .error _ => dispatch.regs
  | .ok args => (runHandler dispatch.game (pushed dispatch.ctx dispatch.regs args)
      dispatch.run.calls).current.regs

def result (dispatch : Dispatch) : RegArgs × ℕ :=
  dispatchRust dispatch.game dispatch.slot.val dispatch.regs dispatch.run.calls

/-- `dispatch_rust` cannot complete the handler's request. -/
inductive Fails (dispatch : Dispatch) : Prop where
  | marshal (error : InvokeError) (hargs : dispatch.args = .error error)
  | broken (hbroken : dispatch.run.Broken)
      (hunset : latestReturn dispatch.run.calls = none)
  | unpackable (args : List InvokeArg) (hargs : dispatch.args = .ok args)
      (value : InvokeArg)
      (hset : latestReturn dispatch.run.calls = some value) (error : InvokeError)
      (herror : (packReturnIntoRegargs dispatch.ctx.sig.returnType value
        dispatch.currentRegs).2 = .error error)

/-- A first dispatch that fails while its handler has not called the original runs
the original exactly once, on the current register arguments, and delivers what it
returns. -/
def FallsBack (dispatch : Dispatch) : Prop :=
  dispatch.reentrant = false → dispatch.Fails →
    (∀ call ∈ dispatch.run.calls, callsOriginal call = false) →
      dispatch.result.2 = 1 ∧
        (dispatch.result.1.retInt, dispatch.result.1.retFloat) =
          dispatch.game.original dispatch.currentRegs.intArgs
            dispatch.currentRegs.floatArgs

end Dispatch

/-! ## What the handler leaves -/

theorem explicitReturn_hostCall (game : Game) (handling : Handling)
    (call : HandlerCall) :
    (hostCall game handling call).1.current.explicitReturn =
      returnAfter handling.current.explicitReturn call := by
  cases call with
  | setArg argIdx bytes =>
      exact (hookArgWrite_frame game handling.current argIdx bytes).1
  | setReturn bytes =>
      simp only [hostCall, hookSetReturn, returnAfter]
      cases InvokeArg.decode bytes with
      | none => rfl
      | some decoded => rfl
  | callOriginal =>
      simp only [hostCall, callOriginalNow, returnAfter]
      cases findByMethod game.hooks handling.current.method with
      | none => rfl
      | some ctx => rfl

theorem explicitReturn_runHandler (game : Game) (handling : Handling)
    (calls : List HandlerCall) :
    (runHandler game handling calls).current.explicitReturn =
      calls.foldl returnAfter handling.current.explicitReturn := by
  induction calls generalizing handling with
  | nil => rfl
  | cons call calls ih =>
      rw [List.foldl_cons, ← explicitReturn_hostCall game handling call]
      exact ih (hostCall game handling call).1

/-- Without `call_original` the original does not run inside the handler. -/
theorem executions_kept {game : Game} {calls : List HandlerCall} (handling : Handling)
    (hcalls : ∀ call ∈ calls, callsOriginal call = false) :
    (runHandler game handling calls).executions = handling.executions := by
  apply runHandler_keeps Handling.executions
  intro handling call hcall
  cases call with
  | setArg argIdx bytes => rfl
  | setReturn bytes => rfl
  | callOriginal =>
      have hfalse := hcalls _ hcall
      contradiction

theorem calledOriginal_kept {game : Game} {calls : List HandlerCall}
    (handling : Handling) (hcalls : ∀ call ∈ calls, callsOriginal call = false) :
    (runHandler game handling calls).current.calledOriginal =
      handling.current.calledOriginal :=
  congrArg Prod.fst (trace_kept handling hcalls)

theorem packReturn_mismatch {returnType : ValType} {value : Value} (regs : RegArgs)
    (htype : value.valType ≠ returnType) :
    (packReturnIntoRegargs returnType (.prim value) regs).2 =
      .error (.argTypeMismatch 0 returnType value.valType) := by
  simp only [packReturnIntoRegargs]
  split <;> first | exact absurd rfl htype | rfl

theorem packReturn_ok_iff (returnType : ValType) (value : InvokeArg) (regs : RegArgs) :
    (packReturnIntoRegargs returnType value regs).2 = .ok () ↔
      Packable returnType value := by
  cases value with
  | null => exact iff_of_true rfl trivial
  | prim value =>
      by_cases htype : value.valType = returnType
      · subst htype
        cases value with
        | u8 | u16 | u32 | u64 | i8 | i16 | i32 | i64 | f32 | f64 =>
            exact iff_of_true rfl ⟨rfl, rfl⟩
        | bytes | cstr => exact iff_of_false nofun fun hpack => nomatch hpack.2
      · rw [packReturn_mismatch regs htype]
        exact iff_of_false nofun fun hpack => htype hpack.1
  | «instance» | string | struct | array => exact iff_of_false nofun id

/-! ## Every failure -/

namespace Dispatch

variable (dispatch : Dispatch)

/-- A first dispatch whose arguments do not marshal. -/
theorem result_marshal {error : InvokeError} (hfresh : dispatch.reentrant = false)
    (hargs : dispatch.args = .error error) :
    dispatch.result =
      (callTrampolineWithRegargs dispatch.game.original dispatch.regs, 1) := by
  rw [reentrant] at hfresh
  rw [args] at hargs
  rw [result, dispatchRust, dif_pos dispatch.slot.isLt]
  simp only [Fin.eta, dispatch.published, hfresh, hargs, Bool.false_eq_true, if_false]

/-- A first dispatch that gets to its handler. -/
theorem result_handled {args : List InvokeArg} (hfresh : dispatch.reentrant = false)
    (hargs : dispatch.args = .ok args) :
    dispatch.result = finish dispatch.game dispatch.ctx
      (runHandler dispatch.game (pushed dispatch.ctx dispatch.regs args)
        dispatch.run.calls) := by
  rw [reentrant] at hfresh
  rw [Dispatch.args] at hargs
  rw [result, dispatchRust, dif_pos dispatch.slot.isLt]
  simp only [Fin.eta, dispatch.published, hfresh, hargs, Bool.false_eq_true, if_false]

/-- The transparent observer: without a return value and without `call_original` the
trampoline runs. -/
theorem result_observed {args : List InvokeArg} (hfresh : dispatch.reentrant = false)
    (hargs : dispatch.args = .ok args)
    (hunset : latestReturn dispatch.run.calls = none)
    (hcalls : ∀ call ∈ dispatch.run.calls, callsOriginal call = false) :
    dispatch.result =
      (callTrampolineWithRegargs dispatch.game.original dispatch.currentRegs, 1) := by
  rw [dispatch.result_handled hfresh hargs, finish, explicitReturn_runHandler,
    calledOriginal_kept _ hcalls, executions_kept _ hcalls, currentRegs, hargs]
  rw [latestReturn] at hunset
  simp only [pushed, hunset, Bool.false_eq_true, if_false]

/-- An explicit return value: it is packed or not, the original does not run. -/
theorem result_explicit {args : List InvokeArg} {value : InvokeArg}
    (hfresh : dispatch.reentrant = false) (hargs : dispatch.args = .ok args)
    (hset : latestReturn dispatch.run.calls = some value)
    (hcalls : ∀ call ∈ dispatch.run.calls, callsOriginal call = false) :
    dispatch.result.2 = 0 := by
  rw [dispatch.result_handled hfresh hargs, finish, explicitReturn_runHandler,
    executions_kept _ hcalls]
  rw [latestReturn] at hset
  simp only [pushed, hset]

/-- The condition under which every failure ends in the original: an explicit return
value, where one is set and counts, can be packed. -/
def ReturnsPackable : Prop :=
  dispatch.reentrant = true ∨ (∃ error, dispatch.args = .error error) ∨
    (∃ call ∈ dispatch.run.calls, callsOriginal call = true) ∨
    ∀ value, latestReturn dispatch.run.calls = some value →
      Packable dispatch.ctx.sig.returnType value

/-- What the original returns to a dispatch that falls back. -/
theorem delivers_original (hresult : dispatch.result =
      (callTrampolineWithRegargs dispatch.game.original dispatch.currentRegs, 1)) :
    dispatch.result.2 = 1 ∧
      (dispatch.result.1.retInt, dispatch.result.1.retFloat) =
        dispatch.game.original dispatch.currentRegs.intArgs
          dispatch.currentRegs.floatArgs := by
  rw [hresult]
  exact ⟨rfl, rfl⟩

theorem currentRegs_marshal {error : InvokeError} (hargs : dispatch.args = .error error) :
    dispatch.currentRegs = dispatch.regs := by
  rw [currentRegs, hargs]

/-- A failed dispatch whose explicit return value cannot be packed does not fall
back; all other failed dispatches do. -/
theorem fallsBack_iff_returnsPackable :
    dispatch.FallsBack ↔ dispatch.ReturnsPackable := by
  constructor
  · intro hfalls
    by_contra hcondition
    simp only [ReturnsPackable, not_or, not_exists, not_forall, not_and,
      Bool.not_eq_true] at hcondition
    obtain ⟨hfresh, hmarshals, hcalls, value, hset, hunpackable⟩ := hcondition
    cases hargs : dispatch.args with
    | error error => exact hmarshals error hargs
    | ok args =>
        cases hpack : (packReturnIntoRegargs dispatch.ctx.sig.returnType value
            dispatch.currentRegs).2 with
        | ok packed => exact hunpackable ((packReturn_ok_iff _ value _).mp hpack)
        | error error =>
            have honce := hfalls hfresh
              (.unpackable args hargs value hset error hpack) hcalls
            rw [dispatch.result_explicit hfresh hargs hset hcalls] at honce
            exact absurd honce.1 Nat.zero_ne_one
  · intro hcondition hfresh hfails hcalls
    apply dispatch.delivers_original
    cases hargs : dispatch.args with
    | error error =>
        rw [dispatch.result_marshal hfresh hargs, dispatch.currentRegs_marshal hargs]
    | ok args =>
        cases hfails with
        | marshal error herror =>
            rw [hargs] at herror
            contradiction
        | broken hbroken hunset =>
            exact dispatch.result_observed hfresh hargs hunset hcalls
        | unpackable args hok value hset error herror =>
            rcases hcondition with hreentrant | ⟨other, hother⟩ | ⟨call, hcall, hmade⟩ | hpack
            · rw [hfresh] at hreentrant
              contradiction
            · rw [hargs] at hother
              contradiction
            · rw [hcalls call hcall] at hmade
              contradiction
            · rw [(packReturn_ok_iff _ value _).mpr (hpack value hset)] at herror
              contradiction

end Dispatch

/-! ## A handler that sets a value of another type -/

theorem sampleGame_published : sampleGame.hooks.slots 0 = some sampleCtx := rfl

/-- The handler of a method that returns `u64` sets the `u8` 5 and returns. -/
def sampleDispatch : Dispatch where
  game := sampleGame
  slot := 0
  ctx := sampleCtx
  regs := sampleRegs
  run := .ran [.setReturn [0, 5]] false
  published := sampleGame_published

/-- The original, which would return 7, does not run, and the caller gets 0. -/
theorem not_fallsBack_sampleDispatch :
    sampleDispatch.result.2 = 0 ∧ sampleDispatch.result.1.retInt = 0 ∧
      ¬ sampleDispatch.FallsBack := by
  have hresult : sampleDispatch.result.2 = 0 := by decide +kernel
  refine ⟨hresult, by decide +kernel, fun hfalls => ?_⟩
  have hfails : sampleDispatch.Fails :=
    .unpackable [] rfl (.prim (.u8 5)) rfl (.argTypeMismatch 0 .u64 .u8) rfl
  have hcalls : ∀ call ∈ sampleDispatch.run.calls, callsOriginal call = false := by
    decide +kernel
  have honce := (hfalls rfl hfails hcalls).1
  rw [hresult] at honce
  contradiction

end FrogAgent.Fallback
