import FrogAgent.Hook.HandlerCalls
import FrogAgent.Hook.OneHookPerMethod

/-!
# Which return value wins

The precedence policy of the hook design: `hook_set_return` and `call_original`
both set the return value, the latest of the two wins, and without either the
agent runs the original itself.  `dispatch_rust` keeps an optional explicit
value and a flag instead of an order, so an explicit value always wins.
-/

namespace FrogAgent.Precedence

open FrogAgent.HandlerCalls
open FrogAgent.Marshal
open FrogAgent.PackedArg
open FrogAgent.Slots
open FrogAgent.TypedValue

/-- The return slots of a value: integers extended to 64 bits, floats in the
floating-point slot.  No signature declares a variable-length return. -/
def returnSlots : Value → UInt64 × F64
  | .u8 number => (number.toUInt64, zeroFloat)
  | .u16 number => (number.toUInt64, zeroFloat)
  | .u32 number => (number.toUInt64, zeroFloat)
  | .u64 number => (number, zeroFloat)
  | .i8 number => (number.toInt64.toUInt64, zeroFloat)
  | .i16 number => (number.toInt64.toUInt64, zeroFloat)
  | .i32 number => (number.toInt64.toUInt64, zeroFloat)
  | .i64 number => (number.toUInt64, zeroFloat)
  | .f32 number => (0, number.toF64)
  | .f64 number => (0, number)
  | .bytes _ | .cstr _ => (0, zeroFloat)

def setsReturn : HandlerCall → Bool
  | .setReturn _ => true
  | _ => false

def callsOriginal : HandlerCall → Bool
  | .callOriginal => true
  | _ => false

/-- One of the two setters of the return value. -/
def isSetter (call : HandlerCall) : Bool := setsReturn call || callsOriginal call

/-- A dispatch that reaches its handler, whose host calls all succeed and whose
explicit return values have the declared type. -/
structure HandledDispatch where
  game : Game
  slot : SlotId
  ctx : HookCtx
  regs : RegArgs
  args : List InvokeArg
  calls : List HandlerCall
  published : game.hooks.slots slot = some ctx
  fresh : game.hooks.reentry slot = false
  marshals : regargsToArgs game.internals game.hooks.memory ctx.method regs =
    .ok args
  succeeds : Succeeds game (pushed ctx regs args) calls
  typed : ∀ bytes, .setReturn bytes ∈ calls → ∃ value consumed,
    InvokeArg.decode bytes = some (.prim value, consumed) ∧
      value.valType = ctx.sig.returnType

namespace HandledDispatch

def result (dispatch : HandledDispatch) : RegArgs × ℕ :=
  dispatchRust dispatch.game dispatch.slot.val dispatch.regs dispatch.calls

def returned (dispatch : HandledDispatch) : UInt64 × F64 :=
  (dispatch.result.1.retInt, dispatch.result.1.retFloat)

/-- The context after the argument rewrites among some calls. -/
def rewritten (dispatch : HandledDispatch) (calls : List HandlerCall) :
    CurrentContext :=
  calls.foldl (fun current call =>
    match call with
    | .setArg argIdx bytes => (hookArgWrite dispatch.game current argIdx bytes).1
    | _ => current) (pushed dispatch.ctx dispatch.regs dispatch.args).current

/-- The return of the original on the arguments as they are after some calls. -/
def originalAfter (dispatch : HandledDispatch) (calls : List HandlerCall) :
    UInt64 × F64 :=
  dispatch.game.original (dispatch.rewritten calls).regs.intArgs
    (dispatch.rewritten calls).regs.floatArgs

/-- The contract of a dispatch. -/
structure LatestWins (dispatch : HandledDispatch) : Prop where
  setReturn : ∀ before bytes after value consumed,
    dispatch.calls = before ++ .setReturn bytes :: after →
    (∀ call ∈ after, isSetter call = false) →
    InvokeArg.decode bytes = some (.prim value, consumed) →
      dispatch.returned = returnSlots value
  callOriginal : ∀ before after,
    dispatch.calls = before ++ .callOriginal :: after →
    (∀ call ∈ after, isSetter call = false) →
      dispatch.returned = dispatch.originalAfter before
  observer : (∀ call ∈ dispatch.calls, isSetter call = false) →
    dispatch.returned = dispatch.originalAfter dispatch.calls
  executions : dispatch.result.2 =
    if dispatch.calls.any isSetter then dispatch.calls.countP callsOriginal else 1

/-- Where a `call_original` comes after the last `hook_set_return`, the last such
call returns the value that was set. -/
def SettersAgree (dispatch : HandledDispatch) : Prop :=
  ∀ before bytes middle after value consumed,
    dispatch.calls =
      before ++ .setReturn bytes :: (middle ++ .callOriginal :: after) →
    (∀ call ∈ middle, setsReturn call = false) →
    (∀ call ∈ after, isSetter call = false) →
    InvokeArg.decode bytes = some (.prim value, consumed) →
      dispatch.originalAfter (before ++ .setReturn bytes :: middle) =
        returnSlots value

/-! ## What the handler leaves behind -/

/-- The context when the handler is done. -/
def handled (dispatch : HandledDispatch) : Handling :=
  runHandler dispatch.game
    (pushed dispatch.ctx dispatch.regs dispatch.args) dispatch.calls

theorem result_eq (dispatch : HandledDispatch) :
    dispatch.result = finish dispatch.game dispatch.ctx dispatch.handled := by
  unfold result dispatchRust
  rw [dif_pos dispatch.slot.isLt]
  simp only [Fin.eta, dispatch.published, dispatch.fresh, dispatch.marshals]
  rfl

end HandledDispatch

section Handler

variable {game : Game} {calls : List HandlerCall}

/-- A list with an element of a kind splits at the last one. -/
theorem exists_last {α : Type*} {kind : α → Bool} {items : List α}
    (hany : ∃ item ∈ items, kind item = true) :
    ∃ before item after, items = before ++ item :: after ∧ kind item = true ∧
      ∀ later ∈ after, kind later = false := by
  induction items with
  | nil => simp at hany
  | cons head items ih =>
      by_cases hrest : ∃ item ∈ items, kind item = true
      · obtain ⟨before, item, after, rfl, hkind, hafter⟩ := ih hrest
        exact ⟨head :: before, item, after, rfl, hkind, hafter⟩
      · refine ⟨[], head, items, rfl, ?_, by simpa using hrest⟩
        obtain ⟨item, hitem, hkind⟩ := hany
        cases List.mem_cons.mp hitem with
        | inl hhead => exact hhead ▸ hkind
        | inr hmem => exact absurd ⟨item, hmem, hkind⟩ hrest

theorem explicitReturn_kept (handling : Handling)
    (hcalls : ∀ call ∈ calls, setsReturn call = false) :
    (runHandler game handling calls).current.explicitReturn =
      handling.current.explicitReturn := by
  apply runHandler_keeps (fun handling => handling.current.explicitReturn)
  intro handling call hcall
  cases call with
  | setArg argIdx bytes =>
      exact (hookArgWrite_frame game handling.current argIdx bytes).1
  | setReturn bytes =>
      have hfalse := hcalls _ hcall
      contradiction
  | callOriginal =>
      simp only [hostCall, callOriginalNow]
      split <;> rfl

/-- The explicit value is that of the last `hook_set_return`. -/
theorem explicitReturn_last {before after : List HandlerCall}
    {bytes : List UInt8} {value : InvokeArg} {consumed : ℕ}
    (handling : Handling) (hafter : ∀ call ∈ after, setsReturn call = false)
    (hdecode : InvokeArg.decode bytes = some (value, consumed)) :
    (runHandler game handling
      (before ++ .setReturn bytes :: after)).current.explicitReturn =
        some value := by
  rw [runHandler_append]
  change (runHandler game (hostCall game _ (.setReturn bytes)).1
    after).current.explicitReturn = some value
  rw [explicitReturn_kept _ hafter]
  simp [hostCall, hookSetReturn, hdecode]

/-- What `call_original` leaves: its flag and the return slots. -/
def trace (handling : Handling) : Bool × UInt64 × F64 :=
  (handling.current.calledOriginal, handling.current.regs.retInt,
    handling.current.regs.retFloat)

theorem trace_kept (handling : Handling)
    (hcalls : ∀ call ∈ calls, callsOriginal call = false) :
    trace (runHandler game handling calls) = trace handling := by
  apply runHandler_keeps trace
  intro handling call hcall
  cases call with
  | setArg argIdx bytes =>
      have hreturn := hookArgWrite_return game handling.current argIdx bytes
      simp only [trace, hostCall, hreturn.1, hreturn.2,
        (hookArgWrite_frame game handling.current argIdx bytes).2]
  | setReturn bytes =>
      simp only [trace, hostCall, hookSetReturn]
      split <;> rfl
  | callOriginal =>
      have hfalse := hcalls _ hcall
      contradiction

/-- After the last `call_original` the return slots hold what it returned. -/
theorem trace_last {before after : List HandlerCall} (handling : Handling)
    (hsucceeds : Succeeds game handling (before ++ .callOriginal :: after))
    (hafter : ∀ call ∈ after, callsOriginal call = false) :
    trace (runHandler game handling (before ++ .callOriginal :: after)) =
      (true, game.original
        (runHandler game handling before).current.regs.intArgs
        (runHandler game handling before).current.regs.floatArgs) := by
  have hcall := hostCall_callOriginal_ok (succeeds_append.mp hsucceeds).2.1
  rw [runHandler_append]
  calc
    trace (runHandler game (runHandler game handling before)
        (.callOriginal :: after)) =
        trace (hostCall game (runHandler game handling before)
          .callOriginal).1 := trace_kept _ hafter
    _ = _ := by
      rw [hcall]
      rfl

/-- Exactly the `call_original` calls run the original. -/
theorem executions_eq (handling : Handling)
    (hsucceeds : Succeeds game handling calls) :
    (runHandler game handling calls).executions =
      handling.executions + calls.countP callsOriginal := by
  induction calls generalizing handling with
  | nil => rfl
  | cons call calls ih =>
      have hrest := ih (hostCall game handling call).1 hsucceeds.2
      change (runHandler game (hostCall game handling call).1 calls).executions = _
      rw [hrest, List.countP_cons]
      cases call with
      | setArg argIdx bytes => simp [hostCall, callsOriginal]
      | setReturn bytes => simp [hostCall, callsOriginal]
      | callOriginal =>
          rw [hostCall_callOriginal_ok hsucceeds.1]
          simp only [callsOriginal, if_true]
          omega

/-- The setters leave the arguments to `hook_set_arg`. -/
theorem hostCall_sameArguments {current : CurrentContext} {handling : Handling}
    (hsame : SameArguments current handling.current) {call : HandlerCall}
    (hsetter : isSetter call = true) :
    SameArguments current (hostCall game handling call).1.current := by
  apply hsame.trans
  cases call with
  | setArg argIdx bytes => contradiction
  | setReturn bytes =>
      simp only [hostCall, hookSetReturn]
      split <;> exact sameArguments_refl handling.current
  | callOriginal =>
      simp only [hostCall, callOriginalNow]
      split
      · exact sameArguments_refl handling.current
      · exact ⟨rfl, rfl, _, rfl⟩

end Handler

namespace HandledDispatch

variable (dispatch : HandledDispatch)

/-- At every point of the handler the registers hold the rewritten arguments. -/
theorem sameArguments_rewritten (calls : List HandlerCall) :
    SameArguments (dispatch.rewritten calls)
      (runHandler dispatch.game
        (pushed dispatch.ctx dispatch.regs dispatch.args) calls).current := by
  induction calls using List.reverseRecOn with
  | nil => exact sameArguments_refl _
  | append_singleton calls call ih =>
      rw [runHandler_append, rewritten, List.foldl_append]
      cases call with
      | setArg argIdx bytes =>
          exact hookArgWrite_sameArguments dispatch.game ih argIdx bytes
      | setReturn bytes => exact hostCall_sameArguments ih rfl
      | callOriginal => exact hostCall_sameArguments ih rfl

theorem original_rewritten (calls : List HandlerCall) :
    let regs := (runHandler dispatch.game
      (pushed dispatch.ctx dispatch.regs dispatch.args) calls).current.regs
    dispatch.game.original regs.intArgs regs.floatArgs =
      dispatch.originalAfter calls := by
  obtain ⟨-, -, result, hregs⟩ := dispatch.sameArguments_rewritten calls
  dsimp only
  rw [hregs]
  rfl

theorem isSetter_eq_false {calls : List HandlerCall}
    (hcalls : ∀ call ∈ calls, isSetter call = false) :
    (∀ call ∈ calls, setsReturn call = false) ∧
      ∀ call ∈ calls, callsOriginal call = false := by
  simp only [isSetter, Bool.or_eq_false_iff] at hcalls
  exact ⟨fun call hcall => (hcalls call hcall).1,
    fun call hcall => (hcalls call hcall).2⟩

theorem setsReturn_eq_false {before after : List HandlerCall}
    (hbefore : ∀ call ∈ before, setsReturn call = false)
    (hafter : ∀ call ∈ after, isSetter call = false) :
    ∀ call ∈ before ++ .callOriginal :: after, setsReturn call = false := by
  intro call hcall
  simp only [List.mem_append, List.mem_cons] at hcall
  obtain hmem | rfl | hmem := hcall
  · exact hbefore call hmem
  · rfl
  · exact (isSetter_eq_false hafter).1 call hmem

/-- A value of the declared type is packed into its own return slots. -/
theorem packReturn_eq {returnType : ValType} {value : Value} {regs : RegArgs}
    (htype : value.valType = returnType) :
    (packReturnIntoRegargs returnType (.prim value) regs).1 =
      regs.setReturn (returnSlots value) := by
  subst htype
  cases value <;> rfl

/-- An explicit value is returned, whatever else the handler has done. -/
theorem returned_explicit {value : Value}
    (hexplicit : dispatch.handled.current.explicitReturn = some (.prim value))
    (htype : value.valType = dispatch.ctx.sig.returnType) :
    dispatch.returned = returnSlots value := by
  rw [returned, result_eq, finish, hexplicit]
  dsimp only
  rw [packReturn_eq htype]
  rfl

theorem returned_lastReturn {before after : List HandlerCall}
    {bytes : List UInt8} {value : Value} {consumed : ℕ}
    (hcalls : dispatch.calls = before ++ .setReturn bytes :: after)
    (hafter : ∀ call ∈ after, setsReturn call = false)
    (hdecode : InvokeArg.decode bytes = some (.prim value, consumed)) :
    dispatch.returned = returnSlots value := by
  have htype : value.valType = dispatch.ctx.sig.returnType := by
    obtain ⟨value', consumed', hdecode', htype⟩ :=
      dispatch.typed bytes (by simp [hcalls])
    rw [hdecode] at hdecode'
    cases hdecode'
    exact htype
  apply dispatch.returned_explicit _ htype
  rw [handled, hcalls]
  exact explicitReturn_last _ hafter hdecode

theorem handled_explicitReturn
    (hcalls : ∀ call ∈ dispatch.calls, setsReturn call = false) :
    dispatch.handled.current.explicitReturn = none :=
  explicitReturn_kept _ hcalls

/-- Without an explicit value the last `call_original` decides. -/
theorem returned_lastOriginal {before after : List HandlerCall}
    (hcalls : dispatch.calls = before ++ .callOriginal :: after)
    (hreturns : ∀ call ∈ dispatch.calls, setsReturn call = false)
    (hafter : ∀ call ∈ after, callsOriginal call = false) :
    dispatch.returned = dispatch.originalAfter before := by
  have htrace : trace dispatch.handled =
      (true, dispatch.originalAfter before) := by
    rw [← dispatch.original_rewritten before, handled, hcalls]
    apply trace_last _ _ hafter
    rw [← hcalls]
    exact dispatch.succeeds
  obtain ⟨hcalled, hslots⟩ := Prod.mk.inj htrace
  rw [returned, result_eq, finish, dispatch.handled_explicitReturn hreturns]
  dsimp only
  rw [if_pos hcalled]
  exact hslots

/-- A handler without a setter observes: the original runs once, at the end. -/
theorem result_observer
    (hcalls : ∀ call ∈ dispatch.calls, isSetter call = false) :
    dispatch.returned = dispatch.originalAfter dispatch.calls ∧
      dispatch.result.2 = dispatch.handled.executions + 1 := by
  obtain ⟨hreturns, horiginals⟩ := isSetter_eq_false hcalls
  have hcalled : dispatch.handled.current.calledOriginal = false :=
    (Prod.mk.inj (trace_kept _ horiginals)).1
  rw [returned, result_eq, finish, dispatch.handled_explicitReturn hreturns]
  simp only [hcalled, Bool.false_eq_true, if_false, and_true]
  exact dispatch.original_rewritten dispatch.calls

/-- The last `hook_set_return` of a handler, with what follows it. -/
theorem exists_lastReturn {calls after : List HandlerCall}
    (hcalls : dispatch.calls = calls ++ after)
    (hset : ∃ call ∈ calls, setsReturn call = true) :
    ∃ before bytes middle value consumed,
      calls = before ++ .setReturn bytes :: middle ∧
      (∀ call ∈ middle, setsReturn call = false) ∧
      InvokeArg.decode bytes = some (.prim value, consumed) := by
  obtain ⟨before, call, middle, rfl, hkind, hmiddle⟩ := exists_last hset
  cases call with
  | setReturn bytes =>
      obtain ⟨value, consumed, hdecode, -⟩ :=
        dispatch.typed bytes (by simp [hcalls])
      exact ⟨before, bytes, middle, value, consumed, rfl, hmiddle, hdecode⟩
  | setArg argIdx bytes => contradiction
  | callOriginal => contradiction

theorem handled_explicitReturn_ne_none
    (hset : ∃ call ∈ dispatch.calls, setsReturn call = true) :
    dispatch.handled.current.explicitReturn ≠ none := by
  obtain ⟨before, bytes, middle, value, consumed, hcalls, hmiddle, hdecode⟩ :=
    dispatch.exists_lastReturn (List.append_nil dispatch.calls).symm hset
  rw [handled, hcalls, explicitReturn_last _ hmiddle hdecode]
  simp

theorem handled_calledOriginal
    (horiginal : ∃ call ∈ dispatch.calls, callsOriginal call = true) :
    dispatch.handled.current.calledOriginal = true := by
  obtain ⟨before, call, after, hcalls, hkind, hafter⟩ := exists_last horiginal
  have hsucceeds := dispatch.succeeds
  cases call with
  | callOriginal =>
      rw [hcalls] at hsucceeds
      rw [handled, hcalls]
      exact (Prod.mk.inj (trace_last _ hsucceeds hafter)).1
  | setArg argIdx bytes => contradiction
  | setReturn bytes => contradiction

/-- A handler that sets the return value is done when it returns. -/
theorem executions_of_setter (hany : dispatch.calls.any isSetter = true) :
    dispatch.result.2 = dispatch.handled.executions := by
  rw [result_eq, finish]
  split
  · rfl
  · rename_i hexplicit
    obtain ⟨call, hcall, hsetter⟩ := List.any_eq_true.mp hany
    have horiginal : ∃ call ∈ dispatch.calls, callsOriginal call = true := by
      refine ⟨call, hcall, ?_⟩
      cases hset : setsReturn call with
      | true =>
          exact absurd hexplicit
            (dispatch.handled_explicitReturn_ne_none ⟨call, hcall, hset⟩)
      | false => simpa [isSetter, hset] using hsetter
    rw [if_pos (dispatch.handled_calledOriginal horiginal)]

theorem result_executions : dispatch.result.2 =
    if dispatch.calls.any isSetter then dispatch.calls.countP callsOriginal
    else 1 := by
  have hcount : dispatch.handled.executions =
      dispatch.calls.countP callsOriginal := by
    have hexecutions := executions_eq _ dispatch.succeeds
    rwa [pushed, Nat.zero_add] at hexecutions
  split
  · rename_i hany
    rw [dispatch.executions_of_setter hany, hcount]
  · rename_i hnone
    have hcalls : ∀ call ∈ dispatch.calls, isSetter call = false := by
      simpa using hnone
    have hzero : dispatch.calls.countP callsOriginal = 0 := by
      rw [List.countP_eq_zero]
      intro call hcall
      simp [(isSetter_eq_false hcalls).2 call hcall]
    rw [(dispatch.result_observer hcalls).2, hcount, hzero]

/-- The latest setter wins exactly when a `call_original` behind the last
`hook_set_return` returns the value that was set. -/
theorem latestWins_iff_settersAgree :
    dispatch.LatestWins ↔ dispatch.SettersAgree := by
  constructor
  · intro hlatest before bytes middle after value consumed hcalls hmiddle hafter
      hdecode
    rw [← dispatch.returned_lastReturn hcalls (setsReturn_eq_false hmiddle hafter)
      hdecode]
    exact (hlatest.callOriginal (before ++ .setReturn bytes :: middle) after
      (by simp [hcalls]) hafter).symm
  · intro hagree
    refine ⟨?_, ?_, ?_, dispatch.result_executions⟩
    · intro before bytes after value consumed hcalls hafter hdecode
      exact dispatch.returned_lastReturn hcalls (isSetter_eq_false hafter).1
        hdecode
    · intro before after hcalls hafter
      by_cases hset : ∃ call ∈ before, setsReturn call = true
      · obtain ⟨first, bytes, middle, value, consumed, rfl, hmiddle, hdecode⟩ :=
          dispatch.exists_lastReturn hcalls hset
        have hsplit : dispatch.calls = first ++ .setReturn bytes ::
            (middle ++ .callOriginal :: after) := by simp [hcalls]
        rw [hagree first bytes middle after value consumed hsplit hmiddle hafter
          hdecode]
        exact dispatch.returned_lastReturn hsplit
          (setsReturn_eq_false hmiddle hafter) hdecode
      · apply dispatch.returned_lastOriginal hcalls _ (isSetter_eq_false hafter).2
        rw [hcalls]
        exact setsReturn_eq_false (by simpa using hset) hafter
    · intro hcalls
      exact (dispatch.result_observer hcalls).1

end HandledDispatch

/-! ## A handler that sets a value and then calls the original -/

/-- A hook on the sample method, whose original returns 7. -/
def sampleCtx : HookCtx where
  method := 0x100
  sig := ⟨[], .u64, 0x90, false⟩
  thunkAddr := 0x100000
  patch := ⟨0x1000, 0x100000, 0x200000, []⟩
  handlerFuncRef := 0
  runtimeId := 1

def sampleGame : Game where
  internals := OneHookPerMethod.sampleEnv.internals
  hooks :=
    { HookState.initial OneHookPerMethod.sampleMemory with
      slots := fun slot => if slot = 0 then some sampleCtx else none }
  original := fun _ _ => (7, zeroFloat)

def sampleRegs : RegArgs where
  methodId := 0
  intArgs := fun _ => 0
  floatArgs := fun _ => zeroFloat
  stackArgs := 0
  retInt := 0
  retFloat := zeroFloat

/-- `hook_set_return(5)` followed by `call_original`. -/
def setThenCall : HandledDispatch where
  game := sampleGame
  slot := 0
  ctx := sampleCtx
  regs := sampleRegs
  args := []
  calls := [.setReturn [3, 5, 0, 0, 0, 0, 0, 0, 0], .callOriginal]
  published := rfl
  fresh := rfl
  marshals := by rfl
  succeeds := ⟨by rfl, by rfl, trivial⟩
  typed := by
    intro bytes hbytes
    have hvalue : bytes = [3, 5, 0, 0, 0, 0, 0, 0, 0] := by simpa using hbytes
    subst hvalue
    exact ⟨.u64 5, 9, by rfl, rfl⟩

/-- The explicit 5 is returned although the later original returned 7. -/
theorem not_latestWins_setThenCall : ¬ setThenCall.LatestWins := by
  intro hlatest
  have hreturned := hlatest.callOriginal
    [.setReturn [3, 5, 0, 0, 0, 0, 0, 0, 0]] [] rfl (by simp)
  have hfive : setThenCall.returned.1 = 5 := by decide +kernel
  have hseven : (setThenCall.originalAfter
      [.setReturn [3, 5, 0, 0, 0, 0, 0, 0, 0]]).1 = 7 := by decide +kernel
  rw [hreturned, hseven] at hfive
  exact absurd hfive (by decide)

end FrogAgent.Precedence
