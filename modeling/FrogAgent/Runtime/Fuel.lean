import FrogAgent.Hook.OneHookPerMethod
import FrogAgent.Runtime.Orchestrator

/-!
# Fuel

`run_wasm_with_mem` calls `set_fuel(1_000_000)` on the store it creates, before
the module is instantiated, and the store then moves into `REGISTRY` with its
counter.  `call_hook_handler` runs the handler in that store.  The engine charges
the code it executes to the counter; a charge that is above what is left stops
the call with an out-of-fuel trap and leaves the counter as it was.
-/

namespace FrogAgent.Fuel

open FrogAgent.ByteMemory
open FrogAgent.Orchestrator
open FrogAgent.Slots

/-- The argument of `set_fuel`. -/
def initialFuel : ℕ := 1000000

/-! ## The engine -/

/-- What the engine does for a call, in order: charge fuel for the code it is
about to execute, or leave the module for a host function. -/
inductive EngineStep where
  | charge (amount : ℕ)
  | host (call : HostCall)

/-- A call into a module, as it goes when the fuel lasts; `traps` says whether it
then ends in a trap of its own. -/
structure Execution where
  steps : List EngineStep
  traps : Bool

def EngineStep.cost : EngineStep → ℕ
  | .charge amount => amount
  | .host _ => 0

/-- The fuel the call consumes by itself. -/
def Execution.consumed (execution : Execution) : ℕ :=
  (execution.steps.map EngineStep.cost).sum

def EngineStep.hostCall : EngineStep → Option HostCall
  | .charge _ => none
  | .host call => some call

def Execution.hostCalls (execution : Execution) : List HostCall :=
  execution.steps.filterMap EngineStep.hostCall

/-- A call as far as the fuel has carried it. -/
structure Metered where
  fuel : ℕ
  hostCalls : List HostCall
  outOfFuel : Bool

def meter (fuel : ℕ) : List EngineStep → Metered
  | [] => ⟨fuel, [], false⟩
  | .charge amount :: steps =>
      if amount ≤ fuel then meter (fuel - amount) steps else ⟨fuel, [], true⟩
  | .host call :: steps =>
      { meter fuel steps with hostCalls := call :: (meter fuel steps).hostCalls }

/-- The entry point the runtime sees: the host calls the fuel has allowed, and a
trap at the end if the fuel ran out or the code trapped. -/
def Execution.entry (execution : Execution) (fuel : ℕ) : Entry :=
  ⟨(meter fuel execution.steps).hostCalls,
    (meter fuel execution.steps).outOfFuel || execution.traps⟩

/-! ## The runtime with its counter -/

structure MeteredModule where
  start : Execution
  frogMain : Option Execution
  table : Option (List TableEntry)

/-- The runtime, with the counter of the store that is parked first. -/
structure MeteredState where
  runtime : RuntimeState
  fuel : ℕ

/-- `run_wasm_with_mem`: `frog_main` goes on with what the start function has left. -/
def load (world : World) (state : RuntimeState) (loaded : MeteredModule) :
    Option (MeteredState × Except WasmError Unit) :=
  let started := meter initialFuel loaded.start.steps
  let left := match loaded.frogMain with
    | none => started.fuel
    | some frogMain => (meter started.fuel frogMain.steps).fuel
  (runWasmWithMem world state (some
    { start := loaded.start.entry initialFuel
      frogMain := loaded.frogMain.map fun frogMain => frogMain.entry started.fuel
      table := loaded.table })).map
    fun spawned => (⟨spawned.1, left⟩, spawned.2)

/-- A dispatch that gets to `call_hook_handler`: the memory the game has left,
the slot, whether another thread holds `REGISTRY`, and what the handler does. -/
structure HandlerCall where
  memory : Memory UInt8
  slot : SlotId
  contended : Bool
  execution : Execution

inductive CallResult where
  | notCalled
  | returned
  | trapped
  | outOfFuel
  deriving DecidableEq

/-- The state in which the handler is looked up. -/
def HandlerCall.entered (call : HandlerCall) (state : RuntimeState) : RuntimeState :=
  { state with hooks := { state.hooks with memory := call.memory } }

/-- `call_hook_handler` gets as far as `typed.call`. -/
def HandlerCall.reaches (call : HandlerCall) (state : RuntimeState) : Bool :=
  !call.contended &&
    match state.hooks.slots call.slot with
    | none => false
    | some ctx => (callHookHandler state.registry ctx.handlerFuncRef).toBool

/-- One call, with the counter carried over. -/
def callHandler (world : World) (state : MeteredState) (call : HandlerCall) :
    MeteredState × CallResult :=
  let entered := call.entered state.runtime
  if call.reaches entered then
    let metered := meter state.fuel call.execution.steps
    (⟨dispatchHandler world entered call.slot metered.hostCalls, metered.fuel⟩,
      if metered.outOfFuel then .outOfFuel
      else if call.execution.traps then .trapped else .returned)
  else (⟨entered, state.fuel⟩, .notCalled)

def callHandlers (world : World) (state : MeteredState) :
    List HandlerCall → List CallResult
  | [] => []
  | call :: calls =>
      (callHandler world state call).2 ::
        callHandlers world (callHandler world state call).1 calls

/-! ## What a sequence of calls consumes -/

/-- The runtime after a call that is not limited by fuel. -/
def HandlerCall.completed (world : World) (state : RuntimeState)
    (call : HandlerCall) : RuntimeState :=
  if call.reaches (call.entered state) then
    dispatchHandler world (call.entered state) call.slot call.execution.hostCalls
  else call.entered state

/-- The fuel the calls consume, each by itself; a call that does not reach the
engine consumes none. -/
def consumedBy (world : World) (state : RuntimeState) : List HandlerCall → ℕ
  | [] => 0
  | call :: calls =>
      (if call.reaches (call.entered state) then call.execution.consumed else 0) +
        consumedBy world (call.completed world state) calls

/-- The fuel gone before the first handler call. -/
def MeteredModule.consumed (loaded : MeteredModule) : ℕ :=
  loaded.start.consumed + (loaded.frogMain.map Execution.consumed).getD 0

/-! ## Metered calls -/

/-- A call the fuel covers goes as it goes without a limit. -/
theorem meter_of_le {steps : List EngineStep} {fuel : ℕ}
    (hcovers : (steps.map EngineStep.cost).sum ≤ fuel) :
    meter fuel steps = ⟨fuel - (steps.map EngineStep.cost).sum,
      steps.filterMap EngineStep.hostCall, false⟩ := by
  induction steps generalizing fuel with
  | nil => rfl
  | cons step steps ih =>
      rw [List.map_cons, List.sum_cons] at hcovers
      cases step with
      | charge amount =>
          have hamount : amount ≤ fuel := le_trans (Nat.le_add_right _ _) hcovers
          have hrest : (steps.map EngineStep.cost).sum ≤ fuel - amount :=
            Nat.le_sub_of_add_le' hcovers
          rw [meter, if_pos hamount, ih hrest, List.map_cons, List.sum_cons,
            Nat.sub_sub]
          rfl
      | host call =>
          have hrest : (steps.map EngineStep.cost).sum ≤ fuel :=
            le_trans (Nat.le_add_left _ _) hcovers
          rw [meter, ih hrest, List.map_cons, List.sum_cons, EngineStep.cost,
            Nat.zero_add]
          rfl

theorem meter_outOfFuel_of_lt {steps : List EngineStep} {fuel : ℕ}
    (hexceeds : fuel < (steps.map EngineStep.cost).sum) :
    (meter fuel steps).outOfFuel = true := by
  induction steps generalizing fuel with
  | nil => exact absurd hexceeds (Nat.not_lt_zero fuel)
  | cons step steps ih =>
      rw [List.map_cons, List.sum_cons] at hexceeds
      cases step with
      | charge amount =>
          rw [meter]
          split
          · apply ih
            exact Nat.sub_lt_left_of_lt_add ‹amount ≤ fuel› hexceeds
          · rfl
      | host call =>
          rw [EngineStep.cost, Nat.zero_add] at hexceeds
          exact ih hexceeds

/-- A call that has not run out of fuel has paid for all it consumes. -/
theorem meter_fuel {steps : List EngineStep} {fuel : ℕ}
    (hlasts : (meter fuel steps).outOfFuel = false) :
    (steps.map EngineStep.cost).sum + (meter fuel steps).fuel = fuel := by
  have hcovers : (steps.map EngineStep.cost).sum ≤ fuel := by
    by_contra hexceeds
    rw [meter_outOfFuel_of_lt (Nat.lt_of_not_le hexceeds)] at hlasts
    contradiction
  rw [meter_of_le hcovers, Nat.add_sub_cancel' hcovers]

theorem callHandler_of_not_reaches {world : World} {state : MeteredState}
    {call : HandlerCall} (hreaches : call.reaches (call.entered state.runtime) = false) :
    callHandler world state call =
      (⟨call.completed world state.runtime, state.fuel⟩, .notCalled) := by
  simp only [callHandler, HandlerCall.completed, hreaches, Bool.false_eq_true,
    if_false]

theorem callHandler_of_le {world : World} {state : MeteredState} {call : HandlerCall}
    (hreaches : call.reaches (call.entered state.runtime) = true)
    (hcovers : call.execution.consumed ≤ state.fuel) :
    callHandler world state call =
      (⟨call.completed world state.runtime, state.fuel - call.execution.consumed⟩,
        if call.execution.traps then .trapped else .returned) := by
  simp only [callHandler, HandlerCall.completed, hreaches, if_true,
    meter_of_le hcovers, Bool.false_eq_true, if_false]
  rfl

theorem callHandler_of_lt {world : World} {state : MeteredState} {call : HandlerCall}
    (hreaches : call.reaches (call.entered state.runtime) = true)
    (hexceeds : state.fuel < call.execution.consumed) :
    (callHandler world state call).2 = .outOfFuel := by
  simp only [callHandler, hreaches, if_true, meter_outOfFuel_of_lt hexceeds]

/-! ## Sequences of calls -/

/-- The counter lasts for exactly the sequences that consume no more than it
holds. -/
theorem callHandlers_last_iff (world : World) (state : MeteredState)
    (calls : List HandlerCall) :
    CallResult.outOfFuel ∉ callHandlers world state calls ↔
      consumedBy world state.runtime calls ≤ state.fuel := by
  induction calls generalizing state with
  | nil => exact iff_of_true List.not_mem_nil (Nat.zero_le _)
  | cons call calls ih =>
      rw [callHandlers, List.mem_cons, not_or, ih, consumedBy]
      cases hreaches : call.reaches (call.entered state.runtime) with
      | false =>
          rw [callHandler_of_not_reaches hreaches, if_neg Bool.false_ne_true,
            Nat.zero_add]
          exact and_iff_right nofun
      | true =>
          rw [if_pos rfl]
          by_cases hcovers : call.execution.consumed ≤ state.fuel
          · have hresult : CallResult.outOfFuel ≠
                if call.execution.traps then .trapped else .returned := by
              split <;> nofun
            rw [callHandler_of_le hreaches hcovers,
              Nat.le_sub_iff_add_le' hcovers]
            exact and_iff_right hresult
          · have hresult : (callHandler world state call).2 = .outOfFuel :=
              callHandler_of_lt hreaches (Nat.lt_of_not_le hcovers)
            rw [hresult]
            apply iff_of_false
            · exact fun hnever => hnever.1 rfl
            · exact fun htotal =>
                hcovers (le_trans (Nat.le_add_right _ _) htotal)

/-- A runtime is parked only if neither the start function nor `frog_main` has
trapped. -/
theorem entries_of_runWasmWithMem {world : World} {state next : RuntimeState}
    {loaded : WasmModule}
    (hspawned : runWasmWithMem world state (some loaded) = some (next, .ok ())) :
    loaded.start.traps = false ∧
      ∃ frogMain, loaded.frogMain = some frogMain ∧ frogMain.traps = false := by
  simp only [runWasmWithMem] at hspawned
  cases hstart : loaded.start.traps with
  | true => simp [hstart] at hspawned
  | false =>
      cases hmain : loaded.frogMain with
      | none => simp [hstart, hmain] at hspawned
      | some frogMain =>
          cases htraps : frogMain.traps with
          | true => simp [hstart, hmain, htraps] at hspawned
          | false => exact ⟨rfl, frogMain, rfl, htraps⟩

/-- What the start function and `frog_main` have left to the handlers. -/
theorem fuel_of_load {world : World} {state : RuntimeState} {loaded : MeteredModule}
    {next : MeteredState} (hload : load world state loaded = some (next, .ok ())) :
    loaded.consumed + next.fuel = initialFuel := by
  obtain ⟨start, main, table⟩ := loaded
  simp only [load, Option.map_eq_some_iff] at hload
  obtain ⟨⟨spawned, result⟩, hspawned, hnext⟩ := hload
  rw [Prod.mk.injEq] at hnext
  obtain ⟨rfl, rfl⟩ := hnext
  obtain ⟨hstart, entry, hentry, hmain⟩ := entries_of_runWasmWithMem hspawned
  cases main with
  | none => contradiction
  | some frogMain =>
      rw [Option.map_some, Option.some.injEq] at hentry
      rw [← hentry] at hmain
      have hstarted := meter_fuel (Bool.or_eq_false_iff.mp hstart).1
      have hfinished := meter_fuel (Bool.or_eq_false_iff.mp hmain).1
      calc start.consumed + frogMain.consumed +
            (meter (meter initialFuel start.steps).fuel frogMain.steps).fuel
          = start.consumed + (meter initialFuel start.steps).fuel := by
            rw [Nat.add_assoc]
            exact congrArg _ hfinished
        _ = initialFuel := hstarted

/-- If every handler call of `calls` by itself stays within the limit, none of them
ends in an out-of-fuel trap. -/
def FuelPerCall (world : World) (parked : MeteredState) (calls : List HandlerCall) :
    Prop :=
  (∀ call ∈ calls, call.execution.consumed ≤ initialFuel) →
    CallResult.outOfFuel ∉ callHandlers world parked calls

/-- For calls within the limit that follow a successful `frog_main`, the limit is
per call exactly if the start function, `frog_main` and all the calls together
consume at most the one million units of the store: nothing refills the counter. -/
theorem fuelPerCall_iff_total {world : World} {state : RuntimeState}
    {loaded : MeteredModule} {parked : MeteredState}
    (hload : load world state loaded = some (parked, .ok ()))
    (calls : List HandlerCall)
    (hcalls : ∀ call ∈ calls, call.execution.consumed ≤ initialFuel) :
    FuelPerCall world parked calls ↔
      loaded.consumed + consumedBy world parked.runtime calls ≤ initialFuel := by
  rw [FuelPerCall, callHandlers_last_iff, ← fuel_of_load hload,
    Nat.add_le_add_iff_left, fuel_of_load hload]
  exact forall_prop_of_true hcalls

/-! ## A handler that is called twice -/

def sampleWorld : World where
  hook := OneHookPerMethod.sampleEnv
  backend := ⟨fun _ _ => true, fun _ _ => true⟩

/-- `frog_main` hooks the sample method with the function at table index 0. -/
def sampleModule : MeteredModule where
  start := ⟨[], false⟩
  frogMain := some
    ⟨[.charge 10, .host (.installHook ⟨some 0x100000, some 0x200000⟩ 0x100 0)], false⟩
  table := some [.funcRef 0 true]

def sampleLoad : Option (MeteredState × Except WasmError Unit) :=
  load sampleWorld (RuntimeState.initial OneHookPerMethod.sampleMemory) sampleModule

theorem sampleLoad_ok : ∃ parked, sampleLoad = some (parked, .ok ()) := by
  have hok : sampleLoad.map (fun spawned => spawned.2.toBool) = some true := by
    decide +kernel
  obtain ⟨⟨parked, result⟩, hload, hresult⟩ := Option.map_eq_some_iff.mp hok
  cases result with
  | error error => contradiction
  | ok value => exact ⟨parked, hload⟩

/-- A handler that consumes `amount` units and makes no host call. -/
def sampleHandler (amount : ℕ) : HandlerCall where
  memory := OneHookPerMethod.sampleMemory
  slot := 0
  contended := false
  execution := ⟨[.charge amount], false⟩

theorem fuelPerCall_sampleHandler :
    ∃ parked, sampleLoad = some (parked, .ok ()) ∧
      FuelPerCall sampleWorld parked [sampleHandler 400000, sampleHandler 500000] := by
  obtain ⟨parked, hload⟩ := sampleLoad_ok
  have htotal : sampleLoad.map (fun spawned => sampleModule.consumed +
      consumedBy sampleWorld spawned.1.runtime
        [sampleHandler 400000, sampleHandler 500000]) = some 900010 := by
    decide +kernel
  rw [hload, Option.map_some, Option.some.injEq] at htotal
  have hiff := fuelPerCall_iff_total hload
    [sampleHandler 400000, sampleHandler 500000] (by decide +kernel)
  exact ⟨parked, hload, hiff.mpr (le_of_eq_of_le htotal (by decide))⟩

/-- Two calls of 600000 units each: the second one runs out of fuel. -/
theorem not_fuelPerCall_sampleHandler :
    ∃ parked, sampleLoad = some (parked, .ok ()) ∧
      ¬ FuelPerCall sampleWorld parked
        [sampleHandler 600000, sampleHandler 600000] := by
  obtain ⟨parked, hload⟩ := sampleLoad_ok
  have hresults : sampleLoad.map (fun spawned => callHandlers sampleWorld spawned.1
      [sampleHandler 600000, sampleHandler 600000]) =
        some [.returned, .outOfFuel] := by
    decide +kernel
  rw [hload, Option.map_some, Option.some.injEq] at hresults
  have hwithin : ∀ call ∈ [sampleHandler 600000, sampleHandler 600000],
      call.execution.consumed ≤ initialFuel := by
    decide +kernel
  refine ⟨parked, hload, fun hlimit => hlimit hwithin ?_⟩
  rw [hresults]
  exact List.mem_cons_of_mem _ List.mem_cons_self

end FrogAgent.Fuel
