import FrogAgent.Hook.OneHookPerMethod
import FrogAgent.Lib.Run
import FrogAgent.Runtime.Orchestrator

/-!
# Teardown completeness

The reload sequence is to restore the world before the script: once
`registry_reload` has returned, every published slot belongs to the runtime in
the registry and every journalled write of a departed runtime has been handed to
the revert step.  A spawn that fails drops its store, but neither its journal
nor its hooks reach the next reload, so the contract holds exactly along the
histories in which a failing spawn has journalled nothing and has removed every
hook it installed.
-/

namespace FrogAgent.Teardown

open FrogAgent.ByteMemory
open FrogAgent.Journal
open FrogAgent.JournalRevert
open FrogAgent.Orchestrator
open FrogAgent.Run
open FrogAgent.Slots

/-- The contract in a state in which no reload is running. -/
structure Settled (state : RuntimeState) : Prop where
  owner : ∀ slot ctx, state.hooks.slots slot = some ctx →
    state.registry.map ParkedRuntime.id = [ctx.runtimeId]
  resolves : ∀ slot ctx runtime func, state.hooks.slots slot = some ctx →
    callHookHandler state.registry ctx.handlerFuncRef = .ok (runtime, func) →
      runtime.store.runtimeId = ctx.runtimeId
  reverted : ∀ id entry, (id, entry) ∈ state.journalled →
    id ∉ state.registry.map ParkedRuntime.id → (id, entry) ∈ state.reverted

/-- Every reload of the history returns and leaves a settled state. -/
def TeardownComplete (world : World) (memory : Memory UInt8)
    (events : List Event) : Prop :=
  ∀ taken reload rest, events = taken ++ .reload reload :: rest →
    ∃ state, run (step world) (RuntimeState.initial memory)
        (taken ++ [.reload reload]) = some state ∧ Settled state

/-! ## Failing spawns that leave nothing behind -/

/-- The host calls a module makes before its spawn ends in an error. -/
def failedCalls (loaded : WasmModule) : Option (List HostCall) :=
  if loaded.start.traps then some loaded.start.calls
  else
    match loaded.frogMain with
    | none => some loaded.start.calls
    | some frogMain =>
        if frogMain.traps then some (loaded.start.calls ++ frogMain.calls)
        else none

/-- A call, followed by `later` ones, that leaves nothing behind: it journals
nothing, and a hook it installs is removed later. -/
def CleanCall (world : World) (exec : Exec) (later : List HostCall) :
    HostCall → Prop
  | .mem call => ¬ Journals world.backend exec.hooks.memory call
  | .installHook allocs methodPtr idx =>
      ∀ slot, (hostInstallHook world exec allocs methodPtr idx).2 = .ok slot →
        ∃ handle, .removeHook handle ∈ later ∧ handle.toNat = slot.val
  | _ => True

def CleanCalls (world : World) : Exec → List HostCall → Prop
  | _, [] => True
  | exec, call :: later =>
      CleanCall world exec later call ∧
        CleanCalls world (runHostCall world exec call) later

/-- If the spawn of a reload fails, the module has left nothing behind. -/
def FailsClean (world : World) (state : RuntimeState) : Event → Prop
  | .reload reload =>
      reload.bytes ≠ [] → ∀ loaded calls, reload.loaded = some loaded →
        failedCalls loaded = some calls →
          CleanCalls world (spawnExec (tornDown world state reload)) calls
  | .handler _ _ | .game _ => True

/-! ## What the code of a store can do -/

/-- A published slot that carries the id of the running store. -/
def Owns (exec : Exec) (slot : SlotId) : Prop :=
  ∃ ctx, exec.hooks.slots slot = some ctx ∧ ctx.runtimeId = exec.data.runtimeId

structure Extends (before after : Exec) : Prop where
  runtimeId : after.data.runtimeId = before.data.runtimeId
  slots : ∀ slot ctx, after.hooks.slots slot = some ctx →
    before.hooks.slots slot = some ctx ∨ ctx.runtimeId = before.data.runtimeId
  entries : before.data.writeJournal.entries ⊆ after.data.writeJournal.entries

theorem Extends.refl (exec : Exec) : Extends exec exec :=
  ⟨rfl, fun _ _ hslot => Or.inl hslot, List.Subset.refl _⟩

theorem Extends.trans {first second third : Exec}
    (hleft : Extends first second) (hright : Extends second third) :
    Extends first third where
  runtimeId := hright.runtimeId.trans hleft.runtimeId
  slots := by
    intro slot ctx hslot
    cases hright.slots slot ctx hslot with
    | inl hsecond => exact hleft.slots slot ctx hsecond
    | inr hown => exact Or.inr (hown.trans hleft.runtimeId)
  entries := List.Subset.trans hleft.entries hright.entries

theorem runtimeId_captured (world : World) (exec : Exec)
    (write : Option (Patch UInt8)) :
    (captured world.backend (exec.caller none) write).runtimeId =
      exec.data.runtimeId := by
  cases write <;> rfl

theorem extends_runHostCall (world : World) (exec : Exec) (call : HostCall) :
    Extends exec (runHostCall world exec call) := by
  cases call with
  | mem call =>
      refine ⟨?_, fun _ _ hslot => Or.inl hslot, ?_⟩
      · simp only [runHostCall, Exec.resume, data_runCall, runtimeId_captured]
      · exact entries_subset_runCall world.backend (exec.caller none) call
  | writePermanent guest addr ty inPtr inLen =>
      have hdata : (runHostCall world exec
          (.writePermanent guest addr ty inPtr inLen)).data = exec.data :=
        MemHost.data_hostWritePermanent world.backend (exec.caller guest) addr
          ty inPtr inLen
      refine ⟨by rw [hdata], fun _ _ hslot => Or.inl hslot, ?_⟩
      rw [hdata]
      exact List.Subset.refl _
  | installHook allocs methodPtr idx =>
      refine ⟨rfl, ?_, List.Subset.refl _⟩
      intro slot ctx hslot
      have hslots := installHook_slots world.hook allocs exec.hooks
        methodPtr.toNat (idx.signExtend 64).toNat exec.data.runtimeId
      simp only [runHostCall, hostInstallHook] at hslot
      cases hslots with
      | inl hsame =>
          rw [hsame.2] at hslot
          exact Or.inl hslot
      | inr hpublished =>
          obtain ⟨free, published, -, -, hupdate, hid⟩ := hpublished
          rw [hupdate] at hslot
          rcases slots_of_published hslot with ⟨-, rfl⟩ | ⟨-, hold⟩
          · exact Or.inr hid
          · exact Or.inl hold
  | removeHook handle =>
      refine ⟨rfl, ?_, List.Subset.refl _⟩
      intro slot ctx hslot
      simp only [runHostCall, removeHook_slots] at hslot
      split at hslot
      · contradiction
      · exact Or.inl hslot
  | gameCode memory =>
      exact ⟨rfl, fun _ _ hslot => Or.inl hslot, List.Subset.refl _⟩

theorem extends_runHostCalls (world : World) (exec : Exec)
    (calls : List HostCall) : Extends exec (runHostCalls world exec calls) := by
  induction calls generalizing exec with
  | nil => exact Extends.refl exec
  | cons call calls ih =>
      exact (extends_runHostCall world exec call).trans
        (ih (runHostCall world exec call))

/-! ## When a sequence of calls leaves nothing behind -/

/-- One call: what stays owned if `later` is still to run. -/
theorem owns_runHostCall (world : World) (exec : Exec) (call : HostCall)
    (later : List HostCall) :
    (∀ slot, Owns (runHostCall world exec call) slot →
        ∃ handle, .removeHook handle ∈ later ∧ handle.toNat = slot.val) ↔
      (∀ slot, Owns exec slot →
        ∃ handle, .removeHook handle ∈ call :: later ∧
          handle.toNat = slot.val) ∧
      (∀ allocs methodPtr idx, call = .installHook allocs methodPtr idx →
        CleanCall world exec later call) := by
  cases call with
  | mem call =>
      simp only [Owns, runHostCall, Exec.resume, data_runCall,
        runtimeId_captured, List.mem_cons, reduceCtorEq, false_or,
        false_implies, implies_true, and_true]
  | writePermanent guest addr ty inPtr inLen =>
      simp only [Owns, runHostCall, Exec.resume,
        MemHost.data_hostWritePermanent, Exec.caller, List.mem_cons,
        reduceCtorEq, false_or, false_implies, implies_true, and_true]
  | gameCode memory =>
      simp only [Owns, runHostCall, List.mem_cons, reduceCtorEq, false_or,
        false_implies, implies_true, and_true]
  | removeHook handle =>
      simp only [Owns, runHostCall, removeHook_slots, List.mem_cons,
        HostCall.removeHook.injEq, reduceCtorEq, false_implies, implies_true,
        and_true]
      constructor
      · intro hafter slot hown
        by_cases hslot : slot.val = handle.toNat
        · exact ⟨handle, Or.inl rfl, hslot.symm⟩
        · obtain ⟨other, hmem, hother⟩ := hafter slot (by simpa [hslot] using hown)
          exact ⟨other, Or.inr hmem, hother⟩
      · intro hbefore slot hown
        by_cases hslot : slot.val = handle.toNat
        · simp [hslot] at hown
        · obtain ⟨other, hmem, hother⟩ := hbefore slot (by simpa [hslot] using hown)
          refine ⟨other, hmem.resolve_left ?_, hother⟩
          rintro rfl
          exact hslot hother.symm
  | installHook allocs methodPtr idx =>
      have hslots := installHook_slots world.hook allocs exec.hooks
        methodPtr.toNat (idx.signExtend 64).toNat exec.data.runtimeId
      simp only [List.mem_cons, reduceCtorEq, false_or]
      cases hslots with
      | inl hsame =>
          obtain ⟨⟨error, herror⟩, hsame⟩ := hsame
          have hclean : CleanCall world exec later
              (.installHook allocs methodPtr idx) := by
            intro slot hok
            rw [hostInstallHook, herror] at hok
            contradiction
          simp only [Owns, runHostCall, hostInstallHook, hsame, hclean,
            implies_true, and_true]
      | inr hpublished =>
          obtain ⟨free, ctx, hok, hfree, hupdate, hid⟩ := hpublished
          have howns : ∀ slot, Owns (runHostCall world exec
              (.installHook allocs methodPtr idx)) slot ↔
                slot = free ∨ Owns exec slot := by
            intro slot
            simp only [Owns, runHostCall, hostInstallHook, hupdate,
              Function.update_apply]
            by_cases hslot : slot = free
            · simp [hslot, hid]
            · simp [hslot]
          have hclean : CleanCall world exec later
              (.installHook allocs methodPtr idx) ↔
                ∃ handle, .removeHook handle ∈ later ∧
                  handle.toNat = free.val := by
            simp only [CleanCall, hostInstallHook, hok, Except.ok.injEq,
              forall_eq']
          simp only [howns, forall_eq_or_imp]
          rw [and_comm]
          refine and_congr_right fun _ => ?_
          rw [← hclean]
          exact ⟨fun hcall _ _ _ _ => hcall,
            fun hcall => hcall allocs methodPtr idx rfl⟩

/-- One call: when the journal is still empty. -/
theorem entries_runHostCall_eq_nil (world : World) (exec : Exec)
    (call : HostCall) :
    (runHostCall world exec call).data.writeJournal.entries = [] ↔
      exec.data.writeJournal.entries = [] ∧
        ∀ inner, call = .mem inner →
          ¬ Journals world.backend exec.hooks.memory inner := by
  cases call with
  | mem call =>
      simp only [runHostCall, Exec.resume, entries_runCall_eq_nil, Exec.caller,
        HostCall.mem.injEq, forall_eq']
  | writePermanent guest addr ty inPtr inLen =>
      simp [runHostCall, Exec.resume, MemHost.data_hostWritePermanent,
        Exec.caller]
  | installHook allocs methodPtr idx => simp [runHostCall]
  | removeHook handle => simp [runHostCall]
  | gameCode memory => simp [runHostCall]

theorem cleanCall_iff (world : World) (exec : Exec) (later : List HostCall)
    (call : HostCall) :
    CleanCall world exec later call ↔
      (∀ allocs methodPtr idx, call = .installHook allocs methodPtr idx →
        CleanCall world exec later call) ∧
      (∀ inner, call = .mem inner →
        ¬ Journals world.backend exec.hooks.memory inner) := by
  cases call <;> simp [CleanCall]

/-- From any store: nothing is owned and nothing is journalled at the end
exactly when the journal is empty at the start, what is owned at the start is
removed on the way, and the calls are clean. -/
theorem leavesNothing_iff (world : World) (exec : Exec)
    (calls : List HostCall) :
    ((∀ slot, ¬ Owns (runHostCalls world exec calls) slot) ∧
        (runHostCalls world exec calls).data.writeJournal.entries = []) ↔
      ((∀ slot, Owns exec slot →
          ∃ handle, .removeHook handle ∈ calls ∧ handle.toNat = slot.val) ∧
        exec.data.writeJournal.entries = []) ∧ CleanCalls world exec calls := by
  induction calls generalizing exec with
  | nil => simp [runHostCalls, CleanCalls]
  | cons call later ih =>
      have htail := ih (runHostCall world exec call)
      rw [owns_runHostCall, entries_runHostCall_eq_nil] at htail
      rw [CleanCalls, cleanCall_iff]
      refine htail.trans ?_
      tauto

/-- A fresh store leaves nothing behind exactly when its calls are clean. -/
theorem leavesNothing_spawn_iff (world : World) (state : RuntimeState)
    (hfresh : ∀ slot ctx, state.hooks.slots slot = some ctx →
      ctx.runtimeId < state.nextId) (calls : List HostCall) :
    ((∀ slot, ¬ Owns (runHostCalls world (spawnExec state) calls) slot) ∧
        (runHostCalls world (spawnExec state) calls).data.writeJournal.entries =
          []) ↔
      CleanCalls world (spawnExec state) calls := by
  have howns : ∀ slot, ¬ Owns (spawnExec state) slot := by
    rintro slot ⟨ctx, hslot, hid⟩
    have hlt := hfresh slot ctx hslot
    simp only [spawnExec] at hid
    omega
  have hentries : (spawnExec state).data.writeJournal.entries = [] := rfl
  rw [leavesNothing_iff]
  simp [howns, hentries]

/-! ## The teardown half of a reload -/

theorem slots_foldl_removeHook (env : Env) (hooks : HookState)
    (ids : List SlotId) :
    (ids.foldl (fun hooks slot => (Slots.removeHook env hooks slot.val).1)
      hooks).slots = fun slot => if slot ∈ ids then none else hooks.slots slot := by
  induction ids generalizing hooks with
  | nil => simp
  | cons id ids ih =>
      rw [List.foldl_cons, ih, removeHook_slots]
      funext slot
      by_cases hid : slot = id
      · simp [hid]
      · simp [hid, Fin.val_inj]

/-- Step 3 unpublishes exactly the slots of the runtime. -/
theorem slots_unhookOwned (env : Env) (hooks : HookState) (targetId : ℕ)
    {slot : SlotId} {ctx : HookCtx} :
    (unhookOwned env hooks targetId).slots slot = some ctx ↔
      hooks.slots slot = some ctx ∧ ctx.runtimeId ≠ targetId := by
  rw [unhookOwned, slots_foldl_removeHook]
  simp only [collectOwnedHookIds, List.mem_filter, List.mem_finRange, true_and]
  cases hslot : hooks.slots slot with
  | none => simp
  | some other =>
      simp only [Option.any_some, decide_eq_true_eq, Option.some.injEq]
      split
      · rename_i howned
        simp only [reduceCtorEq, false_iff, not_and, not_not]
        rintro rfl
        exact howned
      · rename_i howned
        simp only [Option.some.injEq]
        constructor
        · rintro rfl
          exact ⟨rfl, howned⟩
        · exact And.left

/-! ## Facts about every history -/

/-- Ids are allocated once, and the registry holds at most one runtime. -/
structure WellFormed (state : RuntimeState) : Prop where
  length : state.registry.length ≤ 1
  storeId : ∀ runtime ∈ state.registry, runtime.store.runtimeId = runtime.id
  registryLt : ∀ runtime ∈ state.registry, runtime.id < state.nextId
  slotsLt : ∀ slot ctx, state.hooks.slots slot = some ctx →
    ctx.runtimeId < state.nextId
  revertedLt : ∀ id entry, (id, entry) ∈ state.reverted → id < state.nextId

theorem wellFormed_initial (memory : Memory UInt8) :
    WellFormed (RuntimeState.initial memory) where
  length := by simp [RuntimeState.initial]
  storeId := by simp [RuntimeState.initial]
  registryLt := by simp [RuntimeState.initial]
  slotsLt := by simp [RuntimeState.initial, HookState.initial]
  revertedLt := by simp [RuntimeState.initial]

/-- The registry as the reload sees it. -/
theorem registry_cases {state : RuntimeState}
    (hlength : state.registry.length ≤ 1) :
    state.registry = [] ∨ ∃ runtime, state.registry = [runtime] := by
  match hregistry : state.registry with
  | [] => exact Or.inl rfl
  | [runtime] => exact Or.inr ⟨runtime, rfl⟩
  | _ :: _ :: _ => simp [hregistry] at hlength

theorem tornDown_registry (world : World) {state : RuntimeState}
    (hlength : state.registry.length ≤ 1) (reload : Reload) :
    (tornDown world state reload).registry = [] := by
  cases registry_cases hlength with
  | inl hempty => simp [tornDown, hempty]
  | inr hone =>
      obtain ⟨runtime, hone⟩ := hone
      simp [tornDown, hone, tearDown]

theorem wellFormed_tornDown (world : World) {state : RuntimeState}
    (hwf : WellFormed state) (reload : Reload) :
    WellFormed (tornDown world state reload) := by
  have hempty := tornDown_registry world hwf.length reload
  cases registry_cases hwf.length with
  | inl hnone =>
      rw [tornDown, hnone]
      exact hwf
  | inr hone =>
      obtain ⟨runtime, hone⟩ := hone
      have htorn : tornDown world state reload =
          tearDown world state reload.order runtime := by
        simp only [tornDown, hone]
      rw [htorn] at hempty ⊢
      refine ⟨by simp [hempty], by simp [hempty], by simp [hempty], ?_, ?_⟩
      · intro slot ctx hslot
        exact hwf.slotsLt slot ctx ((slots_unhookOwned _ _ _).mp hslot).1
      · intro id entry hmem
        simp only [tearDown, tagged, List.mem_append, List.mem_map,
          Prod.mk.injEq] at hmem
        cases hmem with
        | inl hold => exact hwf.revertedLt id entry hold
        | inr hnew =>
            obtain ⟨other, -, rfl, -⟩ := hnew
            exact hwf.registryLt runtime (by simp [hone])

/-! ## The spawning half -/

/-- The three ways a spawn into an empty registry ends. -/
inductive SpawnOutcome (world : World) (state : RuntimeState) :
    Option WasmModule → RuntimeState → Prop where
  | unparsed : SpawnOutcome world state none state
  | failed (loaded : WasmModule) (calls : List HostCall)
      (hfailed : failedCalls loaded = some calls) :
      SpawnOutcome world state (some loaded)
        (RuntimeState.stopped { state with nextId := state.nextId + 1 }
          (runHostCalls world (spawnExec state) calls))
  | parked (loaded : WasmModule) (calls : List HostCall)
      (hreturned : failedCalls loaded = none) :
      SpawnOutcome world state (some loaded)
        { RuntimeState.stopped { state with nextId := state.nextId + 1 }
            (runHostCalls world (spawnExec state) calls) with
          registry := [⟨state.nextId,
            (runHostCalls world (spawnExec state) calls).data, loaded.table⟩] }

theorem spawnFresh_outcome (world : World) {state : RuntimeState}
    (hempty : state.registry = []) (loaded : Option WasmModule) :
    ∃ next, spawnFresh world state loaded = some next ∧
      SpawnOutcome world state loaded next := by
  cases loaded with
  | none => exact ⟨state, rfl, .unparsed⟩
  | some loaded =>
      cases hstart : loaded.start.traps with
      | true =>
          refine ⟨_, ?_, .failed loaded loaded.start.calls ?_⟩
          · simp [spawnFresh, runWasmWithMem, hstart]
          · simp [failedCalls, hstart]
      | false =>
          cases hmain : loaded.frogMain with
          | none =>
              refine ⟨_, ?_, .failed loaded loaded.start.calls ?_⟩
              · simp [spawnFresh, runWasmWithMem, hstart, hmain]
              · simp [failedCalls, hstart, hmain]
          | some frogMain =>
              have hcalls : runHostCalls world (runHostCalls world
                  (spawnExec state) loaded.start.calls) frogMain.calls =
                    runHostCalls world (spawnExec state)
                      (loaded.start.calls ++ frogMain.calls) :=
                (List.foldl_append ..).symm
              cases htraps : frogMain.traps with
              | true =>
                  refine ⟨_, ?_, .failed loaded
                    (loaded.start.calls ++ frogMain.calls) ?_⟩
                  · simp [spawnFresh, runWasmWithMem, hstart, hmain, htraps,
                      hcalls]
                  · simp [failedCalls, hstart, hmain, htraps]
              | false =>
                  refine ⟨_, ?_, .parked loaded
                    (loaded.start.calls ++ frogMain.calls) ?_⟩
                  · simp [spawnFresh, runWasmWithMem, hstart, hmain, htraps,
                      hcalls, Orchestrator.insert, RuntimeState.stopped, hempty]
                  · simp [failedCalls, hstart, hmain, htraps]

theorem wellFormed_stopped {state : RuntimeState} {before after : Exec}
    (hwf : WellFormed state) (hhooks : before.hooks = state.hooks)
    (hid : before.data.runtimeId < state.nextId)
    (hextends : Extends before after) : WellFormed (state.stopped after) where
  length := hwf.length
  storeId := hwf.storeId
  registryLt := hwf.registryLt
  slotsLt := by
    intro slot ctx hslot
    cases hextends.slots slot ctx hslot with
    | inl hold =>
        rw [hhooks] at hold
        exact hwf.slotsLt slot ctx hold
    | inr hown => exact hown ▸ hid
  revertedLt := hwf.revertedLt

theorem WellFormed.allocate {state : RuntimeState} (hwf : WellFormed state) :
    WellFormed { state with nextId := state.nextId + 1 } where
  length := hwf.length
  storeId := hwf.storeId
  registryLt := fun runtime hmem => Nat.lt_succ_of_lt (hwf.registryLt runtime hmem)
  slotsLt := fun slot ctx hslot => Nat.lt_succ_of_lt (hwf.slotsLt slot ctx hslot)
  revertedLt := fun id entry hmem =>
    Nat.lt_succ_of_lt (hwf.revertedLt id entry hmem)

theorem wellFormed_spawn {world : World} {state next : RuntimeState}
    {loaded : Option WasmModule} (hwf : WellFormed state)
    (houtcome : SpawnOutcome world state loaded next) : WellFormed next := by
  cases houtcome with
  | unparsed => exact hwf
  | failed loaded calls hfailed =>
      exact wellFormed_stopped hwf.allocate rfl (Nat.lt_succ_self _)
        (extends_runHostCalls world (spawnExec state) calls)
  | parked loaded calls hreturned =>
      have hextends := extends_runHostCalls world (spawnExec state) calls
      have hstopped := wellFormed_stopped hwf.allocate rfl (Nat.lt_succ_self _)
        hextends
      refine ⟨Nat.le_refl 1, ?_, ?_, hstopped.slotsLt, hstopped.revertedLt⟩
      · intro runtime hmem
        rw [List.mem_singleton] at hmem
        subst hmem
        exact hextends.runtimeId
      · intro runtime hmem
        rw [List.mem_singleton] at hmem
        subst hmem
        exact Nat.lt_succ_self _

theorem runtime_of_callHookHandler {registry : List ParkedRuntime} {idx : ℕ}
    {runtime : ParkedRuntime} {func : ℕ}
    (hcall : callHookHandler registry idx = .ok (runtime, func)) :
    registry.head? = some runtime := by
  cases registry with
  | nil => simp [callHookHandler] at hcall
  | cons first rest =>
      have hfirst : first = runtime := by
        simp only [callHookHandler] at hcall
        repeat' split at hcall
        all_goals simp at hcall
        exact hcall.1
      rw [hfirst, List.head?_cons]

/-- A dispatch runs code only in the registered runtime. -/
theorem dispatchHandler_cases (world : World) {state : RuntimeState}
    (hwf : WellFormed state) (slot : SlotId) (calls : List HostCall) :
    dispatchHandler world state slot calls = state ∨
      ∃ runtime, state.registry = [runtime] ∧
        dispatchHandler world state slot calls =
          { state.stopped
              (runHostCalls world ⟨runtime.store, state.hooks⟩ calls) with
            registry := [{ runtime with
              store := (runHostCalls world ⟨runtime.store, state.hooks⟩
                calls).data }] } := by
  unfold dispatchHandler
  cases state.hooks.slots slot with
  | none => exact Or.inl rfl
  | some ctx =>
      dsimp only
      cases hcall : callHookHandler state.registry ctx.handlerFuncRef with
      | error message => exact Or.inl rfl
      | ok resolved =>
          obtain ⟨runtime, func⟩ := resolved
          cases registry_cases hwf.length with
          | inl hempty => simp [hempty, callHookHandler] at hcall
          | inr hone =>
              obtain ⟨only, hone⟩ := hone
              have hsame := runtime_of_callHookHandler hcall
              rw [hone, List.head?_cons, Option.some.injEq] at hsame
              subst hsame
              exact Or.inr ⟨only, hone, by simp only [hone, List.tail_cons]⟩

/-- Every event returns, and ids stay well formed. -/
theorem wellFormed_step (world : World) {state : RuntimeState}
    (hwf : WellFormed state) (event : Event) :
    ∃ next, step world state event = some next ∧ WellFormed next := by
  cases event with
  | game memory =>
      exact ⟨_, rfl, ⟨hwf.length, hwf.storeId, hwf.registryLt, hwf.slotsLt,
        hwf.revertedLt⟩⟩
  | handler slot calls =>
      refine ⟨_, rfl, ?_⟩
      cases dispatchHandler_cases world hwf slot calls with
      | inl hsame =>
          rw [hsame]
          exact hwf
      | inr hran =>
          obtain ⟨runtime, hone, hran⟩ := hran
          rw [hran]
          have hmem : runtime ∈ state.registry := by simp [hone]
          have hid := hwf.storeId runtime hmem
          have hlt := hwf.registryLt runtime hmem
          have hextends := extends_runHostCalls world
            ⟨runtime.store, state.hooks⟩ calls
          have hstopped := wellFormed_stopped hwf rfl (hid.symm ▸ hlt) hextends
          refine ⟨Nat.le_refl 1, ?_, ?_, hstopped.slotsLt, hstopped.revertedLt⟩
          · intro other hother
            rw [List.mem_singleton] at hother
            subst hother
            exact hextends.runtimeId.trans hid
          · intro other hother
            rw [List.mem_singleton] at hother
            subst hother
            exact hlt
  | reload reload =>
      have htorn := wellFormed_tornDown world hwf reload
      by_cases hbytes : reload.bytes = []
      · exact ⟨_, by rw [step, registryReload, if_pos hbytes], htorn⟩
      · obtain ⟨next, hnext, houtcome⟩ := spawnFresh_outcome world
          (tornDown_registry world hwf.length reload) reload.loaded
        refine ⟨next, ?_, wellFormed_spawn htorn houtcome⟩
        rw [step, registryReload, if_neg hbytes, hnext]

theorem wellFormed_run (world : World) (memory : Memory UInt8)
    (events : List Event) :
    ∃ state, run (step world) (RuntimeState.initial memory) events =
      some state ∧ WellFormed state :=
  run_total (fun _ event hwf => wellFormed_step world hwf event)
    (wellFormed_initial memory) events

/-! ## Ownership along clean histories -/

/-- Every slot has a live owner, and every journalled entry is still in the
journal of a live runtime or was handed to the revert step. -/
structure Kept (state : RuntimeState) : Prop where
  owned : ∀ slot ctx, state.hooks.slots slot = some ctx →
    ∃ runtime ∈ state.registry, runtime.id = ctx.runtimeId
  accounted : ∀ id entry, (id, entry) ∈ state.journalled →
    (∃ runtime ∈ state.registry, runtime.id = id ∧
      entry ∈ runtime.store.writeJournal.entries) ∨
    (id, entry) ∈ state.reverted

theorem kept_initial (memory : Memory UInt8) :
    Kept (RuntimeState.initial memory) where
  owned := by simp [RuntimeState.initial, HookState.initial]
  accounted := by simp [RuntimeState.initial]

theorem settled_of_kept {state : RuntimeState} (hwf : WellFormed state)
    (hkept : Kept state) : Settled state := by
  have howner : ∀ slot ctx, state.hooks.slots slot = some ctx →
      state.registry.map ParkedRuntime.id = [ctx.runtimeId] := by
    intro slot ctx hslot
    obtain ⟨runtime, hmem, hid⟩ := hkept.owned slot ctx hslot
    cases registry_cases hwf.length with
    | inl hempty => simp [hempty] at hmem
    | inr hone =>
        obtain ⟨only, hone⟩ := hone
        rw [hone, List.mem_singleton] at hmem
        subst hmem
        rw [hone, List.map_singleton, hid]
  refine ⟨howner, ?_, ?_⟩
  · intro slot ctx runtime func hslot hcall
    have hhead := runtime_of_callHookHandler hcall
    have hmem := List.mem_of_head? hhead
    rw [hwf.storeId runtime hmem]
    have hids : runtime.id ∈ state.registry.map ParkedRuntime.id :=
      List.mem_map_of_mem hmem
    rw [howner slot ctx hslot, List.mem_singleton] at hids
    exact hids
  · intro id entry hentry hgone
    cases hkept.accounted id entry hentry with
    | inr hreverted => exact hreverted
    | inl hlive =>
        obtain ⟨runtime, hmem, rfl, -⟩ := hlive
        exact absurd (List.mem_map_of_mem hmem) hgone

theorem kept_tornDown (world : World) {state : RuntimeState}
    (hwf : WellFormed state) (hkept : Kept state) (reload : Reload) :
    Kept (tornDown world state reload) := by
  cases registry_cases hwf.length with
  | inl hempty =>
      rw [tornDown, hempty]
      exact hkept
  | inr hone =>
      obtain ⟨runtime, hone⟩ := hone
      have htorn : tornDown world state reload =
          tearDown world state reload.order runtime := by
        simp only [tornDown, hone]
      rw [htorn]
      constructor
      · intro slot ctx hslot
        obtain ⟨hold, hother⟩ := (slots_unhookOwned _ _ _).mp hslot
        obtain ⟨owner, hmem, hid⟩ := hkept.owned slot ctx hold
        rw [hone, List.mem_singleton] at hmem
        subst hmem
        exact absurd hid.symm hother
      · intro id entry hentry
        refine Or.inr (List.mem_append.mpr ?_)
        cases hkept.accounted id entry hentry with
        | inr hreverted => exact Or.inl hreverted
        | inl hlive =>
            obtain ⟨owner, hmem, rfl, hjournal⟩ := hlive
            rw [hone, List.mem_singleton] at hmem
            subst hmem
            have hiter := (reload.order.iter_perm
              owner.store.writeJournal.takeEntries.1).mem_iff.mpr hjournal
            exact Or.inr (List.mem_map_of_mem hiter)

/-- Code of a store that is parked again keeps the accounts. -/
theorem kept_parked {state : RuntimeState} {before after : Exec}
    {parked : ParkedRuntime} (hhooks : before.hooks = state.hooks)
    (hextends : Extends before after)
    (hid : before.data.runtimeId = parked.id) (hstore : parked.store = after.data)
    (hslots : ∀ slot ctx, state.hooks.slots slot = some ctx →
      ctx.runtimeId = parked.id)
    (haccounted : ∀ id entry, (id, entry) ∈ state.journalled →
      (id = parked.id ∧ entry ∈ before.data.writeJournal.entries) ∨
        (id, entry) ∈ state.reverted) :
    Kept { state.stopped after with registry := [parked] } := by
  constructor
  · intro slot ctx hslot
    refine ⟨parked, List.mem_singleton_self parked, ?_⟩
    cases hextends.slots slot ctx hslot with
    | inl hold =>
        rw [hhooks] at hold
        exact (hslots slot ctx hold).symm
    | inr hown => exact (hown.trans hid).symm
  · intro id entry hentry
    simp only [RuntimeState.stopped, tagged, List.mem_append, List.mem_map,
      Prod.mk.injEq] at hentry
    cases hentry with
    | inr hnew =>
        obtain ⟨other, hother, rfl, rfl⟩ := hnew
        exact Or.inl ⟨parked, List.mem_singleton_self parked,
          (hextends.runtimeId.trans hid).symm, hstore ▸ hother⟩
    | inl hold =>
        cases haccounted id entry hold with
        | inr hreverted => exact Or.inr hreverted
        | inl hlive =>
            exact Or.inl ⟨parked, List.mem_singleton_self parked,
              hlive.1.symm, hstore ▸ hextends.entries hlive.2⟩

theorem kept_spawn {world : World} {state next : RuntimeState}
    {loaded : Option WasmModule} (hwf : WellFormed state) (hkept : Kept state)
    (hempty : state.registry = [])
    (hclean : ∀ spawned calls, loaded = some spawned →
      failedCalls spawned = some calls →
        CleanCalls world (spawnExec state) calls)
    (houtcome : SpawnOutcome world state loaded next) : Kept next := by
  have hslots : ∀ slot ctx, state.hooks.slots slot ≠ some ctx := by
    intro slot ctx hslot
    obtain ⟨runtime, hmem, -⟩ := hkept.owned slot ctx hslot
    simp [hempty] at hmem
  have haccounted : ∀ id entry, (id, entry) ∈ state.journalled →
      (id, entry) ∈ state.reverted := by
    intro id entry hentry
    refine (hkept.accounted id entry hentry).resolve_left ?_
    rintro ⟨runtime, hmem, -⟩
    simp [hempty] at hmem
  cases houtcome with
  | unparsed => exact hkept
  | failed spawned calls hfailed =>
      have hcalls := hclean spawned calls rfl hfailed
      rw [← leavesNothing_spawn_iff world state hwf.slotsLt] at hcalls
      obtain ⟨howns, hentries⟩ := hcalls
      have hextends := extends_runHostCalls world (spawnExec state) calls
      constructor
      · intro slot ctx hslot
        cases hextends.slots slot ctx hslot with
        | inl hold => exact absurd hold (hslots slot ctx)
        | inr hown =>
            exact absurd ⟨ctx, hslot, hown.trans hextends.runtimeId.symm⟩
              (howns slot)
      · intro id entry hentry
        simp only [RuntimeState.stopped, hentries, tagged, List.map_nil,
          List.append_nil] at hentry
        exact Or.inr (haccounted id entry hentry)
  | parked spawned calls hreturned =>
      have hextends := extends_runHostCalls world (spawnExec state) calls
      refine kept_parked (by rfl) hextends rfl rfl ?_ ?_
      · intro slot ctx hslot
        exact absurd hslot (hslots slot ctx)
      · intro id entry hentry
        exact Or.inr (haccounted id entry hentry)

theorem kept_step (world : World) {state next : RuntimeState} {event : Event}
    (hwf : WellFormed state) (hkept : Kept state)
    (hclean : FailsClean world state event)
    (hstep : step world state event = some next) : Kept next := by
  cases event with
  | game memory =>
      cases hstep
      exact ⟨hkept.owned, hkept.accounted⟩
  | handler slot calls =>
      cases hstep
      cases dispatchHandler_cases world hwf slot calls with
      | inl hsame =>
          rw [hsame]
          exact hkept
      | inr hran =>
          obtain ⟨runtime, hone, hran⟩ := hran
          have hmem : runtime ∈ state.registry := by simp [hone]
          rw [hran]
          have hextends := extends_runHostCalls world
            ⟨runtime.store, state.hooks⟩ calls
          refine kept_parked (by rfl) hextends (hwf.storeId runtime hmem) rfl
            ?_ ?_
          · intro other ctx hslot
            obtain ⟨owner, howner, hid⟩ := hkept.owned other ctx hslot
            rw [hone, List.mem_singleton] at howner
            subst howner
            exact hid.symm
          · intro id entry hentry
            refine (hkept.accounted id entry hentry).imp_left ?_
            rintro ⟨owner, howner, rfl, hjournal⟩
            rw [hone, List.mem_singleton] at howner
            subst howner
            exact ⟨rfl, hjournal⟩
  | reload reload =>
      have htorn := kept_tornDown world hwf hkept reload
      by_cases hbytes : reload.bytes = []
      · rw [step, registryReload, if_pos hbytes, Option.some.injEq] at hstep
        exact hstep ▸ htorn
      · have hempty := tornDown_registry world hwf.length reload
        obtain ⟨spawned, hspawned, houtcome⟩ :=
          spawnFresh_outcome world hempty reload.loaded
        rw [step, registryReload, if_neg hbytes, hspawned,
          Option.some.injEq] at hstep
        subst hstep
        exact kept_spawn (wellFormed_tornDown world hwf reload) htorn hempty
          (hclean hbytes) houtcome

/-- A failing spawn that ends in a settled state was clean. -/
theorem failsClean_of_settled (world : World) {state next : RuntimeState}
    {reload : Reload} (hwf : WellFormed state)
    (hstep : step world state (.reload reload) = some next)
    (hsettled : Settled next) : FailsClean world state (.reload reload) := by
  intro hbytes loaded calls hloaded hfailed
  have htorn := wellFormed_tornDown world hwf reload
  have hempty := tornDown_registry world hwf.length reload
  obtain ⟨spawned, hspawned, houtcome⟩ :=
    spawnFresh_outcome world hempty reload.loaded
  rw [step, registryReload, if_neg hbytes, hspawned, Option.some.injEq] at hstep
  subst hstep
  rw [hloaded] at houtcome
  cases houtcome with
  | parked _ _ hreturned =>
      rw [hfailed] at hreturned
      contradiction
  | failed _ made hmade =>
      rw [hfailed, Option.some.injEq] at hmade
      subst hmade
      rw [← leavesNothing_spawn_iff world _ htorn.slotsLt]
      have hextends := extends_runHostCalls world
        (spawnExec (tornDown world state reload)) calls
      constructor
      · rintro slot ⟨ctx, hslot, -⟩
        have howner := hsettled.owner slot ctx hslot
        simp [RuntimeState.stopped, hempty] at howner
      · apply List.eq_nil_iff_forall_not_mem.mpr
        intro entry hentry
        -- A fresh id has never been handed to the revert step.
        have hreverted := hsettled.reverted _ entry
          (List.mem_append_right _ (List.mem_map_of_mem hentry))
          (by simp [RuntimeState.stopped, hempty])
        have hlt := htorn.revertedLt _ entry hreverted
        rw [hextends.runtimeId] at hlt
        exact Nat.lt_irrefl _ hlt

/-- Along a history, every reload leaves a settled state exactly when every
spawn that fails has journalled nothing and removed the hooks it installed. -/
theorem teardownComplete_iff_failsClean (world : World) (memory : Memory UInt8)
    (events : List Event) :
    TeardownComplete world memory events ↔
      Meets (step world) (FailsClean world) (RuntimeState.initial memory)
        events := by
  constructor
  · intro hcomplete taken event rest state hsplit hrun
    cases event with
    | handler slot calls => trivial
    | game memory => trivial
    | reload reload =>
        obtain ⟨next, hnext, hsettled⟩ := hcomplete taken reload rest hsplit
        obtain ⟨middle, hmiddle, hlast⟩ := run_concat_eq_some hnext
        rw [hrun, Option.some.injEq] at hmiddle
        subst hmiddle
        obtain ⟨reached, hreached, hwf⟩ := wellFormed_run world memory taken
        rw [hrun, Option.some.injEq] at hreached
        subst hreached
        exact failsClean_of_settled world hwf hlast hsettled
  · intro hmeets taken reload rest hsplit
    obtain ⟨state, hrun, hwf⟩ := wellFormed_run world memory
      (taken ++ [.reload reload])
    have hvisits : Visits (step world) (RuntimeState.initial memory) events
        state := ⟨taken ++ [.reload reload], rest, by simp [hsplit], hrun⟩
    have hstep : ∀ before event next, WellFormed before ∧ Kept before →
        FailsClean world before event → step world before event = some next →
          WellFormed next ∧ Kept next := by
      intro before event next hinv hclean hnext
      obtain ⟨after, hafter, hafterWf⟩ := wellFormed_step world hinv.1 event
      rw [hnext, Option.some.injEq] at hafter
      subst hafter
      exact ⟨hafterWf, kept_step world hinv.1 hinv.2 hclean hnext⟩
    have hkept := hmeets.invariant
      ⟨wellFormed_initial memory, kept_initial memory⟩ hstep hvisits
    exact ⟨state, hrun, settled_of_kept hwf hkept.2⟩

/-! ## A script that hooks a method and then traps -/

def sampleWorld : World where
  hook := OneHookPerMethod.sampleEnv
  backend := ⟨fun _ _ => true, fun _ _ => true⟩

/-- `frog_main` installs a hook on the sample method and runs out of fuel. -/
def trappingReload : Reload where
  bytes := [0]
  loaded := some
    { start := ⟨[], false⟩
      frogMain := some
        ⟨[.installHook ⟨some 0x100000, some 0x200000⟩ 0x100 0], true⟩
      table := none }
  order := ⟨id, fun _ => List.Perm.refl _⟩

/-- The slot stays published while the registry is empty. -/
theorem not_teardownComplete_trapping_spawn :
    ¬ TeardownComplete sampleWorld OneHookPerMethod.sampleMemory
      [.reload trappingReload] := by
  intro hcomplete
  obtain ⟨state, hrun, hsettled⟩ := hcomplete [] trappingReload [] rfl
  have hpublished : (run (step sampleWorld)
      (RuntimeState.initial OneHookPerMethod.sampleMemory)
      [.reload trappingReload]).map (fun state =>
        ((state.hooks.slots 0).map HookCtx.runtimeId,
          state.registry.map ParkedRuntime.id)) = some (some 1, []) := by
    decide +kernel
  rw [List.nil_append] at hrun
  rw [hrun, Option.map_some, Option.some.injEq, Prod.mk.injEq,
    Option.map_eq_some_iff] at hpublished
  obtain ⟨⟨ctx, hslot, -⟩, hregistry⟩ := hpublished
  have howner := hsettled.owner 0 ctx hslot
  rw [hregistry] at howner
  contradiction

end FrogAgent.Teardown
