import FrogAgent.Runtime.SwapProtocol
import FrogAgent.Runtime.Teardown

/-!
# Two overlapping reloads

`registry_reload` can run on the watcher thread (through the fallback) and on
the game thread (at the tail of a dispatch) at the same time.  It releases the
registry lock between its steps, so the two executions interleave at their lock
sections, `remove_hook` calls and host calls.  `registry::insert` asserts that
the registry is empty and its comment leaves the teardown to the orchestrator.
The executions stay out of each other's way exactly when none reaches its pop or
its insert after the other has inserted since its own first lock section.
-/

namespace FrogAgent.Overlap

open FrogAgent.ByteMemory
open FrogAgent.Journal
open FrogAgent.JournalRevert
open FrogAgent.MemHost
open FrogAgent.Orchestrator
open FrogAgent.Run
open FrogAgent.Slots
open FrogAgent.SwapProtocol

/-- Steps 2 and 3, between the two lock sections of the teardown. -/
inductive Stage where
  | reverting (entries : List (Patch UInt8))
  | scanning
  | unhooking (ids : List SlotId)

/-- Where an execution of `registry_reload` stands.  `tearing` holds the id read
in step 1, `spawning` the store of the new runtime once the module has parsed,
and `closing` is the final `write_state`. -/
inductive Pc where
  | ready
  | tearing (currentId : ℕ) (stage : Stage)
  | spawning (store : Option HostState)
  | closing
  | done
  | panicked

/-- The process, the poison flag of the registry mutex and the two executions.
`disturbed` is a history variable: the other execution has inserted since this
one's first lock section. -/
structure State where
  shared : RuntimeState
  poisoned : Bool
  pc : ThreadId → Pc
  disturbed : ThreadId → Bool

inductive Action where
  | snapshot
  | revert (order : HashOrder)
  | collect
  | removeHook
  | pop
  | parse (valid : Bool)
  | hostCall (call : HostCall)
  | fail
  | insert (table : Option (List TableEntry))
  | writeState

abbrev Label := ThreadId × Action

def State.goto (state : State) (thread : ThreadId) (pc : Pc) : State :=
  { state with pc := Function.update state.pc thread pc }

/-- Step 5 is entered only for a non-empty buffer. -/
def afterTeardown (bytes : List UInt8) : Pc :=
  if bytes = [] then .closing else .spawning none

/-- The registry after `take_entries` on its first runtime. -/
def emptyJournal (runtime : ParkedRuntime) : ParkedRuntime :=
  { runtime with
    store := { runtime.store with
      writeJournal := runtime.store.writeJournal.takeEntries.2 } }

/-- Step 1 under the lock. -/
def snapshot (state : State) (thread : ThreadId) (bytes : List UInt8) : State :=
  let begun := { state with
    disturbed := Function.update state.disturbed thread false }
  if state.poisoned then state.goto thread .done
  else
    match state.shared.registry with
    | [] => begun.goto thread (afterTeardown bytes)
    | runtime :: rest =>
        { begun with shared := { state.shared with
            registry := emptyJournal runtime :: rest } }.goto thread
          (.tearing runtime.id
            (.reverting runtime.store.writeJournal.takeEntries.1))

/-- Step 4 under the lock. -/
def popRuntime (state : State) (thread : ThreadId) (bytes : List UInt8) : State :=
  if state.poisoned then state.goto thread .done
  else
    { state with shared := { state.shared with
        registry := state.shared.registry.dropLast } }.goto thread
      (afterTeardown bytes)

/-- `registry::insert`: a poisoned mutex or an occupied registry panics, and a
panic under the lock poisons the mutex. -/
def insertRuntime (state : State) (thread : ThreadId) (store : HostState)
    (table : Option (List TableEntry)) : State :=
  if state.poisoned then state.goto thread .panicked
  else
    match Orchestrator.insert (state.shared.stopped ⟨store, state.shared.hooks⟩)
        ⟨store.runtimeId, store, table⟩ with
    | none => { state with poisoned := true }.goto thread .panicked
    | some shared =>
        { state with
          shared := shared
          disturbed := Function.update state.disturbed thread.other true }.goto
            thread .closing

/-- Step 2, with no lock held. -/
def revertJournal (world : World) (shared : RuntimeState) (currentId : ℕ)
    (entries : List (Patch UInt8)) : RuntimeState :=
  let memory := revertEntries world.backend shared.hooks.memory entries
  { shared with
    hooks := { shared.hooks with memory := memory }
    reverted := shared.reverted ++ tagged currentId entries }

def step (world : World) (bytes : ThreadId → List UInt8) (state : State)
    (label : Label) : Option State :=
  let thread := label.1
  let shared := state.shared
  match label.2, state.pc thread with
  | .snapshot, .ready => some (snapshot state thread (bytes thread))
  | .revert order, .tearing currentId (.reverting entries) =>
      some ({ state with
        shared := revertJournal world shared currentId
          (order.iter entries) }.goto thread (.tearing currentId .scanning))
  | .collect, .tearing currentId .scanning =>
      some (state.goto thread (.tearing currentId
        (.unhooking (collectOwnedHookIds shared.hooks currentId))))
  | .removeHook, .tearing currentId (.unhooking (slot :: ids)) =>
      some ({ state with shared := { shared with
        hooks := (Slots.removeHook world.hook shared.hooks slot.val).1 } }.goto
          thread (.tearing currentId (.unhooking ids)))
  | .pop, .tearing _ (.unhooking []) =>
      some (popRuntime state thread (bytes thread))
  | .parse false, .spawning none => some (state.goto thread .closing)
  | .parse true, .spawning none =>
      some ({ state with shared := { shared with
        nextId := shared.nextId + 1 } }.goto thread
          (.spawning (some (spawnExec shared).data)))
  | .hostCall call, .spawning (some store) =>
      let exec := runHostCall world ⟨store, shared.hooks⟩ call
      some ({ state with shared := { shared with hooks := exec.hooks } }.goto
        thread (.spawning (some exec.data)))
  | .fail, .spawning (some store) =>
      some ({ state with
        shared := shared.stopped ⟨store, shared.hooks⟩ }.goto thread .closing)
  | .insert table, .spawning (some store) =>
      some (insertRuntime state thread store table)
  | .writeState, .closing => some (state.goto thread .done)
  | _, _ => none

/-- A process with at most one runtime, whose id has been allocated. -/
structure Start where
  shared : RuntimeState
  length : shared.registry.length ≤ 1
  registryLt : ∀ runtime ∈ shared.registry, runtime.id < shared.nextId

/-- Two calls of `registry_reload` about to begin. -/
def begin (start : Start) : State :=
  ⟨start.shared, false, fun _ => .ready, fun _ => false⟩

/-! ## The contract -/

/-- The runtime a pop drops is the one whose journal was extracted, and none of
its hooks is left. -/
def PopsOwn (state : State) : Label → Prop
  | (thread, .pop) => ∀ currentId runtime,
      state.pc thread = .tearing currentId (.unhooking []) →
      state.shared.registry.getLast? = some runtime →
        runtime.id = currentId ∧ ∀ slot ctx,
          state.shared.hooks.slots slot = some ctx →
            ctx.runtimeId ≠ runtime.id
  | _ => True

/-- The assertion never fires, the registry holds at most one runtime, and
every pop drops the runtime its execution has torn down. -/
def SafeOverlap (world : World) (bytes : ThreadId → List UInt8) (start : Start)
    (labels : List Label) : Prop :=
  (∀ state, Visits (step world bytes) (begin start) labels state →
    (∀ thread, state.pc thread ≠ .panicked) ∧
      state.shared.registry.length ≤ 1) ∧
  Meets (step world bytes) PopsOwn (begin start) labels

/-- The step is the pop or the insert of its execution. -/
def Closing (state : State) : Label → Prop
  | (thread, .pop) =>
      ∃ currentId, state.pc thread = .tearing currentId (.unhooking [])
  | (thread, .insert _) => ∃ store, state.pc thread = .spawning (some store)
  | _ => False

/-- No pop and no insert after the other execution has inserted since this
execution's first lock section. -/
def Undisturbed (state : State) (label : Label) : Prop :=
  Closing state label → state.disturbed label.1 = false

/-! ## What one step can do -/

inductive StepOutcome (world : World) (bytes : ThreadId → List UInt8)
    (state : State) (thread : ThreadId) : Action → State → Prop where
  | snapshot (hpc : state.pc thread = .ready) :
      StepOutcome world bytes state thread .snapshot
        (Overlap.snapshot state thread (bytes thread))
  | revert (order : HashOrder) (currentId : ℕ) (entries : List (Patch UInt8))
      (hpc : state.pc thread = .tearing currentId (.reverting entries)) :
      StepOutcome world bytes state thread (.revert order)
        ({ state with
          shared := revertJournal world state.shared currentId
            (order.iter entries) }.goto thread (.tearing currentId .scanning))
  | collect (currentId : ℕ)
      (hpc : state.pc thread = .tearing currentId .scanning) :
      StepOutcome world bytes state thread .collect
        (state.goto thread (.tearing currentId
          (.unhooking (collectOwnedHookIds state.shared.hooks currentId))))
  | removeHook (currentId : ℕ) (slot : SlotId) (ids : List SlotId)
      (hpc : state.pc thread = .tearing currentId (.unhooking (slot :: ids))) :
      StepOutcome world bytes state thread .removeHook
        ({ state with shared := { state.shared with
          hooks := (Slots.removeHook world.hook state.shared.hooks
            slot.val).1 } }.goto thread (.tearing currentId (.unhooking ids)))
  | pop (currentId : ℕ)
      (hpc : state.pc thread = .tearing currentId (.unhooking [])) :
      StepOutcome world bytes state thread .pop
        (popRuntime state thread (bytes thread))
  | reject (hpc : state.pc thread = .spawning none) :
      StepOutcome world bytes state thread (.parse false)
        (state.goto thread .closing)
  | accept (hpc : state.pc thread = .spawning none) :
      StepOutcome world bytes state thread (.parse true)
        ({ state with shared := { state.shared with
          nextId := state.shared.nextId + 1 } }.goto thread
            (.spawning (some (spawnExec state.shared).data)))
  | hostCall (call : HostCall) (store : HostState)
      (hpc : state.pc thread = .spawning (some store)) :
      StepOutcome world bytes state thread (.hostCall call)
        ({ state with shared := { state.shared with
          hooks := (runHostCall world ⟨store, state.shared.hooks⟩
            call).hooks } }.goto thread (.spawning (some
              (runHostCall world ⟨store, state.shared.hooks⟩ call).data)))
  | fail (store : HostState) (hpc : state.pc thread = .spawning (some store)) :
      StepOutcome world bytes state thread .fail
        ({ state with
          shared := state.shared.stopped
            ⟨store, state.shared.hooks⟩ }.goto thread .closing)
  | insert (table : Option (List TableEntry)) (store : HostState)
      (hpc : state.pc thread = .spawning (some store)) :
      StepOutcome world bytes state thread (.insert table)
        (insertRuntime state thread store table)
  | writeState (hpc : state.pc thread = .closing) :
      StepOutcome world bytes state thread .writeState
        (state.goto thread .done)

theorem step_outcome {world : World} {bytes : ThreadId → List UInt8}
    {state next : State} {thread : ThreadId} {action : Action}
    (hstep : step world bytes state (thread, action) = some next) :
    StepOutcome world bytes state thread action next := by
  simp only [step] at hstep
  split at hstep <;> try contradiction
  all_goals
    rename_i hpc
    cases hstep
  · exact .snapshot hpc
  · exact .revert _ _ _ hpc
  · exact .collect _ hpc
  · exact .removeHook _ _ _ hpc
  · exact .pop _ hpc
  · exact .reject hpc
  · exact .accept hpc
  · exact .hostCall _ _ hpc
  · exact .fail _ hpc
  · exact .insert _ _ hpc
  · exact .writeState hpc

/-! ## The registry part of an execution is a swap -/

def Pc.phase : Pc → Phase
  | .ready => .ready
  | .tearing currentId _ => .tearing currentId
  | .spawning store => .spawning (store.map HostState.runtimeId)
  | .closing | .done => .over
  | .panicked => .panicked

def State.swap (state : State) : Swap where
  ids := state.shared.registry.map ParkedRuntime.id
  nextId := state.shared.nextId
  poisoned := state.poisoned
  phase := fun thread => (state.pc thread).phase
  disturbed := state.disturbed

theorem swap_goto (state : State) (thread : ThreadId) (pc : Pc) :
    (state.goto thread pc).swap = state.swap.goto thread pc.phase := by
  simp only [State.swap, State.goto, Swap.goto, Swap.mk.injEq, true_and,
    and_true]
  funext other
  by_cases hother : other = thread
  · simp [hother]
  · simp [hother]

/-- A step that does not concern the registry and stays in its phase. -/
theorem swap_goto_same (state : State) (thread : ThreadId) (pc : Pc)
    (hphase : (state.pc thread).phase = pc.phase) :
    (state.goto thread pc).swap = state.swap := by
  rw [swap_goto, ← hphase]
  simp only [Swap.goto, State.swap, Swap.mk.injEq, true_and, and_true]
  exact Function.update_eq_self thread _

theorem phase_afterTeardown (bytes : List UInt8) :
    (afterTeardown bytes).phase = .spawning none ∨
      (afterTeardown bytes).phase = .over := by
  unfold afterTeardown
  split
  · exact Or.inr rfl
  · exact Or.inl rfl

theorem move_snapshot (state : State) (thread : ThreadId) (bytes : List UInt8)
    (hready : state.pc thread = .ready) :
    Move thread False state.swap (snapshot state thread bytes).swap := by
  have hphase : state.swap.phase thread = .ready := by
    simp [State.swap, hready, Pc.phase]
  unfold snapshot
  split
  · rw [swap_goto]
    exact .leave (by simp)
  · split
    · rename_i hregistry
      rw [swap_goto]
      exact .readEmpty _ (by simp) hphase (by simp [State.swap, hregistry])
        (phase_afterTeardown bytes)
    · rename_i runtime rest hregistry
      have hids : state.swap.ids = runtime.id ::
          rest.map ParkedRuntime.id := by
        simp [State.swap, hregistry]
      have hmove : Move thread False state.swap _ :=
        .read runtime.id _ (by simp) hphase hids
      rw [swap_goto]
      convert hmove using 2
      · simp [State.swap, hregistry, emptyJournal]
      · rfl

theorem move_popRuntime (state : State) (thread : ThreadId)
    (bytes : List UInt8) {currentId : ℕ} {stage : Stage}
    (htearing : state.pc thread = .tearing currentId stage) :
    Move thread True state.swap (popRuntime state thread bytes).swap := by
  unfold popRuntime
  split
  · rename_i hpoisoned
    rw [swap_goto]
    exact .leave fun _ => hpoisoned
  · have hmove : Move thread True state.swap _ :=
      .pop currentId _ trivial (by simp [State.swap, htearing, Pc.phase])
        (phase_afterTeardown bytes)
    rw [swap_goto]
    convert hmove using 2
    simp [State.swap, List.map_dropLast]

theorem move_insertRuntime (state : State) (thread : ThreadId)
    (store : HostState) (table : Option (List TableEntry))
    (hspawning : state.pc thread = .spawning (some store)) :
    Move thread True state.swap
      (insertRuntime state thread store table).swap := by
  have hphase : state.swap.phase thread = .spawning (some store.runtimeId) := by
    simp [State.swap, hspawning, Pc.phase]
  unfold insertRuntime
  split
  · rename_i hpoisoned
    have hmove : Move thread True state.swap _ :=
      .panic store.runtimeId trivial hphase (Or.inl hpoisoned)
    rw [swap_goto]
    convert hmove using 2
    · simp [State.swap, hpoisoned]
    · rfl
  · by_cases hregistry : state.shared.registry = []
    · have hmove : Move thread True state.swap _ :=
        .insert store.runtimeId trivial hphase (by simp [State.swap, hregistry])
      simp only [Orchestrator.insert, RuntimeState.stopped, hregistry,
        List.isEmpty_nil, if_true, List.nil_append]
      rw [swap_goto]
      exact hmove
    · have hmove : Move thread True state.swap _ :=
        .panic store.runtimeId trivial hphase
          (Or.inr (by simpa [State.swap] using hregistry))
      simp only [Orchestrator.insert, RuntimeState.stopped,
        List.isEmpty_iff, hregistry, if_false]
      rw [swap_goto]
      exact hmove

/-- Every step of an execution is a move of its swap. -/
theorem step_move {world : World} {bytes : ThreadId → List UInt8}
    {state next : State} {label : Label}
    (hstep : step world bytes state label = some next) :
    Move label.1 (Closing state label) state.swap next.swap := by
  obtain ⟨thread, action⟩ := label
  cases step_outcome hstep with
  | snapshot hpc => exact move_snapshot state thread (bytes thread) hpc
  | revert order currentId entries hpc =>
      rw [swap_goto_same _ _ _ (by simp [hpc, Pc.phase])]
      exact .stay (by simp [Closing])
  | collect currentId hpc =>
      rw [swap_goto_same _ _ _ (by simp [hpc, Pc.phase])]
      exact .stay (by simp [Closing])
  | removeHook currentId slot ids hpc =>
      rw [swap_goto_same _ _ _ (by simp [hpc, Pc.phase])]
      exact .stay (by simp [Closing])
  | pop currentId hpc =>
      have hclosing : Closing state (thread, .pop) = True :=
        eq_true ⟨currentId, hpc⟩
      rw [hclosing]
      exact move_popRuntime state thread (bytes thread) hpc
  | reject hpc =>
      rw [swap_goto]
      exact .leave (by simp [Closing])
  | accept hpc =>
      rw [swap_goto]
      exact .allocate (by simp [Closing]) (by simp [State.swap, hpc, Pc.phase])
  | hostCall call store hpc =>
      have hid := (Teardown.extends_runHostCall world
        ⟨store, state.shared.hooks⟩ call).runtimeId
      rw [swap_goto_same _ _ _ (by simp [hpc, Pc.phase, hid])]
      exact .stay (by simp [Closing])
  | fail store hpc =>
      rw [swap_goto]
      exact .leave (by simp [Closing])
  | insert table store hpc =>
      have hclosing : Closing state (thread, .insert table) = True :=
        eq_true ⟨store, hpc⟩
      rw [hclosing]
      exact move_insertRuntime state thread store table hpc
  | writeState hpc =>
      rw [swap_goto_same _ _ _ (by simp [hpc, Pc.phase])]
      exact .stay (by simp [Closing])

/-! ## No hook of a runtime outlives its teardown -/

/-- The slots a teardown has still to unhook. -/
def HooksListed (state : State) : Prop :=
  ∀ thread currentId ids,
    state.pc thread = .tearing currentId (.unhooking ids) →
      ∀ slot ctx, state.shared.hooks.slots slot = some ctx →
        ctx.runtimeId = currentId → slot ∈ ids

theorem HooksListed.goto {state base : State} (hlisted : HooksListed state)
    (hpcs : base.pc = state.pc) {thread : ThreadId} {pc : Pc}
    (hslots : ∀ slot ctx, base.shared.hooks.slots slot = some ctx →
      state.shared.hooks.slots slot = some ctx ∨
        ∀ other currentId stage, state.pc other = .tearing currentId stage →
          ctx.runtimeId ≠ currentId)
    (hpc : ∀ currentId ids, pc = .tearing currentId (.unhooking ids) →
      ∀ slot ctx, base.shared.hooks.slots slot = some ctx →
        ctx.runtimeId = currentId → slot ∈ ids) :
    HooksListed (base.goto thread pc) := by
  intro other currentId ids hother slot ctx hslot hid
  simp only [State.goto, Function.update_apply, hpcs] at hother
  split at hother
  · exact hpc currentId ids hother slot ctx hslot hid
  · cases hslots slot ctx hslot with
    | inl hold => exact hlisted other currentId ids hother slot ctx hold hid
    | inr hforeign => exact absurd hid (hforeign other currentId _ hother)

theorem afterTeardown_ne_tearing (bytes : List UInt8) (currentId : ℕ)
    (stage : Stage) : afterTeardown bytes ≠ .tearing currentId stage := by
  unfold afterTeardown
  split <;> simp

theorem hooksListed_step {world : World} {bytes : ThreadId → List UInt8}
    {state next : State} {label : Label} (hconsistent : Consistent state.swap)
    (hlisted : HooksListed state)
    (hstep : step world bytes state label = some next) : HooksListed next := by
  obtain ⟨thread, action⟩ := label
  have hsame : ∀ (base : State) (pc : Pc), base.pc = state.pc →
      base.shared.hooks.slots = state.shared.hooks.slots →
      (∀ currentId ids, pc ≠ .tearing currentId (.unhooking ids)) →
        HooksListed (base.goto thread pc) := by
    intro base pc hpcs hslots hpc
    refine hlisted.goto hpcs ?_ ?_
    · intro slot ctx hslot
      exact Or.inl (hslots ▸ hslot)
    · intro currentId ids htearing
      exact absurd htearing (hpc currentId ids)
  cases step_outcome hstep with
  | snapshot hpc =>
      unfold snapshot
      split
      · exact hsame _ _ rfl rfl (by simp)
      · split
        · exact hsame _ _ rfl rfl fun _ _ => afterTeardown_ne_tearing _ _ _
        · exact hsame _ _ rfl rfl (by simp)
  | revert order currentId entries hpc => exact hsame _ _ rfl rfl (by simp)
  | collect currentId hpc =>
      refine hlisted.goto rfl (fun _ _ hslot => Or.inl hslot) ?_
      intro found ids hids slot ctx hslot hid
      cases hids
      simp [collectOwnedHookIds, hslot, hid]
  | removeHook currentId slot ids hpc =>
      have hremoved : ∀ other ctx,
          (Slots.removeHook world.hook state.shared.hooks
            slot.val).1.slots other = some ctx →
            other ≠ slot ∧ state.shared.hooks.slots other = some ctx := by
        intro other ctx hother
        rw [removeHook_slots] at hother
        simp only [Fin.val_inj] at hother
        split at hother
        · contradiction
        · rename_i hne
          exact ⟨hne, hother⟩
      refine hlisted.goto (by rfl) ?_ ?_
      · intro other ctx hother
        exact Or.inl (hremoved other ctx hother).2
      · intro found rest hrest other ctx hother hid
        cases hrest
        obtain ⟨hne, hold⟩ := hremoved other ctx hother
        have hmem := hlisted thread currentId _ hpc other ctx hold hid
        exact (List.mem_cons.mp hmem).resolve_left hne
  | pop currentId hpc =>
      unfold popRuntime
      split
      · exact hsame _ _ rfl rfl (by simp)
      · exact hsame _ _ rfl rfl fun _ _ => afterTeardown_ne_tearing _ _ _
  | reject hpc => exact hsame _ _ rfl rfl (by simp)
  | accept hpc => exact hsame _ _ rfl rfl (by simp)
  | hostCall call store hpc =>
      have hextends := Teardown.extends_runHostCall world
        ⟨store, state.shared.hooks⟩ call
      refine hlisted.goto (by rfl) ?_ ?_
      · intro slot ctx hslot
        refine (hextends.slots slot ctx hslot).imp_right ?_
        -- A hook installed by the script carries the id of its own store.
        intro hown other currentId stage hother hid
        have hstore : store.runtimeId = currentId := hown.symm.trans hid
        apply hconsistent.tearingNe other thread currentId
        · simp [State.swap, hother, Pc.phase]
        · simp [State.swap, hpc, Pc.phase, hstore]
      · intro currentId ids hids
        contradiction
  | fail store hpc => exact hsame _ _ rfl rfl (by simp)
  | insert table store hpc =>
      unfold insertRuntime Orchestrator.insert
      split
      · exact hsame _ _ rfl rfl (by simp)
      · by_cases hregistry : state.shared.registry = []
        · simp only [RuntimeState.stopped, hregistry, List.isEmpty_nil, if_true]
          exact hsame _ _ rfl rfl (by simp)
        · simp only [RuntimeState.stopped, List.isEmpty_iff, hregistry, if_false]
          exact hsame _ _ rfl rfl (by simp)
  | writeState hpc => exact hsame _ _ rfl rfl (by simp)

/-! ## Overlapping executions -/

/-- The invariant of the undisturbed interleavings. -/
structure Apart (state : State) : Prop where
  consistent : Consistent state.swap
  orderly : Orderly state.swap
  quiet : Quiet state.swap
  listed : HooksListed state

theorem apart_begin (start : Start) : Apart (begin start) where
  consistent := by
    refine ⟨?_, ?_, ?_, ?_, ?_, ?_, ?_⟩
    · simpa [begin, State.swap] using start.length
    · simpa [begin, State.swap] using start.registryLt
    all_goals simp [begin, State.swap, Pc.phase]
  orderly := by
    constructor <;> simp [begin, State.swap, Pc.phase]
  quiet := by simp [Quiet, begin, State.swap, Pc.phase]
  listed := by simp [HooksListed, begin]

theorem apart_step {world : World} {bytes : ThreadId → List UInt8}
    {state next : State} {label : Label} (hapart : Apart state)
    (hcalm : Undisturbed state label)
    (hstep : step world bytes state label = some next) : Apart next where
  consistent := hapart.consistent.move (step_move hstep)
  orderly := hapart.orderly.move hapart.consistent (step_move hstep) hcalm
  quiet := hapart.orderly.quiet_move (step_move hstep) hcalm hapart.quiet
  listed := hooksListed_step hapart.consistent hapart.listed hstep

theorem popsOwn_of_apart {state : State} {label : Label}
    (hapart : Apart state) (hcalm : Undisturbed state label) :
    PopsOwn state label := by
  obtain ⟨thread, action⟩ := label
  cases action with
  | pop =>
      intro currentId runtime hpc hlast
      have hid : runtime.id = currentId := by
        apply hapart.orderly.tearing thread currentId
        · simp [State.swap, hpc, Pc.phase]
        · exact hcalm ⟨currentId, hpc⟩
        · exact List.mem_map_of_mem (List.mem_of_getLast? hlast)
      refine ⟨hid, ?_⟩
      intro slot ctx hslot hown
      have hmem := hapart.listed thread currentId [] hpc slot ctx hslot
        (hown.trans hid)
      simp at hmem
  | _ => trivial

/-- A step of a safe run is undisturbed. -/
theorem undisturbed_of_popsOwn {world : World} {bytes : ThreadId → List UInt8}
    {state : State} {label : Label} (horderly : Orderly state.swap)
    (hpops : PopsOwn state label)
    (hquiet : ∀ next, step world bytes state label = some next →
      Quiet next.swap) : Undisturbed state label := by
  intro hclosing
  have henabled : ∃ next, step world bytes state label = some next := by
    obtain ⟨thread, action⟩ := label
    cases action with
    | pop =>
        obtain ⟨currentId, hpc⟩ := hclosing
        simp [step, hpc]
    | insert table =>
        obtain ⟨store, hpc⟩ := hclosing
        simp [step, hpc]
    | _ => exact hclosing.elim
  obtain ⟨next, hnext⟩ := henabled
  refine horderly.calm_of_quiet (step_move hnext) (hquiet next hnext) ?_ hclosing
  intro id hphase _ other hother
  obtain ⟨thread, action⟩ := label
  cases action with
  | pop =>
      obtain ⟨currentId, hpc⟩ := hclosing
      simp only [State.swap, hpc, Pc.phase, Phase.tearing.injEq] at hphase
      simp only [State.swap, List.getLast?_map, Option.mem_def,
        Option.map_eq_some_iff] at hother
      obtain ⟨runtime, hlast, rfl⟩ := hother
      exact (hpops currentId runtime hpc hlast).1.trans hphase
  | insert table =>
      obtain ⟨store, hpc⟩ := hclosing
      simp [State.swap, hpc, Pc.phase] at hphase
  | _ => exact hclosing.elim

/-- Two overlapping reloads are safe exactly when none reaches its pop or its
insert after the other has inserted since its own first lock section. -/
theorem safeOverlap_iff_undisturbed (world : World)
    (bytes : ThreadId → List UInt8) (start : Start) (labels : List Label) :
    SafeOverlap world bytes start labels ↔
      Meets (step world bytes) Undisturbed (begin start) labels := by
  constructor
  · rintro ⟨hstates, hpops⟩
    have hquiet : Meets (step world bytes) (fun state label =>
        ∀ next, step world bytes state label = some next → Quiet next.swap)
        (begin start) labels := by
      intro taken label rest state hsplit hrun next hnext thread
      have hvisits : Visits (step world bytes) (begin start) labels next :=
        hsplit ▸ visits_step hrun hnext
      have hpc := (hstates next hvisits).1 thread
      cases hphase : next.pc thread <;> simp_all [State.swap, Pc.phase]
    have hguard : Meets (step world bytes) (fun state label =>
        PopsOwn state label ∧ ∀ next, step world bytes state label = some next →
          Quiet next.swap) (begin start) labels :=
      fun taken label rest state hsplit hrun =>
        ⟨hpops taken label rest state hsplit hrun,
          hquiet taken label rest state hsplit hrun⟩
    intro taken label rest state hsplit hrun
    have hapart : Apart state := by
      refine hguard.invariant (apart_begin start) ?_
        ⟨taken, label :: rest, hsplit, hrun⟩
      intro before other next hbefore hsafe hstep
      exact apart_step hbefore
        (undisturbed_of_popsOwn hbefore.orderly hsafe.1 hsafe.2) hstep
    have hsafe := hguard taken label rest state hsplit hrun
    exact undisturbed_of_popsOwn hapart.orderly hsafe.1 hsafe.2
  · intro hmeets
    have hapart : ∀ state,
        Visits (step world bytes) (begin start) labels state → Apart state :=
      fun state => hmeets.invariant (apart_begin start)
        fun _ _ _ hbefore hcalm hstep => apart_step hbefore hcalm hstep
    constructor
    · intro state hvisits
      obtain ⟨hconsistent, -, hquiet, -⟩ := hapart state hvisits
      refine ⟨?_, by simpa [State.swap] using hconsistent.length⟩
      intro thread hpc
      apply hquiet thread
      simp [State.swap, hpc, Pc.phase]
    · intro taken label rest state hsplit hrun
      exact popsOwn_of_apart (hapart state ⟨taken, label :: rest, hsplit, hrun⟩)
        (hmeets taken label rest state hsplit hrun)

/-- From an empty registry both executions spawn; the second insert finds the
runtime of the first. -/
def bothSpawn : List Label :=
  [(.watcher, .snapshot), (.game, .snapshot), (.watcher, .parse true),
    (.game, .parse true), (.watcher, .insert none), (.game, .insert none)]

def emptyStart : Start where
  shared := RuntimeState.initial fun _ => 0
  length := by decide
  registryLt := by simp [RuntimeState.initial]

def Pc.isPanicked : Pc → Bool
  | .panicked => true
  | _ => false

theorem not_safeOverlap_bothSpawn :
    ¬ SafeOverlap Teardown.sampleWorld (fun _ => [0]) emptyStart bothSpawn := by
  rintro ⟨hstates, -⟩
  have hpanics : (run (step Teardown.sampleWorld fun _ => [0]) (begin emptyStart)
      bothSpawn).map (fun state => (state.pc .game).isPanicked) = some true := by
    decide +kernel
  obtain ⟨state, hrun, hpanicked⟩ := Option.map_eq_some_iff.mp hpanics
  apply (hstates state (visits_end hrun)).1 .game
  cases hpc : state.pc .game <;> simp_all [Pc.isPanicked]

/-! ## An execution on its own -/

section Solo

variable (world : World) (bytes : ThreadId → List UInt8) (thread : ThreadId)

/-- Where `thread` stands and the process it finds. -/
def At (state : State) (pc : Pc) (shared : RuntimeState) : Prop :=
  state.pc thread = pc ∧ state.shared = shared ∧ state.poisoned = false

/-- Steps of `thread` alone lead from one position to another. -/
def Reaches (pc : Pc) (shared : RuntimeState) (pc' : Pc)
    (shared' : RuntimeState) : Prop :=
  ∀ state, At thread state pc shared → ∃ labels next,
    (∀ label ∈ labels, label.1 = thread) ∧
      run (step world bytes) state labels = some next ∧
        At thread next pc' shared'

variable {world bytes thread}

theorem Reaches.refl (pc : Pc) (shared : RuntimeState) :
    Reaches world bytes thread pc shared pc shared :=
  fun state hat => ⟨[], state, by simp, rfl, hat⟩

theorem Reaches.trans {first second third : Pc}
    {shared shared' shared'' : RuntimeState}
    (hleft : Reaches world bytes thread first shared second shared')
    (hright : Reaches world bytes thread second shared' third shared'') :
    Reaches world bytes thread first shared third shared'' := by
  intro state hat
  obtain ⟨front, middle, hfront, hrun, hmiddle⟩ := hleft state hat
  obtain ⟨back, final, hback, hrest, hfinal⟩ := hright middle hmiddle
  refine ⟨front ++ back, final, ?_, ?_, hfinal⟩
  · intro label hlabel
    exact (List.mem_append.mp hlabel).elim (hfront label) (hback label)
  · rw [run_append, hrun, Option.bind_some, hrest]

theorem reaches_of_step {pc pc' : Pc} {shared shared' : RuntimeState}
    (action : Action) (hstep : ∀ state, At thread state pc shared →
      ∃ disturbed, step world bytes state (thread, action) =
        some (State.goto ⟨shared', false, state.pc, disturbed⟩ thread pc')) :
    Reaches world bytes thread pc shared pc' shared' := by
  intro state hat
  obtain ⟨disturbed, hnext⟩ := hstep state hat
  refine ⟨[(thread, action)],
    State.goto ⟨shared', false, state.pc, disturbed⟩ thread pc', by simp, ?_, ?_⟩
  · rw [run_cons, hnext]
    rfl
  · exact ⟨by simp [State.goto], rfl, rfl⟩

theorem reaches_unhook (currentId : ℕ) (ids : List SlotId)
    (shared : RuntimeState) :
    Reaches world bytes thread (.tearing currentId (.unhooking ids)) shared
      (.tearing currentId (.unhooking []))
      { shared with hooks := ids.foldl (fun hooks slot =>
        (Slots.removeHook world.hook hooks slot.val).1) shared.hooks } := by
  induction ids generalizing shared with
  | nil => exact Reaches.refl _ _
  | cons slot ids ih =>
      refine (reaches_of_step .removeHook ?_).trans (ih { shared with
        hooks := (Slots.removeHook world.hook shared.hooks slot.val).1 })
      rintro state ⟨hpc, rfl, hpoisoned⟩
      exact ⟨state.disturbed, by simp only [step, hpc, hpoisoned]⟩

/-- Steps 2 to 4 alone. -/
theorem reaches_teardown (currentId : ℕ) (entries : List (Patch UInt8))
    (order : HashOrder) (shared : RuntimeState) :
    Reaches world bytes thread (.tearing currentId (.reverting entries)) shared
      (afterTeardown (bytes thread))
      { revertJournal world shared currentId (order.iter entries) with
        hooks := unhookOwned world.hook (revertJournal world shared currentId
          (order.iter entries)).hooks currentId
        registry := shared.registry.dropLast } := by
  have hrevert : Reaches world bytes thread
      (.tearing currentId (.reverting entries)) shared
      (.tearing currentId .scanning)
      (revertJournal world shared currentId (order.iter entries)) := by
    apply reaches_of_step (.revert order)
    rintro state ⟨hpc, rfl, hpoisoned⟩
    exact ⟨state.disturbed, by simp only [step, hpc, hpoisoned]⟩
  refine hrevert.trans ?_
  generalize hshared : revertJournal world shared currentId
    (order.iter entries) = reverted
  have hregistry : shared.registry = reverted.registry := by
    rw [← hshared, revertJournal]
  rw [hregistry]
  have hcollect : Reaches world bytes thread (.tearing currentId .scanning)
      reverted (.tearing currentId
        (.unhooking (collectOwnedHookIds reverted.hooks currentId)))
      reverted := by
    apply reaches_of_step .collect
    rintro state ⟨hpc, rfl, hpoisoned⟩
    exact ⟨state.disturbed, by simp only [step, hpc, State.goto, hpoisoned]⟩
  refine hcollect.trans ((reaches_unhook currentId _ reverted).trans ?_)
  apply reaches_of_step .pop
  rintro state ⟨hpc, hstate, hpoisoned⟩
  refine ⟨state.disturbed, ?_⟩
  simp only [step, hpc, popRuntime, hpoisoned, hstate, Bool.false_eq_true,
    if_false]
  rfl

theorem reaches_hostCalls (store : HostState) (calls : List HostCall)
    (shared : RuntimeState) :
    Reaches world bytes thread (.spawning (some store)) shared
      (.spawning (some (runHostCalls world ⟨store, shared.hooks⟩ calls).data))
      { shared with
        hooks := (runHostCalls world ⟨store, shared.hooks⟩ calls).hooks } := by
  induction calls generalizing store shared with
  | nil => exact Reaches.refl _ _
  | cons call calls ih =>
      refine (reaches_of_step (.hostCall call) ?_).trans
        (ih (runHostCall world ⟨store, shared.hooks⟩ call).data { shared with
          hooks := (runHostCall world ⟨store, shared.hooks⟩ call).hooks })
      rintro state ⟨hpc, rfl, hpoisoned⟩
      exact ⟨state.disturbed, by simp only [step, hpc, hpoisoned]⟩

theorem reaches_done (shared : RuntimeState) :
    Reaches world bytes thread .closing shared .done shared := by
  apply reaches_of_step .writeState
  rintro state ⟨hpc, rfl, hpoisoned⟩
  exact ⟨state.disturbed, by simp only [step, hpc, State.goto, hpoisoned]⟩

/-- Step 5 alone is `spawn_fresh`. -/
theorem reaches_spawnFresh {shared : RuntimeState}
    (hempty : shared.registry = []) (loaded : Option WasmModule) :
    ∃ shared', spawnFresh world shared loaded = some shared' ∧
      Reaches world bytes thread (.spawning none) shared .closing shared' := by
  obtain ⟨shared', hspawn, houtcome⟩ :=
    Teardown.spawnFresh_outcome world hempty loaded
  refine ⟨shared', hspawn, ?_⟩
  have haccept : Reaches world bytes thread (.spawning none) shared
      (.spawning (some (spawnExec shared).data))
      { shared with nextId := shared.nextId + 1 } := by
    apply reaches_of_step (.parse true)
    rintro state ⟨hpc, rfl, hpoisoned⟩
    exact ⟨state.disturbed, by simp only [step, hpc, hpoisoned]⟩
  cases houtcome with
  | unparsed =>
      apply reaches_of_step (.parse false)
      rintro state ⟨hpc, rfl, hpoisoned⟩
      exact ⟨state.disturbed, by simp only [step, hpc, State.goto, hpoisoned]⟩
  | failed spawned calls hfailed =>
      refine haccept.trans ((reaches_hostCalls _ calls _).trans ?_)
      apply reaches_of_step .fail
      rintro state ⟨hpc, hshared, hpoisoned⟩
      refine ⟨state.disturbed, ?_⟩
      simp only [step, hpc, hshared, hpoisoned]
      rfl
  | parked spawned calls hreturned =>
      have hid := (Teardown.extends_runHostCalls world (spawnExec shared)
        calls).runtimeId
      refine haccept.trans ((reaches_hostCalls _ calls _).trans ?_)
      apply reaches_of_step (.insert spawned.table)
      rintro state ⟨hpc, hshared, hpoisoned⟩
      refine ⟨Function.update state.disturbed thread.other true, ?_⟩
      simp only [step, hpc, insertRuntime, hpoisoned, Orchestrator.insert,
        hshared, RuntimeState.stopped, hempty, List.isEmpty_nil, if_true,
        Bool.false_eq_true, if_false, List.nil_append]
      have hexec : (⟨(spawnExec shared).data, shared.hooks⟩ : Exec) =
          spawnExec shared := rfl
      rw [hexec, hid]
      rfl

/-- An execution that is not interleaved computes `registry_reload`. -/
theorem registryReload_alone (start : Start) (reload : Reload)
    (hbytes : bytes thread = reload.bytes) :
    ∃ labels final, (∀ label ∈ labels, label.1 = thread) ∧
      run (step world bytes) (begin start) labels = some final ∧
        final.pc thread = .done ∧
          registryReload world start.shared reload = some final.shared := by
  have htorn : Reaches world bytes thread .ready start.shared
      (afterTeardown reload.bytes) (tornDown world start.shared reload) := by
    cases hregistry : start.shared.registry with
    | nil =>
        apply reaches_of_step .snapshot
        rintro state ⟨hpc, hshared, hpoisoned⟩
        refine ⟨Function.update state.disturbed thread false, ?_⟩
        simp [step, hpc, snapshot, hpoisoned, hshared, hregistry, hbytes,
          tornDown]
    | cons runtime rest =>
        have hrest : rest = [] := by
          have hlength := start.length
          rw [hregistry] at hlength
          simpa using hlength
        subst hrest
        have hsnapshot : Reaches world bytes thread .ready start.shared
            (.tearing runtime.id
              (.reverting runtime.store.writeJournal.takeEntries.1))
            { start.shared with registry := [emptyJournal runtime] } := by
          apply reaches_of_step .snapshot
          rintro state ⟨hpc, hshared, hpoisoned⟩
          refine ⟨Function.update state.disturbed thread false, ?_⟩
          simp [step, hpc, snapshot, hpoisoned, hshared, hregistry]
        have hteardown := hsnapshot.trans (reaches_teardown runtime.id
          runtime.store.writeJournal.takeEntries.1 reload.order _)
        rw [hbytes] at hteardown
        convert hteardown using 1
        simp [tornDown, hregistry, tearDown, revertJournal]
  have hwhole : ∃ shared', registryReload world start.shared reload =
      some shared' ∧ Reaches world bytes thread .ready start.shared .done
        shared' := by
    by_cases hempty : reload.bytes = []
    · refine ⟨_, by rw [registryReload, if_pos hempty], ?_⟩
      rw [afterTeardown, if_pos hempty] at htorn
      exact htorn.trans (reaches_done _)
    · have hregistry := Teardown.tornDown_registry world start.length reload
      obtain ⟨shared', hspawn, hreaches⟩ :=
        reaches_spawnFresh hregistry reload.loaded
      refine ⟨shared', by rw [registryReload, if_neg hempty, hspawn], ?_⟩
      rw [afterTeardown, if_neg hempty] at htorn
      exact htorn.trans (hreaches.trans (reaches_done _))
  obtain ⟨shared', hreload, hreaches⟩ := hwhole
  obtain ⟨labels, final, hlabels, hrun, hpc, hshared, -⟩ :=
    hreaches (begin start) ⟨rfl, rfl, rfl⟩
  exact ⟨labels, final, hlabels, hrun, hpc, hshared ▸ hreload⟩

end Solo

end FrogAgent.Overlap
