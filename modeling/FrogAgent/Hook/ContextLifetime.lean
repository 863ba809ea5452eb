import FrogAgent.Hook.DispatchMachine
import FrogAgent.Hook.OneHookPerMethod

/-!
# A hook context outlives its dispatch

`ctx_for` hands `dispatch_rust` a `'static` reference into a slot and its safety
comment promises that the reference is valid for the duration of the dispatcher
call.  Nothing enforces that: `remove_hook` and the teardown of a reload drop
the context of any slot.  With the game as the only running thread, a context
can be lost in two ways: the handler removes a slot that a dispatch on its own
stack is in, or the tail of a nested dispatch tears down the runtime an outer
dispatch belongs to.
-/

namespace FrogAgent.ContextLifetime

open FrogAgent.DispatchMachine
open FrogAgent.Run
open FrogAgent.Slots
open FrogAgent.SwapProtocol

/-- Every dispatch inside its scope block finds in its slot the context it was
entered with, and the trampoline it called is that context's. -/
def ContextsLive (machine : Machine) : Prop :=
  ∀ slot ctx called pc, .scope slot ctx called pc ∈ machine.stack .game →
    machine.shared.hooks.slots slot = some ctx ∧
      (called = none ∨ called = some ctx.patch.trampoline)

/-- The contract along a run. -/
def ContextsOutlive (env : Env) (start : Start) (labels : List Label) : Prop :=
  ∀ machine, Visits (step env) (begin start) labels machine →
    ContextsLive machine

/-- Only the game runs hook code: the watcher publishes, and its fallback, which
reloads on the watcher's own thread, is not taken. -/
def SingleThreaded : Label → Prop
  | (.watcher, .publish _) => True
  | (.watcher, _) | (.game, .fallback _) => False
  | (.game, _) => True

/-- The slot and the context of a dispatch inside its scope block. -/
def context : Frame → Option (SlotId × HookCtx)
  | .scope slot ctx _ _ => some (slot, ctx)
  | _ => none

/-- The dispatches on the game's stack that are inside their scope block. -/
def inScope (machine : Machine) : List (SlotId × HookCtx) :=
  (machine.stack .game).filterMap context

/-- `remove_hook` is not called for a slot that a dispatch below is in, and a
tail that is about to reload the runtime in the registry has no dispatch of that
runtime below it. -/
def KeepsContexts (machine : Machine) : Label → Prop
  | (.game, .remove handle) => ∀ entry ∈ inScope machine, entry.1.val ≠ handle
  | (.game, .drain) => machine.shared.reloadPending ≠ none →
      machine.shared.owner .registry = none → machine.shared.poisoned = false →
        ∀ entry ∈ inScope machine,
          machine.shared.registry.head? ≠ some entry.2.runtimeId
  | _ => True

instance (machine : Machine) : ∀ label, Decidable (KeepsContexts machine label)
  | (.game, .remove handle) => inferInstanceAs
      (Decidable (∀ entry ∈ inScope machine, entry.1.val ≠ handle))
  | (.game, .drain) => inferInstanceAs
      (Decidable (machine.shared.reloadPending ≠ none → _ → _ → ∀ entry ∈ _, _))
  | (.game, .enter _) | (.game, .finish) | (.game, .memory _)
  | (.game, .dispatch _) | (.game, .callHandler _) | (.game, .resume)
  | (.game, .continue _) | (.game, .call) | (.game, .install ..)
  | (.game, .lock) | (.game, .work) | (.game, .parse _)
  | (.game, .spawnEnds _) | (.game, .publish _) | (.game, .fallback _)
  | (.game, .writeState) | (.watcher, _) => .isTrue trivial

theorem mem_inScope {machine : Machine} {slot : SlotId} {ctx : HookCtx} :
    (slot, ctx) ∈ inScope machine ↔
      ∃ called pc, .scope slot ctx called pc ∈ machine.stack .game := by
  rw [inScope, List.mem_filterMap]
  constructor
  · rintro ⟨frame, hframe, hcontext⟩
    cases frame with
    | scope slot' ctx' called pc =>
        cases hcontext
        exact ⟨called, pc, hframe⟩
    | _ => contradiction
  · rintro ⟨called, pc, hscope⟩
    exact ⟨_, hscope, rfl⟩

/-! ## Which frames are on their way to dropping a context -/

/-- The frame is going to unpublish the slot that holds this context. -/
def Targets (shared : Shared) (slot : SlotId) (ctx : HookCtx) : Frame → Prop
  | .script _ (.removeWait handle) | .script _ (.removeBody handle) =>
      slot.val = handle
  | .reload (.lock _) => shared.owner .registry = none ∧
      shared.poisoned = false ∧ shared.registry.head? = some ctx.runtimeId
  | .reload (.section1 _) =>
      shared.poisoned = false ∧ shared.registry.head? = some ctx.runtimeId
  | .reload (.reverting currentId _) | .reload (.scanning currentId _) =>
      ctx.runtimeId = currentId
  | .reload (.unhooking ids _) => slot ∈ ids
  | .reload (.removing current ids _) => slot = current ∨ slot ∈ ids
  | _ => False

attribute [local simp] Targets

/-- A waiting frame has handed control to the frame above it. -/
theorem not_targets_of_calls {shared : Shared} {slot : SlotId} {ctx : HookCtx}
    {frame : Frame} (hcalls : frame.calls = true) :
    ¬ Targets shared slot ctx frame := by
  unfold Frame.calls at hcalls
  split at hcalls <;> simp_all

theorem targets_of_removes {shared : Shared} {slot : SlotId} {ctx : HookCtx}
    {frame : Frame} (hremoves : frame.removes = some slot.val) :
    Targets shared slot ctx frame := by
  unfold Frame.removes at hremoves
  split at hremoves
  · simpa using hremoves.symm
  · exact Or.inl (Fin.ext (by simpa using hremoves.symm))
  · contradiction

theorem targets_locked {shared : Shared} {thread : ThreadId} {slot : SlotId}
    {ctx : HookCtx} {frame : Frame} {mutex : Mutex}
    (hwaits : frame.waitsFor = some mutex) (hfree : shared.owner mutex = none)
    (htargets : Targets (shared.acquire mutex thread) slot ctx frame.locked) :
    Targets shared slot ctx frame := by
  unfold Frame.waitsFor at hwaits
  split at hwaits <;> cases hwaits
  all_goals simp_all [Frame.locked, Shared.acquire]

/-- A section of `registry_reload` or of a hook host call heads for a slot only
if it did before. -/
theorem targets_work {env : Env} {shared shared' : Shared} {thread : ThreadId}
    {slot : SlotId} {ctx : HookCtx} {frame top : Frame} {below : List Frame}
    (hwork : work env shared thread frame = some (shared', top :: below))
    (hslot : shared.hooks.slots slot = some ctx)
    (htargets : Targets shared' slot ctx top) :
    Targets shared slot ctx frame := by
  have hafter : ∀ bytes, ¬ Targets shared' slot ctx
      (.reload (afterTeardown bytes)) := by
    intro bytes
    unfold afterTeardown
    split <;> simp
  cases frame with
  | script id pc =>
      cases pc with
      | record =>
          simp only [work] at hwork
          split at hwork <;> cases hwork <;> simp at htargets
      | _ => cases hwork <;> simp at htargets
  | reload pc =>
      cases pc with
      | section1 bytes =>
          simp only [work] at hwork
          split at hwork
          · cases hwork
          · rename_i hpoisoned
            split at hwork
            · cases hwork
              exact absurd htargets (hafter bytes)
            · rename_i currentId registry hregistry
              cases hwork
              have hid : ctx.runtimeId = currentId := htargets
              simp [hpoisoned, hregistry, hid]
      | scanning currentId bytes =>
          cases hwork
          have howned :
              slot ∈ Orchestrator.collectOwnedHookIds shared.hooks currentId :=
            htargets
          simpa [Orchestrator.collectOwnedHookIds, hslot] using howned
      | removing current ids bytes =>
          cases hwork
          exact Or.inr htargets
      | section4 bytes =>
          simp only [work] at hwork
          split at hwork
          · cases hwork
          · cases hwork
            exact absurd htargets (hafter bytes)
      | insertSection runtimeId =>
          simp only [work] at hwork
          split at hwork <;> cases hwork <;> simp at htargets
      | _ => cases hwork
  | _ => contradiction

/-- How a frame comes to head for a slot: it already did, the script asks for its
removal, or a reload of its runtime starts. -/
theorem targets_act {env : Env} {shared shared' : Shared} {thread : ThreadId}
    {slot : SlotId} {ctx : HookCtx} {frame top : Frame} {action : Action}
    {below : List Frame}
    (hact : act env shared thread frame action = some (shared', top :: below))
    (hslot : shared.hooks.slots slot = some ctx)
    (htargets : Targets shared' slot ctx top) :
    Targets shared slot ctx frame ∨ action = .remove slot.val ∨
      (action = .drain ∧ shared.reloadPending ≠ none ∧
        shared.owner .registry = none ∧ shared.poisoned = false ∧
          shared.registry.head? = some ctx.runtimeId) ∨
      ∃ bytes, action = .fallback bytes := by
  cases action with
  | lock =>
      simp only [act] at hact
      split at hact
      · contradiction
      · rename_i mutex hwaits
        split at hact
        · rename_i hfree
          cases hact
          exact Or.inl (targets_locked hwaits hfree htargets)
        · contradiction
  | work => exact Or.inl (targets_work hact hslot htargets)
  | remove handle =>
      simp only [act] at hact
      split at hact
      · cases hact
        have hhandle : slot.val = handle := htargets
        exact Or.inr (Or.inl (by rw [hhandle]))
      · contradiction
  | drain =>
      simp only [act] at hact
      split at hact
      · split at hact
        · cases hact
        · rename_i hpending
          cases hact
          exact Or.inr (Or.inr (Or.inl ⟨rfl, by simp [hpending], htargets⟩))
      · contradiction
  | memory memory =>
      simp only [act] at hact
      split at hact <;> cases hact
      · simp at htargets
      · simp at htargets
      · exact Or.inl htargets
  | fallback bytes => exact Or.inr (Or.inr (Or.inr ⟨bytes, rfl⟩))
  | dispatch marshals =>
      simp only [act] at hact
      split at hact
      · simp only [dispatchRust, Option.some.injEq] at hact
        split at hact
        · split at hact
          · simp at hact
          · split at hact
            · cases hact
              simp at htargets
            · split at hact <;> cases hact <;> simp at htargets
        · simp at hact
      · contradiction
  | callHandler resolves =>
      simp only [act] at hact
      split at hact
      · simp only [callHookHandler, Option.some.injEq] at hact
        split at hact
        · cases hact
          simp at htargets
        · split at hact
          · cases hact
            simp at htargets
          · split at hact <;> cases hact <;> simp at htargets
      · contradiction
  | resume =>
      simp only [act] at hact
      split at hact <;> cases hact <;> simp at htargets
  | «continue» observes =>
      simp only [act] at hact
      split at hact
      · split at hact <;> cases hact <;> simp at htargets
      · contradiction
  | parse valid =>
      simp only [act] at hact
      split at hact
      · split at hact <;> cases hact <;> simp at htargets
      · contradiction
  | spawnEnds returned =>
      simp only [act] at hact
      split at hact
      · cases returned <;> cases hact <;> simp at htargets
      · contradiction
  | enter _ | finish | call | install _ _ _ | publish _ | writeState =>
      simp only [act] at hact
      split at hact <;> cases hact <;> simp at htargets

/-! ## The invariant of the runs that keep contexts -/

structure Lasting (machine : Machine) : Prop where
  contexts : ContextsLive machine
  stacked : Stacked machine
  clear : ∀ frame rest, machine.stack .game = frame :: rest →
    ∀ slot ctx called pc, .scope slot ctx called pc ∈ machine.stack .game →
      ¬ Targets machine.shared slot ctx frame

theorem lasting_begin (start : Start) : Lasting (begin start) where
  contexts := by
    intro slot ctx called pc hscope
    simp [begin] at hscope
  stacked := stacked_begin start
  clear := by
    intro frame rest hstack slot ctx called pc hscope
    simp [begin] at hscope

section GameStep

variable {env : Env} {machine : Machine} {shared : Shared} {action : Action}
variable {frame : Frame} {rest frames : List Frame}
variable {slot : SlotId} {ctx : HookCtx} {called : Option ℕ} {pc : ScopePc}

/-- Before the step, the slot of a scope frame holds its context. -/
theorem Lasting.slots_before (hlasting : Lasting machine)
    (hstack : machine.stack .game = frame :: rest)
    (hact : act env machine.shared .game frame action = some (shared, frames))
    (hscope : .scope slot ctx called pc ∈ frames ++ rest) :
    machine.shared.hooks.slots slot = some ctx ∧
      (called = none ∨ called = some ctx.patch.trampoline) := by
  have htrampoline : machine.shared.hooks.slots slot = some ctx →
      machine.shared.trampoline slot = some ctx.patch.trampoline := by
    intro hslot
    rw [Shared.trampoline, hslot]
    rfl
  cases List.mem_append.mp hscope with
  | inl hnew =>
      cases (act_effect hact).scopes _ hnew with
      | inl hframe =>
          obtain ⟨before, pc', rfl, hcalled⟩ := hframe
          obtain ⟨hslot, hbefore⟩ := hlasting.contexts slot ctx before pc'
            (by simp [hstack])
          refine ⟨hslot, ?_⟩
          cases hcalled with
          | inl hsame => exact hsame ▸ hbefore
          | inr hread => exact Or.inr (hread.trans (htrampoline hslot))
      | inr hentered =>
          obtain ⟨-, hslot, hcalled⟩ := hentered
          exact ⟨hslot, hcalled.imp_right (·.trans (htrampoline hslot))⟩
  | inr hold =>
      exact hlasting.contexts slot ctx called pc (by simp [hstack, hold])

/-- A scope frame that is on the stack after a step was there before it, or the
step is its dispatch. -/
theorem scope_before (hstack : machine.stack .game = frame :: rest)
    (hact : act env machine.shared .game frame action = some (shared, frames))
    (hscope : .scope slot ctx called pc ∈ frames ++ rest) :
    (∃ called pc, .scope slot ctx called pc ∈ machine.stack .game) ∨
      frame = .entering slot.val := by
  cases List.mem_append.mp hscope with
  | inl hnew =>
      cases (act_effect hact).scopes _ hnew with
      | inl hframe =>
          obtain ⟨before, pc', rfl, -⟩ := hframe
          exact Or.inl ⟨before, pc', by simp [hstack]⟩
      | inr hentered => exact Or.inr hentered.1
  | inr hold => exact Or.inl ⟨called, pc, by simp [hstack, hold]⟩

theorem Lasting.slots_after (hlasting : Lasting machine)
    (hstack : machine.stack .game = frame :: rest)
    (hact : act env machine.shared .game frame action = some (shared, frames))
    (hscope : .scope slot ctx called pc ∈ frames ++ rest) :
    shared.hooks.slots slot = some ctx := by
  have hslot := (hlasting.slots_before hstack hact hscope).1
  cases (act_effect hact).slots with
  | keeps hslots => rw [hslots, hslot]
  | fills filled filler hfree hslots =>
      have hne : slot ≠ filled := by
        rintro rfl
        rw [hfree] at hslot
        contradiction
      rw [hslots, Function.update_of_ne hne, hslot]
  | removes handle hframe hslots hscopes =>
      have hold : .scope slot ctx called pc ∈ rest :=
        (List.mem_append.mp hscope).resolve_left (hscopes slot ctx called pc)
      have hne : slot.val ≠ handle := by
        rintro rfl
        exact hlasting.clear frame rest hstack slot ctx called pc
          (by simp [hstack, hold]) (targets_of_removes hframe)
      rw [hslots]
      dsimp only
      rw [if_neg hne, hslot]

theorem Lasting.clear_after (hlasting : Lasting machine)
    (hguard : KeepsContexts machine (.game, action))
    (hsingle : SingleThreaded (.game, action))
    (hstack : machine.stack .game = frame :: rest)
    (hact : act env machine.shared .game frame action = some (shared, frames))
    (hscope : .scope slot ctx called pc ∈ frames ++ rest)
    {top : Frame} {below : List Frame} (htop : frames ++ rest = top :: below) :
    ¬ Targets shared slot ctx top := by
  cases frames with
  | nil =>
      apply not_targets_of_calls
      apply hlasting.stacked .game
      rw [hstack, List.tail_cons, ← List.nil_append rest, htop]
      exact List.mem_cons_self
  | cons first others =>
      obtain ⟨rfl, -⟩ := List.cons.inj htop
      intro htargets
      have hslot := (hlasting.slots_before hstack hact hscope).1
      have hcause := targets_act hact hslot htargets
      cases scope_before hstack hact hscope with
      | inl hbefore =>
          obtain hframe | rfl | ⟨rfl, hpending, hfree, hpoisoned, hhead⟩ |
            ⟨bytes, rfl⟩ := hcause
          · obtain ⟨called', pc', hmem⟩ := hbefore
            exact hlasting.clear frame rest hstack slot ctx called' pc' hmem
              hframe
          · exact hguard (slot, ctx) (mem_inScope.mpr hbefore) rfl
          · exact hguard hpending hfree hpoisoned (slot, ctx)
              (mem_inScope.mpr hbefore) hhead
          · exact hsingle
      | inr hentering =>
          subst hentering
          obtain hframe | rfl | ⟨rfl, -⟩ | ⟨bytes, rfl⟩ := hcause
          · exact hframe
          all_goals simp [act] at hact

end GameStep

/-- The watcher's publication of a buffer changes no slot, registry or mutex. -/
theorem lasting_publish {env : Env} {machine next : Machine}
    {bytes : List UInt8} (hlasting : Lasting machine)
    (hstep : step env machine (.watcher, .publish bytes) = some next) :
    Lasting next := by
  have hstacked := stacked_step hlasting.stacked hstep
  obtain ⟨frame, rest, shared, frames, hstack, hact, rfl⟩ := step_eq_some hstep
  simp only [act] at hact
  split at hact
  · cases hact
    exact ⟨hlasting.contexts, hstacked, hlasting.clear⟩
  · contradiction

theorem lasting_step {env : Env} {machine next : Machine} {label : Label}
    (hlasting : Lasting machine) (hguard : KeepsContexts machine label)
    (hsingle : SingleThreaded label)
    (hstep : step env machine label = some next) : Lasting next := by
  obtain ⟨thread, action⟩ := label
  cases thread with
  | watcher =>
      cases action with
      | publish bytes => exact lasting_publish hlasting hstep
      | _ => exact hsingle.elim
  | game =>
      have hstacked := stacked_step hlasting.stacked hstep
      obtain ⟨frame, rest, shared, frames, hstack, hact, rfl⟩ :=
        step_eq_some hstep
      refine ⟨?_, hstacked, ?_⟩
      · intro slot ctx called pc hscope
        replace hscope : .scope slot ctx called pc ∈ frames ++ rest := by
          simpa using hscope
        exact ⟨hlasting.slots_after hstack hact hscope,
          (hlasting.slots_before hstack hact hscope).2⟩
      · intro top below htop slot ctx called pc hscope
        replace htop : frames ++ rest = top :: below := by simpa using htop
        replace hscope : .scope slot ctx called pc ∈ frames ++ rest := by
          simpa using hscope
        exact hlasting.clear_after hguard hsingle hstack hact hscope htop

/-- In every run of the game thread whose steps remove no slot and reload no
runtime that a dispatch on the stack is using, with reloads published at any
moment, no dispatch loses its context. -/
theorem contextsOutlive_of_keepsContexts (env : Env) (start : Start)
    (labels : List Label) (hsingle : ∀ label ∈ labels, SingleThreaded label)
    (hkeeps : Meets (step env) KeepsContexts (begin start) labels) :
    ContextsOutlive env start labels := by
  intro machine hvisits
  have hmeets : Meets (step env)
      (fun machine label => KeepsContexts machine label ∧ SingleThreaded label)
      (begin start) labels := by
    intro taken label rest state hsplit hrun
    refine ⟨hkeeps taken label rest state hsplit hrun, hsingle label ?_⟩
    simp [hsplit]
  have hlasting : Lasting machine :=
    hmeets.invariant (lasting_begin start)
      (fun _ _ _ hbefore hguard hstep =>
        lasting_step hbefore hguard.1 hguard.2 hstep) hvisits
  exact hlasting.contexts

/-- The handler of slot 0 removes slot 1, and after the dispatch its tail reloads
the runtime, which removes slot 0. -/
def removeOtherRun : List Label :=
  [(.game, .enter 0), (.game, .dispatch true), (.game, .callHandler true),
    (.game, .remove 1), (.game, .lock), (.game, .work), (.game, .finish),
    (.watcher, .publish []), (.game, .resume), (.game, .continue true),
    (.game, .finish), (.game, .resume), (.game, .drain), (.game, .lock),
    (.game, .work), (.game, .memory fun _ => 0), (.game, .work), (.game, .lock),
    (.game, .work)]

theorem contextsOutlive_removeOtherRun :
    ContextsOutlive OneHookPerMethod.sampleEnv sampleStart removeOtherRun ∧
      (run (step OneHookPerMethod.sampleEnv) (begin sampleStart)
        removeOtherRun).isSome = true := by
  refine ⟨contextsOutlive_of_keepsContexts _ _ _ ?_ ?_, by decide +kernel⟩
  · simp [removeOtherRun, SingleThreaded]
  · decide +kernel

/-! ## A handler that removes its own hook -/

def removeSelfRun : List Label :=
  [(.game, .enter 0), (.game, .dispatch true), (.game, .callHandler true),
    (.game, .remove 0), (.game, .lock), (.game, .work)]

/-- The slot is empty while the dispatch is still inside its scope block. -/
theorem not_contextsOutlive_removeSelfRun :
    ¬ ContextsOutlive OneHookPerMethod.sampleEnv sampleStart removeSelfRun := by
  intro houtlive
  have hend : (run (step OneHookPerMethod.sampleEnv) (begin sampleStart)
      removeSelfRun).map (fun machine =>
        (machine.shared.hooks.slots 0, inScope machine)) =
      some (none, [(0, sampleCtx 1)]) := by
    decide +kernel
  obtain ⟨machine, hrun, hstate⟩ := Option.map_eq_some_iff.mp hend
  obtain ⟨hempty, hscopes⟩ := Prod.mk.inj hstate
  have hscope : (0, sampleCtx 1) ∈ inScope machine := by simp [hscopes]
  obtain ⟨called, pc, hmem⟩ := mem_inScope.mp hscope
  have hslot := (houtlive machine (visits_end hrun) 0 (sampleCtx 1) called pc
    hmem).1
  rw [hempty] at hslot
  contradiction

end FrogAgent.ContextLifetime
