import FrogAgent.Hook.DispatchMachine
import FrogAgent.Hook.OneHookPerMethod

/-!
# Lock discipline

The header of `orchestrator.rs` fixes the lock order `INSTALL_GUARD` before
`REGISTRY`, and the comment at the tail of `dispatch_rust` calls the reload
there safe.  `call_hook_handler` keeps `REGISTRY` locked while the handler runs,
and the handler can enter another hooked method whose tail then blocks on the
lock of its own thread.  No thread locks a mutex it holds, and the two mutexes
are never waited for crosswise, exactly as long as no dispatch that is nested in
a running handler finds a reload pending at its tail.
-/

namespace FrogAgent.LockDiscipline

open FrogAgent.DispatchMachine
open FrogAgent.Run
open FrogAgent.Slots
open FrogAgent.SwapProtocol

/-- A thread is about to block on a mutex it has locked. -/
def SelfLock (machine : Machine) : Prop :=
  ∃ thread frame rest mutex, machine.stack thread = frame :: rest ∧
    frame.waitsFor = some mutex ∧ machine.shared.owner mutex = some thread

/-- One thread holds the registry and waits for the install guard, another holds
the install guard and waits for the registry. -/
def Crossed (machine : Machine) : Prop :=
  ∃ first second frame rest frame' rest',
    machine.stack first = frame :: rest ∧
    machine.stack second = frame' :: rest' ∧
    machine.shared.owner .registry = some first ∧
    frame.waitsFor = some .installGuard ∧
    machine.shared.owner .installGuard = some second ∧
    frame'.waitsFor = some .registry

/-- The contract along a run. -/
def Disciplined (env : Env) (start : Start) (labels : List Label) : Prop :=
  ∀ machine, Visits (step env) (begin start) labels machine →
    ¬ SelfLock machine ∧ ¬ Crossed machine

/-- A dispatch whose thread holds the registry lock, which is to say a dispatch
nested in a running handler, finds nothing pending at its tail. -/
def NoNestedDrain (machine : Machine) : Label → Prop
  | (thread, .drain) => ∀ rest, machine.stack thread = .tail :: rest →
      machine.shared.owner .registry = some thread →
        machine.shared.reloadPending = none
  | _ => True

/-! ## Which frame holds which mutex -/

theorem held_cons (mutex : Mutex) (frame : Frame) (rest : List Frame) :
    held mutex (frame :: rest) = held mutex [frame] + held mutex rest := by
  rw [← List.singleton_append, held, List.countP_append]
  rfl

theorem held_append (mutex : Mutex) (frames rest : List Frame) :
    held mutex (frames ++ rest) = held mutex frames + held mutex rest :=
  List.countP_append

def owns (shared : Shared) (mutex : Mutex) (thread : ThreadId) : ℕ :=
  if shared.owner mutex = some thread then 1 else 0

/-- Each mutex is locked by one frame of its owner and by no other frame. -/
def Owned (machine : Machine) : Prop :=
  ∀ thread mutex,
    held mutex (machine.stack thread) = owns machine.shared mutex thread

/-- A step changes the owner of a mutex as it changes the frames that hold it,
and only for its own thread. -/
theorem owns_balance {shared shared' : Shared} {thread : ThreadId}
    {frame : Frame} {frames : List Frame}
    (heffect : OwnerEffect shared thread frame shared' frames) {mutex : Mutex}
    (howned : held mutex [frame] ≤ owns shared mutex thread) :
    held mutex frames + owns shared mutex thread =
        held mutex [frame] + owns shared' mutex thread ∧
      ∀ other, other ≠ thread →
        owns shared' mutex other = owns shared mutex other := by
  cases heffect with
  | keeps howner hheld => simp [owns, howner, hheld]
  | acquires locked hfree howner hheld =>
      by_cases hmutex : mutex = locked
      · subst hmutex
        refine ⟨by simp [owns, howner, hheld, hfree], ?_⟩
        intro other hother
        simp [owns, howner, hfree, Ne.symm hother]
      · simp [owns, howner, hheld, hmutex]
  | releases unlocked howner hheld =>
      have hsame := hheld mutex
      by_cases hmutex : mutex = unlocked
      · subst hmutex
        rw [if_pos rfl] at hsame
        have hthread : shared.owner mutex = some thread := by
          by_contra hnot
          rw [owns, if_neg hnot] at howned
          omega
        refine ⟨by simp [owns, howner, hthread, hsame], ?_⟩
        intro other hother
        simp [owns, howner, hthread, Ne.symm hother]
      · rw [if_neg hmutex] at hsame
        simp [owns, howner, hmutex, hsame]

theorem owned_step {env : Env} {machine next : Machine} {label : Label}
    (howned : Owned machine) (hstep : step env machine label = some next) :
    Owned next := by
  obtain ⟨frame, rest, shared, frames, hstack, hact, rfl⟩ := step_eq_some hstep
  obtain ⟨thread, action⟩ := label
  intro other mutex
  have htop := howned thread mutex
  rw [hstack, held_cons] at htop
  obtain ⟨hbalance, hothers⟩ := owns_balance (act_effect hact).owner
    (le_of_le_of_eq (Nat.le_add_right _ _) htop)
  simp only [Function.update_apply]
  split
  · rename_i hsame
    subst hsame
    dsimp only at hbalance
    rw [held_append]
    omega
  · rename_i hother
    rw [hothers other hother]
    exact howned other mutex

/-! ## The shape of the stacks -/

/-- Below a reload frame, or the watcher's loop, nothing holds the registry. -/
def Nested : List Frame → Prop
  | [] => True
  | frame :: rest =>
      (frame.reloads = true → held .registry rest = 0) ∧ Nested rest

theorem nested_act {env : Env} {shared shared' : Shared} {thread : ThreadId}
    {frame : Frame} {action : Action} {frames rest : List Frame}
    (hnested : Nested (frame :: rest))
    (hact : act env shared thread frame action = some (shared', frames))
    (hdrain : frame = .tail → shared.reloadPending ≠ none →
      held .registry rest = 0) : Nested (frames ++ rest) := by
  have heffect := act_effect hact
  have hclear : ∀ other ∈ frames, other.reloads = true →
      held .registry rest = 0 := by
    intro other hother hreloads
    cases heffect.reloads other hother hreloads with
    | inl hframe => exact hnested.1 hframe
    | inr htail => exact hdrain htail.1 htail.2
  cases heffect.calling with
  | inl hshort =>
      cases frames with
      | nil => exact hnested.2
      | cons top frames =>
          have hnil : frames = [] := by simpa using hshort
          subst hnil
          exact ⟨hclear top (List.mem_singleton_self top), hnested.2⟩
  | inr hpair =>
      obtain ⟨top, caller, rfl, -, hregistry⟩ := hpair
      refine ⟨?_, hclear caller (by simp), hnested.2⟩
      intro hreloads
      have hcaller : held .registry [caller] = 0 := by
        cases hholds : caller.holds .registry with
        | false => simp [held, hholds]
        | true =>
            rw [hregistry hholds] at hreloads
            contradiction
      change held .registry (caller :: rest) = 0
      rw [held_cons, hcaller, hclear top (by simp) hreloads]

/-! ## The invariant of the runs without a nested drain -/

structure Ordered (machine : Machine) : Prop where
  owned : Owned machine
  stacked : Stacked machine
  nested : ∀ thread, Nested (machine.stack thread)

theorem ordered_begin (start : Start) : Ordered (begin start) where
  owned := by
    intro thread mutex
    cases thread <;> simp [begin, owns, start.owner, held, Frame.holds]
  stacked := stacked_begin start
  nested := by
    intro thread
    cases thread <;> simp [begin, Nested, held]

theorem ordered_step {env : Env} {machine next : Machine} {label : Label}
    (hordered : Ordered machine) (hguard : NoNestedDrain machine label)
    (hstep : step env machine label = some next) : Ordered next where
  owned := owned_step hordered.owned hstep
  stacked := stacked_step hordered.stacked hstep
  nested := by
    obtain ⟨frame, rest, shared, frames, hstack, hact, rfl⟩ := step_eq_some hstep
    obtain ⟨thread, action⟩ := label
    intro other
    simp only [Function.update_apply]
    split
    · have hnested := hordered.nested thread
      rw [hstack] at hnested
      apply nested_act hnested hact
      intro htail hpending
      subst htail
      have hdrain : action = .drain := by
        cases action <;> simp [act, Frame.waitsFor, work] at hact
        rfl
      subst hdrain
      have hheld := hordered.owned thread .registry
      rw [hstack, held_cons] at hheld
      by_cases howner : machine.shared.owner .registry = some thread
      · exact absurd (hguard rest hstack howner) hpending
      · rw [owns, if_neg howner] at hheld
        omega
    · exact hordered.nested other

/-! ## Waiting frames hold nothing they wait for -/

theorem reloads_of_waitsFor_registry {frame : Frame}
    (hwaits : frame.waitsFor = some .registry) :
    frame.reloads = true ∧ held .registry [frame] = 0 := by
  unfold Frame.waitsFor at hwaits
  split at hwaits <;> simp_all [Frame.reloads, held, Frame.holds]

theorem held_of_waitsFor_installGuard {frame : Frame}
    (hwaits : frame.waitsFor = some .installGuard) :
    held .installGuard [frame] = 0 := by
  unfold Frame.waitsFor at hwaits
  split at hwaits <;> simp_all [held, Frame.holds]

theorem holds_installGuard_of_calls {frame : Frame}
    (hcalls : frame.calls = true) : frame.holds .installGuard = false := by
  unfold Frame.calls at hcalls
  split at hcalls <;> simp_all [Frame.holds]

theorem waitsFor_of_holds_installGuard {frame : Frame}
    (hholds : frame.holds .installGuard = true) : frame.waitsFor = none := by
  unfold Frame.holds at hholds
  split at hholds <;> simp_all [Frame.waitsFor]

/-- Only the top frame of a stack can hold the install guard. -/
theorem Ordered.held_installGuard {machine : Machine}
    (hordered : Ordered machine) {thread : ThreadId} {frame : Frame}
    {rest : List Frame} (hstack : machine.stack thread = frame :: rest) :
    held .installGuard rest = 0 := by
  rw [held, List.countP_eq_zero]
  intro caller hcaller
  have hcalls := hordered.stacked thread caller (by simpa [hstack] using hcaller)
  simp [holds_installGuard_of_calls hcalls]

theorem Ordered.not_selfLock {machine : Machine} (hordered : Ordered machine) :
    ¬ SelfLock machine := by
  rintro ⟨thread, frame, rest, mutex, hstack, hwaits, howner⟩
  have hheld := hordered.owned thread mutex
  rw [hstack, held_cons, owns, if_pos howner] at hheld
  cases mutex with
  | registry =>
      obtain ⟨hreloads, hframe⟩ := reloads_of_waitsFor_registry hwaits
      have hnested := hordered.nested thread
      rw [hstack] at hnested
      have hrest := hnested.1 hreloads
      omega
  | installGuard =>
      have hframe := held_of_waitsFor_installGuard hwaits
      have hrest := hordered.held_installGuard hstack
      omega

theorem Ordered.not_crossed {machine : Machine} (hordered : Ordered machine) :
    ¬ Crossed machine := by
  rintro ⟨first, second, frame, rest, frame', rest', -, hstack, -, -, howner,
    hwaits⟩
  have hheld := hordered.owned second .installGuard
  rw [hstack, held_cons, owns, if_pos howner,
    hordered.held_installGuard hstack] at hheld
  have hholds : frame'.holds .installGuard = true := by
    by_contra hnot
    simp [held, hnot] at hheld
  rw [waitsFor_of_holds_installGuard hholds] at hwaits
  contradiction

/-- The lock discipline holds along a run exactly when no dispatch that is
nested in a running handler drains a reload. -/
theorem disciplined_iff_noNestedDrain (env : Env) (start : Start)
    (labels : List Label) :
    Disciplined env start labels ↔
      Meets (step env) NoNestedDrain (begin start) labels := by
  constructor
  · intro hdisciplined taken label rest machine hsplit hrun
    obtain ⟨thread, action⟩ := label
    cases action with
    | drain =>
        intro below hstack howner
        cases hpending : machine.shared.reloadPending with
        | none => rfl
        | some bytes =>
            have hstep : step env machine (thread, .drain) = some
                ⟨{ machine.shared with reloadPending := none },
                  Function.update machine.stack thread
                    ([.reload (.lock bytes), .draining] ++ below)⟩ := by
              simp [step, hstack, act, hpending]
            rw [hsplit] at hdisciplined
            -- The nested reload now waits for the lock its own thread holds.
            exact absurd ⟨thread, .reload (.lock bytes), .draining :: below,
              .registry, by simp, rfl, howner⟩
              (hdisciplined _ (visits_step hrun hstep)).1
    | _ => trivial
  · intro hmeets machine hvisits
    have hordered : Ordered machine :=
      hmeets.invariant (ordered_begin start)
        (fun _ _ _ hbefore hguard hstep => ordered_step hbefore hguard hstep)
        hvisits
    exact ⟨hordered.not_selfLock, hordered.not_crossed⟩

/-! ## A handler whose original enters another hooked method -/

/-- The handler of slot 0 calls the original, which enters slot 1; the registry
is contended there, the observer runs, and a reload is published before the
tail. -/
def nestedDrainRun : List Label :=
  [(.game, .enter 0), (.game, .dispatch true), (.game, .callHandler true),
    (.game, .call), (.game, .enter 1), (.game, .dispatch true),
    (.game, .callHandler true), (.game, .continue true), (.game, .finish),
    (.game, .resume), (.watcher, .publish [1]), (.game, .drain)]

/-- The tail of slot 1 waits for the registry lock that the dispatch of slot 0
holds. -/
theorem not_disciplined_nestedDrainRun :
    ¬ Disciplined OneHookPerMethod.sampleEnv sampleStart nestedDrainRun := by
  intro hdisciplined
  have hwaits : (run (step OneHookPerMethod.sampleEnv) (begin sampleStart)
      nestedDrainRun).map (fun machine =>
        ((machine.stack .game).head?.bind Frame.waitsFor,
          machine.shared.owner .registry)) =
      some (some .registry, some .game) := by
    decide +kernel
  obtain ⟨machine, hrun, hstate⟩ := Option.map_eq_some_iff.mp hwaits
  simp only [Prod.mk.injEq, Option.bind_eq_some_iff,
    List.head?_eq_some_iff] at hstate
  obtain ⟨⟨frame, ⟨rest, hstack⟩, hframe⟩, howner⟩ := hstate
  exact (hdisciplined machine (visits_end hrun)).1
    ⟨.game, frame, rest, .registry, hstack, hframe, howner⟩

end FrogAgent.LockDiscipline
