import FrogAgent.Lib.Run

/-!
# The reload hand-off

The watcher thread publishes a buffer in `RELOAD_PENDING` and polls until the
tail of a hook dispatch on the game thread has drained it; after the deadline it
takes the buffer itself and reloads.  `watcher.rs` calls the take race-safe with
a late drain, but a failed take falls back to the watcher's private copy of the
bytes.  Each access to `RELOAD_PENDING` is one atomic step here.  A buffer is
passed to exactly one `registry_reload` precisely when no dispatch drains it
after the last poll.
-/

namespace FrogAgent.Handoff

open FrogAgent.Run

/-- A published buffer and its position among all publications. -/
structure Buffer where
  index : ℕ
  bytes : List UInt8
  deriving DecidableEq

/-- The watcher thread: between publications, inside
`wait_for_consume_or_fallback`, or about to call `registry_reload`. -/
inductive Watcher where
  | idle
  | waiting (buffer : Buffer) (bytesRef : Option (List UInt8))
      (elapsedMs deadlineMs : ℕ)
  | reloading (buffer : Buffer)
  deriving DecidableEq

/-- `game` is the buffer the dispatch tail has drained and not yet passed on;
`reloads` are the arguments of the `registry_reload` calls so far. -/
structure State where
  reloadPending : Option Buffer
  watcher : Watcher
  game : Option Buffer
  published : List (List UInt8)
  reloads : List Buffer
  deriving DecidableEq

def initial : State := ⟨none, .idle, none, [], []⟩

inductive Label where
  | publishReload (bytes : List UInt8) (deadlineMs : ℕ)
  | publishUnload (deadlineMs : ℕ)
  | poll
  | fallbackTake
  | watcherReload
  | dispatchTail
  | gameReload

def isReloadPending (state : State) : Bool := state.reloadPending.isSome

def takeReloadPending (state : State) : Option Buffer × State :=
  (state.reloadPending, { state with reloadPending := none })

/-- Publish a buffer and enter the wait with the private copy `bytesRef`. -/
def publish (state : State) (bytes : List UInt8)
    (bytesRef : Option (List UInt8)) (deadlineMs : ℕ) : State :=
  let buffer := ⟨state.published.length, bytes⟩
  { state with
    reloadPending := some buffer
    watcher := .waiting buffer bytesRef 0 deadlineMs
    published := state.published ++ [bytes] }

def step (state : State) : Label → Option State
  | .publishReload bytes deadlineMs =>
      match state.watcher with
      | .idle => some (publish state bytes (some bytes) deadlineMs)
      | _ => none
  | .publishUnload deadlineMs =>
      match state.watcher with
      | .idle => some (publish state [] none deadlineMs)
      | _ => none
  | .poll =>
      match state.watcher with
      | .waiting buffer bytesRef elapsedMs deadlineMs =>
          if elapsedMs < deadlineMs then
            if isReloadPending state then
              some { state with
                watcher := .waiting buffer bytesRef (elapsedMs + 50) deadlineMs }
            else some { state with watcher := .idle }
          else none
      | _ => none
  | .fallbackTake =>
      match state.watcher with
      | .waiting buffer bytesRef elapsedMs deadlineMs =>
          if elapsedMs < deadlineMs then none
          else
            let (taken, drained) := takeReloadPending state
            some { drained with
              watcher := .reloading
                (taken.getD ⟨buffer.index, bytesRef.getD []⟩) }
      | _ => none
  | .watcherReload =>
      match state.watcher with
      | .reloading buffer =>
          some { state with
            watcher := .idle, reloads := state.reloads ++ [buffer] }
      | _ => none
  | .dispatchTail =>
      match state.game with
      | none =>
          let (taken, drained) := takeReloadPending state
          some { drained with game := taken }
      | some _ => none
  | .gameReload =>
      match state.game with
      | some buffer =>
          some { state with
            game := none, reloads := state.reloads ++ [buffer] }
      | none => none

/-! ## The contract -/

def Quiescent (state : State) : Prop :=
  state.watcher = .idle ∧ state.game = none

/-- How often publication `index` was passed to `registry_reload`. -/
def passes (state : State) (index : ℕ) : ℕ :=
  state.reloads.countP fun buffer => buffer.index = index

/-- The two threads can finish what they are doing without a new dispatch. -/
def CanFinish (state : State) : Prop :=
  ∃ labels final, Label.dispatchTail ∉ labels ∧
    run step state labels = some final ∧ Quiescent final

/-- Along a run: calls pass published bytes, no publication is passed twice, and
once the threads have finished, as they can from every state, each was passed. -/
def ExactlyOnce (labels : List Label) : Prop :=
  ∀ state, Visits step initial labels state →
    (∀ buffer ∈ state.reloads,
      state.published[buffer.index]? = some buffer.bytes) ∧
    (∀ index < state.published.length, passes state index ≤ 1) ∧
    (Quiescent state →
      ∀ index < state.published.length, passes state index = 1) ∧
    CanFinish state

/-- The watcher has polled for the last time and not yet taken the buffer. -/
def PastLastPoll : Watcher → Prop
  | .waiting _ _ elapsedMs deadlineMs => deadlineMs ≤ elapsedMs
  | _ => False

/-- No dispatch tail drains the buffer between the last poll and the take. -/
def NoLateDrain (state : State) : Label → Prop
  | .dispatchTail => PastLastPoll state.watcher → state.reloadPending = none
  | _ => True

/-- A run at whose end both threads have finished. -/
def Complete (labels : List Label) : Prop :=
  ∃ final, run step initial labels = some final ∧ Quiescent final

/-! ## What one step can do -/

inductive StepOutcome (state : State) : Label → State → Prop where
  | published (label : Label) (bytes : List UInt8)
      (bytesRef : Option (List UInt8)) (deadlineMs : ℕ)
      (hlabel : label ≠ .dispatchTail) (hidle : state.watcher = .idle)
      (hcopy : bytesRef.getD [] = bytes) :
      StepOutcome state label (publish state bytes bytesRef deadlineMs)
  | polled (buffer : Buffer) (bytesRef : Option (List UInt8))
      (elapsedMs deadlineMs : ℕ)
      (hwaiting : state.watcher = .waiting buffer bytesRef elapsedMs deadlineMs)
      (hpending : state.reloadPending ≠ none) :
      StepOutcome state .poll
        { state with
          watcher := .waiting buffer bytesRef (elapsedMs + 50) deadlineMs }
  | consumed (buffer : Buffer) (bytesRef : Option (List UInt8))
      (elapsedMs deadlineMs : ℕ)
      (hwaiting : state.watcher = .waiting buffer bytesRef elapsedMs deadlineMs)
      (hbefore : elapsedMs < deadlineMs) (hpending : state.reloadPending = none) :
      StepOutcome state .poll { state with watcher := .idle }
  | took (buffer : Buffer) (bytesRef : Option (List UInt8))
      (elapsedMs deadlineMs : ℕ)
      (hwaiting : state.watcher = .waiting buffer bytesRef elapsedMs deadlineMs)
      (hpast : deadlineMs ≤ elapsedMs) :
      StepOutcome state .fallbackTake
        { state with
          reloadPending := none
          watcher := .reloading
            (state.reloadPending.getD ⟨buffer.index, bytesRef.getD []⟩) }
  | watcherReloaded (buffer : Buffer)
      (hreloading : state.watcher = .reloading buffer) :
      StepOutcome state .watcherReload
        { state with watcher := .idle, reloads := state.reloads ++ [buffer] }
  | drained (hgame : state.game = none) :
      StepOutcome state .dispatchTail
        { state with reloadPending := none, game := state.reloadPending }
  | gameReloaded (buffer : Buffer) (hgame : state.game = some buffer) :
      StepOutcome state .gameReload
        { state with game := none, reloads := state.reloads ++ [buffer] }

theorem step_outcome {state next : State} {label : Label}
    (hstep : step state label = some next) : StepOutcome state label next := by
  cases label with
  | publishReload bytes deadlineMs =>
      cases hwatcher : state.watcher <;> simp only [step, hwatcher] at hstep
      case idle =>
        cases hstep
        exact .published _ bytes (some bytes) deadlineMs (by simp) hwatcher rfl
      all_goals contradiction
  | publishUnload deadlineMs =>
      cases hwatcher : state.watcher <;> simp only [step, hwatcher] at hstep
      case idle =>
        cases hstep
        exact .published _ [] none deadlineMs (by simp) hwatcher rfl
      all_goals contradiction
  | poll =>
      cases hwatcher : state.watcher <;> simp only [step, hwatcher] at hstep
      case waiting buffer bytesRef elapsedMs deadlineMs =>
        split at hstep
        · rename_i hbefore
          split at hstep
          · rename_i hpending
            cases hstep
            refine .polled buffer bytesRef elapsedMs deadlineMs hwatcher ?_
            exact Option.isSome_iff_ne_none.mp hpending
          · rename_i hpending
            cases hstep
            refine .consumed buffer bytesRef elapsedMs deadlineMs hwatcher
              hbefore ?_
            simpa [isReloadPending] using hpending
        · contradiction
      all_goals contradiction
  | fallbackTake =>
      cases hwatcher : state.watcher <;> simp only [step, hwatcher] at hstep
      case waiting buffer bytesRef elapsedMs deadlineMs =>
        split at hstep
        · contradiction
        · rename_i hpast
          cases hstep
          exact .took buffer bytesRef elapsedMs deadlineMs hwatcher
            (Nat.le_of_not_lt hpast)
      all_goals contradiction
  | watcherReload =>
      cases hwatcher : state.watcher <;> simp only [step, hwatcher] at hstep
      case reloading buffer =>
        cases hstep
        exact .watcherReloaded buffer hwatcher
      all_goals contradiction
  | dispatchTail =>
      cases hgame : state.game <;> simp only [step, hgame] at hstep
      case none =>
        cases hstep
        exact .drained hgame
      case some => contradiction
  | gameReload =>
      cases hgame : state.game <;> simp only [step, hgame] at hstep
      case none => contradiction
      case some buffer =>
        cases hstep
        exact .gameReloaded buffer hgame

/-! ## Every buffer in flight was published -/

def Known (published : List (List UInt8)) (buffer : Buffer) : Prop :=
  published[buffer.index]? = some buffer.bytes

structure Coherent (state : State) : Prop where
  pending : ∀ buffer, state.reloadPending = some buffer →
    ∃ bytesRef elapsedMs deadlineMs,
      state.watcher = .waiting buffer bytesRef elapsedMs deadlineMs
  waiting : ∀ buffer bytesRef elapsedMs deadlineMs,
    state.watcher = .waiting buffer bytesRef elapsedMs deadlineMs →
      bytesRef.getD [] = buffer.bytes ∧ Known state.published buffer
  reloading : ∀ buffer, state.watcher = .reloading buffer →
    Known state.published buffer
  game : ∀ buffer, state.game = some buffer → Known state.published buffer
  reloads : ∀ buffer ∈ state.reloads, Known state.published buffer

theorem coherent_initial : Coherent initial := by
  constructor <;> simp [initial]

theorem Known.concat {published : List (List UInt8)} {buffer : Buffer}
    (hknown : Known published buffer) (bytes : List UInt8) :
    Known (published ++ [bytes]) buffer := by
  have hlt : buffer.index < published.length := by
    apply (List.getElem?_eq_some_iff.mp hknown).1
  rw [Known, List.getElem?_append_left hlt]
  exact hknown

theorem Known.lt {published : List (List UInt8)} {buffer : Buffer}
    (hknown : Known published buffer) : buffer.index < published.length :=
  (List.getElem?_eq_some_iff.mp hknown).1

theorem Coherent.pending_eq {state : State} (hcoherent : Coherent state)
    {buffer : Buffer} {bytesRef : Option (List UInt8)}
    {elapsedMs deadlineMs : ℕ}
    (hwaiting : state.watcher = .waiting buffer bytesRef elapsedMs deadlineMs) :
    state.reloadPending = none ∨ state.reloadPending = some buffer := by
  cases hpending : state.reloadPending with
  | none => exact Or.inl rfl
  | some other =>
      obtain ⟨ref, elapsed, deadline, hother⟩ := hcoherent.pending other hpending
      rw [hwaiting, Watcher.waiting.injEq] at hother
      exact Or.inr (congrArg some hother.1.symm)

theorem Coherent.pending_none {state : State} (hcoherent : Coherent state)
    (hwatcher : ∀ buffer bytesRef elapsedMs deadlineMs,
      state.watcher ≠ .waiting buffer bytesRef elapsedMs deadlineMs) :
    state.reloadPending = none := by
  cases hpending : state.reloadPending with
  | none => rfl
  | some buffer =>
      obtain ⟨ref, elapsed, deadline, hwaiting⟩ :=
        hcoherent.pending buffer hpending
      exact absurd hwaiting (hwatcher buffer ref elapsed deadline)

/-- The buffer the watcher reloads after its take is the one it published,
whether it was still pending or not. -/
theorem Coherent.taken_eq {state : State} (hcoherent : Coherent state)
    {buffer : Buffer} {bytesRef : Option (List UInt8)}
    {elapsedMs deadlineMs : ℕ}
    (hwaiting : state.watcher = .waiting buffer bytesRef elapsedMs deadlineMs) :
    state.reloadPending.getD ⟨buffer.index, bytesRef.getD []⟩ = buffer := by
  have hcopy := (hcoherent.waiting _ _ _ _ hwaiting).1
  cases hcoherent.pending_eq hwaiting with
  | inl hnone => rw [hnone, Option.getD_none, hcopy]
  | inr hsome => rw [hsome, Option.getD_some]

theorem coherent_step {state next : State} {label : Label}
    (hcoherent : Coherent state) (hstep : step state label = some next) :
    Coherent next := by
  cases step_outcome hstep with
  | published _ bytes bytesRef deadlineMs hlabel hidle hcopy =>
      have hnew : Known (state.published ++ [bytes])
          ⟨state.published.length, bytes⟩ := by
        simp [Known]
      refine ⟨?_, ?_, ?_, ?_, ?_⟩
      · intro buffer hpending
        cases hpending
        exact ⟨bytesRef, 0, deadlineMs, rfl⟩
      · intro buffer ref elapsedMs deadline hwaiting
        cases hwaiting
        exact ⟨hcopy, hnew⟩
      · intro buffer hreloading
        contradiction
      · intro buffer hgame
        exact (hcoherent.game buffer hgame).concat bytes
      · intro buffer hmem
        exact (hcoherent.reloads buffer hmem).concat bytes
  | polled buffer bytesRef elapsedMs deadlineMs hwaiting hpending =>
      refine ⟨?_, ?_, ?_, hcoherent.game, hcoherent.reloads⟩
      · intro other hother
        have hsame := (hcoherent.pending_eq hwaiting).resolve_left hpending
        rw [hsame] at hother
        cases hother
        exact ⟨bytesRef, elapsedMs + 50, deadlineMs, rfl⟩
      · intro other ref elapsed deadline hother
        cases hother
        exact hcoherent.waiting _ _ _ _ hwaiting
      · intro other hother
        contradiction
  | consumed buffer bytesRef elapsedMs deadlineMs hwaiting hbefore hpending =>
      refine ⟨?_, ?_, ?_, hcoherent.game, hcoherent.reloads⟩
      · intro other hother
        rw [hpending] at hother
        contradiction
      · intro other ref elapsed deadline hother
        contradiction
      · intro other hother
        contradiction
  | took buffer bytesRef elapsedMs deadlineMs hwaiting hpast =>
      refine ⟨?_, ?_, ?_, hcoherent.game, hcoherent.reloads⟩
      · intro other hother
        contradiction
      · intro other ref elapsed deadline hother
        contradiction
      · intro other hother
        rw [hcoherent.taken_eq hwaiting] at hother
        cases hother
        exact (hcoherent.waiting _ _ _ _ hwaiting).2
  | watcherReloaded buffer hreloading =>
      refine ⟨?_, ?_, ?_, hcoherent.game, ?_⟩
      · intro other hother
        have hnone := hcoherent.pending_none (by simp [hreloading])
        rw [hnone] at hother
        contradiction
      · intro other ref elapsed deadline hother
        contradiction
      · intro other hother
        contradiction
      · intro other hother
        cases List.mem_append.mp hother with
        | inl hold => exact hcoherent.reloads other hold
        | inr hnew =>
            rw [List.mem_singleton] at hnew
            exact hnew ▸ hcoherent.reloading buffer hreloading
  | drained hgame =>
      refine ⟨?_, hcoherent.waiting, hcoherent.reloading, ?_, hcoherent.reloads⟩
      · intro other hother
        contradiction
      · intro other hother
        obtain ⟨ref, elapsed, deadline, hwaiting⟩ :=
          hcoherent.pending other hother
        exact (hcoherent.waiting _ _ _ _ hwaiting).2
  | gameReloaded buffer hgame =>
      refine ⟨hcoherent.pending, hcoherent.waiting, hcoherent.reloading, ?_, ?_⟩
      · intro other hother
        contradiction
      · intro other hother
        cases List.mem_append.mp hother with
        | inl hold => exact hcoherent.reloads other hold
        | inr hnew =>
            rw [List.mem_singleton] at hnew
            exact hnew ▸ hcoherent.game buffer hgame

/-! ## Calls made plus calls owed -/

def mark (buffer : Buffer) (index : ℕ) : ℕ :=
  if buffer.index = index then 1 else 0

def markOption (buffer : Option Buffer) (index : ℕ) : ℕ :=
  buffer.elim 0 fun buffer => mark buffer index

/-- The call the watcher owes on its own account: the buffer it has taken, or
its private copy once nothing is left to take after the last poll. -/
def watcherOwes (state : State) (index : ℕ) : ℕ :=
  match state.watcher with
  | .idle => 0
  | .waiting buffer _ elapsedMs deadlineMs =>
      if deadlineMs ≤ elapsedMs ∧ state.reloadPending = none then
        mark buffer index
      else 0
  | .reloading buffer => mark buffer index

def account (state : State) (index : ℕ) : ℕ :=
  passes state index + markOption state.reloadPending index +
    markOption state.game index + watcherOwes state index

theorem passes_concat (reloads : List Buffer) (buffer : Buffer) (index : ℕ) :
    (reloads ++ [buffer]).countP (fun other => other.index = index) =
      reloads.countP (fun other => other.index = index) + mark buffer index := by
  rw [List.countP_append, mark]
  by_cases hindex : buffer.index = index <;> simp [hindex]

/-- The drain of `index` by a dispatch tail after the last poll. -/
def lateDrain (state : State) (label : Label) (index : ℕ) : Prop :=
  label = .dispatchTail ∧ PastLastPoll state.watcher ∧
    ∃ buffer, state.reloadPending = some buffer ∧ buffer.index = index

/-- A late drain adds a call; every other step moves one at most. -/
theorem account_step {state next : State} {label : Label}
    (hcoherent : Coherent state) (hstep : step state label = some next)
    {index : ℕ} (hindex : index < state.published.length) :
    (¬ lateDrain state label index → account next index = account state index) ∧
      (lateDrain state label index →
        account next index = account state index + 1) := by
  cases step_outcome hstep with
  | published _ bytes bytesRef deadlineMs hlabel hidle hcopy =>
      have hnone := hcoherent.pending_none (by simp [hidle])
      have hother : mark ⟨state.published.length, bytes⟩ index = 0 := by
        rw [mark, if_neg (Nat.ne_of_gt hindex)]
      refine ⟨fun _ => ?_, fun hlate => absurd hlate.1 hlabel⟩
      simp [account, passes, publish, watcherOwes, hidle, hnone, markOption,
        hother]
  | polled buffer bytesRef elapsedMs deadlineMs hwaiting hpending =>
      refine ⟨fun _ => ?_, fun hlate => absurd hlate.1 (by simp)⟩
      simp [account, passes, watcherOwes, hwaiting, hpending]
  | consumed buffer bytesRef elapsedMs deadlineMs hwaiting hbefore hpending =>
      refine ⟨fun _ => ?_, fun hlate => absurd hlate.1 (by simp)⟩
      simp [account, passes, watcherOwes, hwaiting, Nat.not_le.mpr hbefore]
  | took buffer bytesRef elapsedMs deadlineMs hwaiting hpast =>
      refine ⟨fun _ => ?_, fun hlate => absurd hlate.1 (by simp)⟩
      have htaken := hcoherent.taken_eq hwaiting
      simp only [account, passes, watcherOwes, htaken, hwaiting, hpast,
        true_and]
      cases hcoherent.pending_eq hwaiting with
      | inl hnone => simp [hnone]
      | inr hsome =>
          simp only [hsome, markOption, Option.elim_some, Option.elim_none,
            reduceCtorEq, if_false]
          omega
  | watcherReloaded buffer hreloading =>
      refine ⟨fun _ => ?_, fun hlate => absurd hlate.1 (by simp)⟩
      simp only [account, passes, watcherOwes, passes_concat, hreloading]
      omega
  | drained hgame =>
      have hbase : account state index = passes state index +
          markOption state.reloadPending index + watcherOwes state index := by
        simp [account, hgame, markOption]
      have hmoved : account
          { state with reloadPending := none, game := state.reloadPending }
            index = passes state index + markOption state.reloadPending index +
              watcherOwes { state with
                reloadPending := none, game := state.reloadPending } index := by
        simp [account, passes, markOption]
      rw [hbase, hmoved]
      constructor
      · intro hlate
        congr 1
        cases hwatcher : state.watcher with
        | idle => simp [watcherOwes, hwatcher]
        | reloading buffer => simp [watcherOwes, hwatcher]
        | waiting buffer bytesRef elapsedMs deadlineMs =>
            cases hcoherent.pending_eq hwatcher with
            | inl hnone => simp [watcherOwes, hwatcher, hnone]
            | inr hsome =>
                simp only [watcherOwes, hwatcher, hsome, and_true,
                  reduceCtorEq, and_false, if_false]
                split
                · rename_i hpast
                  rw [mark, if_neg]
                  intro hsame
                  exact hlate ⟨rfl, by rw [hwatcher]; exact hpast, buffer, hsome,
                    hsame⟩
                · rfl
      · rintro ⟨-, hpast, buffer, hpending, hsame⟩
        obtain ⟨ref, elapsed, deadline, hwaiting⟩ :=
          hcoherent.pending buffer hpending
        rw [hwaiting] at hpast
        have hdeadline : deadline ≤ elapsed := hpast
        simp [watcherOwes, hwaiting, hpending, hdeadline, mark, hsame]
  | gameReloaded buffer hgame =>
      refine ⟨fun _ => ?_, fun hlate => absurd hlate.1 (by simp)⟩
      simp only [account, passes, watcherOwes, passes_concat, hgame, markOption,
        Option.elim_some, Option.elim_none]
      omega

theorem passes_eq_zero {state : State} (hcoherent : Coherent state) :
    passes state state.published.length = 0 := by
  rw [passes, List.countP_eq_zero]
  intro buffer hmem
  have hlt := (hcoherent.reloads buffer hmem).lt
  simpa using Nat.ne_of_lt hlt

/-- A step publishes nothing, or it publishes one buffer with one call owed. -/
theorem published_step {state next : State} {label : Label}
    (hcoherent : Coherent state) (hstep : step state label = some next) :
    next.published = state.published ∨
      ∃ bytes, next.published = state.published ++ [bytes] ∧
        account next state.published.length = 1 := by
  cases step_outcome hstep with
  | published _ bytes bytesRef deadlineMs hlabel hidle hcopy =>
      refine Or.inr ⟨bytes, rfl, ?_⟩
      have hpasses := passes_eq_zero hcoherent
      have hgame : markOption state.game state.published.length = 0 := by
        cases hgame : state.game with
        | none => rfl
        | some buffer =>
            have hlt := (hcoherent.game buffer hgame).lt
            rw [markOption, Option.elim_some, mark, if_neg (Nat.ne_of_lt hlt)]
      have hpending : markOption
          (some ⟨state.published.length, bytes⟩) state.published.length = 1 := by
        simp [markOption, mark]
      simp only [passes] at hpasses
      simp [account, passes, publish, hpasses, hgame, hpending, watcherOwes]
  | polled => exact Or.inl rfl
  | consumed => exact Or.inl rfl
  | took => exact Or.inl rfl
  | watcherReloaded => exact Or.inl rfl
  | drained => exact Or.inl rfl
  | gameReloaded => exact Or.inl rfl

/-- The invariant of the runs without a late drain. -/
def Balanced (state : State) : Prop :=
  Coherent state ∧ ∀ index < state.published.length, account state index = 1

theorem balanced_initial : Balanced initial :=
  ⟨coherent_initial, by simp [initial]⟩

theorem balanced_step (state : State) (label : Label) (next : State)
    (hbalanced : Balanced state) (hguard : NoLateDrain state label)
    (hstep : step state label = some next) : Balanced next := by
  obtain ⟨hcoherent, haccount⟩ := hbalanced
  have hkeeps : ∀ index < state.published.length, account next index = 1 := by
    intro index hindex
    rw [(account_step hcoherent hstep hindex).1 ?_, haccount index hindex]
    rintro ⟨rfl, hpast, buffer, hpending, -⟩
    have hnone := hguard hpast
    rw [hpending] at hnone
    contradiction
  refine ⟨coherent_step hcoherent hstep, ?_⟩
  intro index hindex
  cases published_step hcoherent hstep with
  | inl hsame =>
      rw [hsame] at hindex
      exact hkeeps index hindex
  | inr hnew =>
      obtain ⟨bytes, hpublished, hone⟩ := hnew
      rw [hpublished, List.length_append, List.length_singleton] at hindex
      by_cases hlast : index = state.published.length
      · rw [hlast]
        exact hone
      · exact hkeeps index (by omega)

/-- Calls made plus calls owed never decrease. -/
theorem account_le_run {state final : State} {labels : List Label}
    (hcoherent : Coherent state) (hrun : run step state labels = some final)
    {index : ℕ} (hindex : index < state.published.length) :
    account state index ≤ account final index ∧
      index < final.published.length := by
  induction labels generalizing state with
  | nil =>
      cases hrun
      exact ⟨Nat.le_refl _, hindex⟩
  | cons label labels ih =>
      rw [run_cons, Option.bind_eq_some_iff] at hrun
      obtain ⟨next, hnext, hrest⟩ := hrun
      have hlength : index < next.published.length := by
        cases published_step hcoherent hnext with
        | inl hsame => exact hsame.symm ▸ hindex
        | inr hnew =>
            obtain ⟨bytes, hpublished, -⟩ := hnew
            rw [hpublished, List.length_append]
            omega
      have hle : account state index ≤ account next index := by
        have hstep := account_step hcoherent hnext hindex
        by_cases hlate : lateDrain state label index
        · have hmore := hstep.2 hlate
          omega
        · exact Nat.le_of_eq (hstep.1 hlate).symm
      obtain ⟨htail, hfinal⟩ := ih (coherent_step hcoherent hnext) hrest hlength
      exact ⟨Nat.le_trans hle htail, hfinal⟩

theorem account_quiescent {state : State} (hcoherent : Coherent state)
    (hquiescent : Quiescent state) (index : ℕ) :
    account state index = passes state index := by
  obtain ⟨hidle, hgame⟩ := hquiescent
  have hnone := hcoherent.pending_none (by simp [hidle])
  simp [account, hnone, hgame, markOption, watcherOwes, hidle]

/-! ## Both threads can always finish -/

theorem canFinish_of_step {state next : State} {label : Label}
    (hlabel : label ≠ .dispatchTail) (hstep : step state label = some next)
    (hnext : CanFinish next) : CanFinish state := by
  obtain ⟨labels, final, htails, hrun, hquiescent⟩ := hnext
  refine ⟨label :: labels, final, ?_, ?_, hquiescent⟩
  · simpa [hlabel.symm] using htails
  · rw [run_cons, hstep, Option.bind_some, hrun]

theorem canFinish_idle {state : State} (hidle : state.watcher = .idle) :
    CanFinish state := by
  cases hgame : state.game with
  | none => exact ⟨[], state, by simp, rfl, hidle, hgame⟩
  | some buffer =>
      have hstep : step state .gameReload = some { state with
          game := none, reloads := state.reloads ++ [buffer] } := by
        simp [step, hgame]
      exact canFinish_of_step (by simp) hstep ⟨[], _, by simp, rfl, hidle, rfl⟩

theorem canFinish_reloading {state : State} {buffer : Buffer}
    (hreloading : state.watcher = .reloading buffer) : CanFinish state := by
  have hstep : step state .watcherReload = some { state with
      watcher := .idle, reloads := state.reloads ++ [buffer] } := by
    simp [step, hreloading]
  exact canFinish_of_step (by simp) hstep (canFinish_idle rfl)

/-- The wait is bounded: `remaining` is the time left before the deadline. -/
theorem canFinish_waiting (remaining : ℕ) :
    ∀ (state : State) (buffer : Buffer) (bytesRef : Option (List UInt8))
      (elapsedMs deadlineMs : ℕ),
      state.watcher = .waiting buffer bytesRef elapsedMs deadlineMs →
      deadlineMs - elapsedMs = remaining → CanFinish state := by
  induction remaining using Nat.strongRecOn with
  | ind remaining ih =>
      intro state buffer bytesRef elapsedMs deadlineMs hwaiting hremaining
      by_cases hbefore : elapsedMs < deadlineMs
      · by_cases hpending : isReloadPending state = true
        · have hstep : step state .poll = some { state with
              watcher := .waiting buffer bytesRef (elapsedMs + 50)
                deadlineMs } := by
            simp [step, hwaiting, hbefore, hpending]
          refine canFinish_of_step (by simp) hstep ?_
          exact ih (deadlineMs - (elapsedMs + 50)) (by omega) _ buffer bytesRef
            (elapsedMs + 50) deadlineMs rfl rfl
        · have hstep : step state .poll =
              some { state with watcher := .idle } := by
            simp [step, hwaiting, hbefore, hpending]
          exact canFinish_of_step (by simp) hstep (canFinish_idle rfl)
      · have hstep : step state .fallbackTake = some { state with
            reloadPending := none
            watcher := .reloading (state.reloadPending.getD
              ⟨buffer.index, bytesRef.getD []⟩) } := by
          simp [step, hwaiting, hbefore, takeReloadPending]
        exact canFinish_of_step (by simp) hstep (canFinish_reloading rfl)

theorem canFinish (state : State) : CanFinish state := by
  cases hwatcher : state.watcher with
  | idle => exact canFinish_idle hwatcher
  | reloading buffer => exact canFinish_reloading hwatcher
  | waiting buffer bytesRef elapsedMs deadlineMs =>
      exact canFinish_waiting _ state buffer bytesRef elapsedMs deadlineMs
        hwatcher rfl

/-! ## Exactly once -/

theorem exactlyOnce_of_noLateDrain {labels : List Label}
    (hmeets : Meets step NoLateDrain initial labels) : ExactlyOnce labels := by
  intro state hvisits
  obtain ⟨hcoherent, haccount⟩ :=
    hmeets.invariant balanced_initial balanced_step hvisits
  refine ⟨hcoherent.reloads, ?_, ?_, canFinish state⟩
  · intro index hindex
    have hone := haccount index hindex
    rw [account] at hone
    omega
  · intro hquiescent index hindex
    rw [← account_quiescent hcoherent hquiescent, haccount index hindex]

theorem noLateDrain_of_exactlyOnce {labels : List Label}
    (hcomplete : Complete labels) (honce : ExactlyOnce labels) :
    Meets step NoLateDrain initial labels := by
  intro taken label rest state hsplit hrun
  cases label with
  | dispatchTail =>
      intro hpast
      cases hpending : state.reloadPending with
      | none => rfl
      | some buffer =>
          obtain ⟨final, hfinal, hquiescent⟩ := hcomplete
          have hwhole := hfinal
          rw [hsplit, run_append, hrun, Option.bind_some, run_cons,
            Option.bind_eq_some_iff] at hwhole
          obtain ⟨next, hnext, hrest⟩ := hwhole
          have hcoherent : Coherent state :=
            Visits.invariant (visits_end hrun) coherent_initial
              fun _ _ _ => coherent_step
          obtain ⟨ref, elapsed, deadline, hwaiting⟩ :=
            hcoherent.pending buffer hpending
          have hlt := (hcoherent.waiting _ _ _ _ hwaiting).2.lt
          have hlate := (account_step hcoherent hnext hlt).2
            ⟨rfl, hpast, buffer, hpending, rfl⟩
          have howed : 1 ≤ account state buffer.index := by
            simp only [account, hpending, markOption, Option.elim_some, mark,
              if_true]
            omega
          have hcoherentNext := coherent_step hcoherent hnext
          have hltNext : buffer.index < next.published.length := by
            cases step_outcome hnext with
            | published _ _ _ _ hlabel => exact absurd rfl hlabel
            | drained => exact hlt
          obtain ⟨hle, hltFinal⟩ := account_le_run hcoherentNext hrest hltNext
          have hcoherentFinal : Coherent final :=
            Visits.invariant (visits_end hfinal) coherent_initial
              fun _ _ _ => coherent_step
          have hpasses := (honce final (visits_end hfinal)).2.2.1 hquiescent
            buffer.index hltFinal
          rw [account_quiescent hcoherentFinal hquiescent] at hle
          omega
  | publishReload bytes deadlineMs => trivial
  | publishUnload deadlineMs => trivial
  | poll => trivial
  | fallbackTake => trivial
  | watcherReload => trivial
  | gameReload => trivial

/-- Runs without a late drain hand every buffer over exactly once, and among
the complete runs they are the only ones. -/
theorem exactlyOnce_iff_noLateDrain (labels : List Label) :
    (Meets step NoLateDrain initial labels → ExactlyOnce labels) ∧
      (Complete labels →
        (ExactlyOnce labels ↔ Meets step NoLateDrain initial labels)) := by
  refine ⟨exactlyOnce_of_noLateDrain, fun hcomplete => ?_⟩
  constructor
  · exact noLateDrain_of_exactlyOnce hcomplete
  · exact exactlyOnce_of_noLateDrain

/-- One publication with a deadline of one poll: the dispatch tail drains the
buffer after that poll, and both threads reload it. -/
def lateDrainRun : List Label :=
  [.publishReload [1] 50, .poll, .dispatchTail, .fallbackTake, .gameReload,
    .watcherReload]

theorem not_exactlyOnce_lateDrainRun : ¬ ExactlyOnce lateDrainRun := by
  intro honce
  have hrun : run step initial lateDrainRun =
      some ⟨none, .idle, none, [[1]], [⟨0, [1]⟩, ⟨0, [1]⟩]⟩ := by
    decide
  have hpasses := (honce _ (visits_end hrun)).2.1 0 (by decide)
  revert hpasses
  decide

end FrogAgent.Handoff
