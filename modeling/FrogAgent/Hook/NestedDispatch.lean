import FrogAgent.Hook.CallTree
import FrogAgent.Hook.OneHookPerMethod

/-!
# What holds along every call tree

Two readings of the log of a call tree.  `Guarded` is about the reentry flags: a
dispatch inside a dispatch of the same slot only replays the trampoline, and no
handler is active twice.  `Disciplined` is about `CURRENT`: it is never borrowed
while a borrow is held, and whoever uses it finds the context of its own dispatch.
Both follow from one fact about every action on the thread: it returns with the
stack, the borrow flag and the registry lock as it found them, and, as long as no
hook is installed or removed, with the reentry flags as it found them.
-/

namespace FrogAgent.CallTree

open FrogAgent.HandlerCalls
open FrogAgent.Marshal
open FrogAgent.PackedArg
open FrogAgent.Signature
open FrogAgent.Slots
open FrogAgent.TypedValue

/-! ## Properties of logs -/

/-- Every borrow of `CURRENT` finds it free and uses the context of the dispatch
on whose behalf it is made. -/
def Log.Disciplined : Log → Prop
  | .nil => True
  | .dispatch _ body rest | .trampoline _ body rest | .handler _ body rest
  | .invoke body rest => body.Disciplined ∧ rest.Disciplined
  | .access owner flag context rest =>
      flag = .unused ∧ context = some owner ∧ rest.Disciplined

/-- Inside the dispatches of `inside`, with the handlers of `active` running: a
dispatch of a published slot of `inside` runs the trampoline of the slot and
nothing else, and no handler of `active` is started. -/
def Log.Guarded (slots : SlotId → Option HookCtx) :
    List ℕ → List SlotId → Log → Prop
  | _, _, .nil => True
  | inside, active, .dispatch methodId body rest =>
      (∀ slot ctx, slot.val = methodId → methodId ∈ inside →
        slots slot = some ctx →
          ∃ nested, body = .trampoline ctx.patch.trampoline nested .nil) ∧
      body.Guarded slots (methodId :: inside) active ∧
      rest.Guarded slots inside active
  | inside, active, .trampoline _ body rest | inside, active, .invoke body rest =>
      body.Guarded slots inside active ∧ rest.Guarded slots inside active
  | inside, active, .handler slot body rest =>
      slot ∉ active ∧ body.Guarded slots inside (slot :: active) ∧
        rest.Guarded slots inside active
  | inside, active, .access _ _ _ rest => rest.Guarded slots inside active

/-! ## Actions that leave the thread as they found it -/

section Actions

-- `fixed` says that no hook is installed or removed while the action runs
variable {fixed : Prop}

/-- What `next` has kept of a thread with these hooks, on which no borrow of
`CURRENT` was held. -/
structure Kept (fixed : Prop) (holdsRegistry : Bool) (hooks : HookState)
    (next : Thread) : Prop where
  flag : next.flag = .unused
  holdsRegistry : next.holdsRegistry = holdsRegistry
  slots : fixed → next.hooks.slots = hooks.slots
  reentry : fixed → next.hooks.reentry = hooks.reentry

theorem kept_self {thread : Thread} (hflag : thread.flag = .unused) :
    Kept fixed thread.holdsRegistry thread.hooks thread :=
  ⟨hflag, rfl, fun _ => rfl, fun _ => rfl⟩

theorem Kept.trans {holdsRegistry : Bool} {hooks : HookState} {second third : Thread}
    (hfirst : Kept fixed holdsRegistry hooks second)
    (hsecond : Kept fixed second.holdsRegistry second.hooks third) :
    Kept fixed holdsRegistry hooks third where
  flag := hsecond.flag
  holdsRegistry := hsecond.holdsRegistry.trans hfirst.holdsRegistry
  slots := fun hfixed => (hsecond.slots hfixed).trans (hfirst.slots hfixed)
  reentry := fun hfixed => (hsecond.reentry hfixed).trans (hfirst.reentry hfixed)

/-- The flags of the published slots of `inside` and of the slots of `active` are
set. -/
structure Entered (hooks : HookState) (inside : List ℕ) (active : List SlotId) :
    Prop where
  inside : ∀ slot, slot.val ∈ inside → hooks.slots slot ≠ none →
    hooks.reentry slot = true
  active : ∀ slot ∈ active, hooks.reentry slot = true

theorem Entered.kept {holdsRegistry : Bool} {hooks : HookState} {next : Thread}
    {inside : List ℕ} {active : List SlotId} (hentered : Entered hooks inside active)
    (hkept : Kept fixed holdsRegistry hooks next) (hfixed : fixed) :
    Entered next.hooks inside active where
  inside := by
    rw [hkept.slots hfixed, hkept.reentry hfixed]
    exact hentered.inside
  active := by
    rw [hkept.reentry hfixed]
    exact hentered.active

/-- What the log of an action satisfies that was started with these hooks. -/
structure LogHolds (fixed : Prop) (hooks : HookState) (log : Log) : Prop where
  disciplined : log.Disciplined
  guarded : fixed → ∀ inside active, Entered hooks inside active →
    log.Guarded hooks.slots inside active

theorem logHolds_nil (hooks : HookState) : LogHolds fixed hooks .nil :=
  ⟨trivial, fun _ _ _ _ => trivial⟩

/-- A log that continues after an action has kept the thread. -/
theorem LogHolds.of_kept {holdsRegistry : Bool} {hooks : HookState} {next : Thread}
    {log : Log} (hlog : LogHolds fixed next.hooks log)
    (hkept : Kept fixed holdsRegistry hooks next) : LogHolds fixed hooks log where
  disciplined := hlog.disciplined
  guarded := by
    intro hfixed inside active hentered
    rw [← hkept.slots hfixed]
    exact hlog.guarded hfixed inside active (hentered.kept hkept hfixed)

theorem LogHolds.trampoline {hooks : HookState} {body rest : Log} (address : ℕ)
    (hbody : LogHolds fixed hooks body) (hrest : LogHolds fixed hooks rest) :
    LogHolds fixed hooks (.trampoline address body rest) where
  disciplined := ⟨hbody.disciplined, hrest.disciplined⟩
  guarded := fun hfixed inside active hentered =>
    ⟨hbody.guarded hfixed inside active hentered,
      hrest.guarded hfixed inside active hentered⟩

theorem LogHolds.invoke {hooks : HookState} {body rest : Log}
    (hbody : LogHolds fixed hooks body) (hrest : LogHolds fixed hooks rest) :
    LogHolds fixed hooks (.invoke body rest) where
  disciplined := ⟨hbody.disciplined, hrest.disciplined⟩
  guarded := fun hfixed inside active hentered =>
    ⟨hbody.guarded hfixed inside active hentered,
      hrest.guarded hfixed inside active hentered⟩

theorem LogHolds.access {hooks : HookState} {rest : Log} {dispatch : ℕ}
    {flag : BorrowFlag} (hflag : flag = .unused) (hrest : LogHolds fixed hooks rest) :
    LogHolds fixed hooks (.access dispatch flag (some dispatch) rest) where
  disciplined := ⟨hflag, rfl, hrest.disciplined⟩
  guarded := hrest.guarded

/-- Game code and the agent's own code: the action returns, and leaves `CURRENT`
as it was. -/
def Balanced (fixed : Prop) (action : Action) : Prop :=
  ∀ thread, thread.flag = .unused → ∃ next log, action thread = .ok (next, log) ∧
    next.current = thread.current ∧ Kept fixed thread.holdsRegistry thread.hooks next ∧
      LogHolds fixed thread.hooks log

/-- The code of a handler: it may change the context of its dispatch, which is on
top of the stack, and nothing below. -/
def Serves (fixed : Prop) (dispatch : ℕ) (action : Action) : Prop :=
  ∀ thread context below, thread.flag = .unused →
    thread.current = ⟨dispatch, context⟩ :: below →
      ∃ next log later, action thread = .ok (next, log) ∧
        next.current = ⟨dispatch, later⟩ :: below ∧
          Kept fixed thread.holdsRegistry thread.hooks next ∧ LogHolds fixed thread.hooks log

/-! ## The agent's code -/

theorem borrow_unused {thread : Thread} (hflag : thread.flag = .unused) :
    thread.borrow = .ok { thread with flag := .reading 1 } := by
  rw [Thread.borrow, hflag]

theorem borrowMut_unused {thread : Thread} (hflag : thread.flag = .unused) :
    thread.borrowMut = .ok { thread with flag := .writing } := by
  rw [Thread.borrowMut, hflag]

theorem release_held {thread : Thread}
    (hflag : thread.flag = .reading 1 ∨ thread.flag = .writing) :
    thread.release = { thread with flag := .unused } := by
  rcases hflag with hreading | hwriting
  · rw [Thread.release, hreading]
  · rw [Thread.release, hwriting]

theorem push_unused {thread : Thread} (hflag : thread.flag = .unused) (entry : Entry) :
    thread.push entry = .ok { thread with
      current := entry :: thread.current, flag := .unused } := by
  rw [Thread.push, borrowMut_unused hflag]
  rfl

theorem pop_unused {thread : Thread} {entry : Entry} {below : List Entry}
    (hflag : thread.flag = .unused) (hcurrent : thread.current = entry :: below) :
    thread.pop = .ok (entry, { thread with current := below, flag := .unused }) := by
  rw [Thread.pop, borrowMut_unused hflag]
  simp only [bind, Except.bind, hcurrent]
  rfl

theorem balanced_callTrampoline {original : Action} (address : ℕ)
    (horiginal : Balanced fixed original) :
    Balanced fixed (callTrampoline address original) := by
  intro thread hflag
  obtain ⟨next, body, hrun, hcurrent, hkept, hbody⟩ := horiginal thread hflag
  refine ⟨next, .trampoline address body .nil, ?_, hcurrent, hkept,
    hbody.trampoline address (logHolds_nil thread.hooks)⟩
  rw [callTrampoline, hrun]
  rfl

theorem balanced_continuation {original : Action} (address : ℕ)
    (horiginal : Balanced fixed original) (handled : CurrentContext) :
    Balanced fixed (continuation address original handled) := by
  intro thread hflag
  rw [continuation]
  split
  · exact balanced_callTrampoline address horiginal thread hflag
  · exact ⟨thread, .nil, rfl, rfl, kept_self hflag, logHolds_nil thread.hooks⟩

/-- The handler is run, or skipped, and its context is on top again. -/
theorem callHookHandler_returns {handler : Action} {dispatch : ℕ} (lookup : Lookup)
    (hhandler : Serves fixed dispatch handler) {thread : Thread} {context : CurrentContext}
    {below : List Entry} (hflag : thread.flag = .unused)
    (hcurrent : thread.current = ⟨dispatch, context⟩ :: below) :
    ∃ next body later, callHookHandler lookup handler thread = .ok (next, body) ∧
      next.current = ⟨dispatch, later⟩ :: below ∧
      Kept fixed thread.holdsRegistry thread.hooks next ∧
      ∀ log ∈ body, LogHolds fixed thread.hooks log := by
  rw [callHookHandler]
  split
  · exact ⟨thread, none, context, rfl, hcurrent, kept_self hflag, nofun⟩
  · rename_i hfound
    have hregistry : thread.holdsRegistry = false := by
      cases hholds : thread.holdsRegistry with
      | false => rfl
      | true => simp [hholds] at hfound
    obtain ⟨next, log, later, hrun, htop, hkept, hlog⟩ := hhandler
      { thread with holdsRegistry := true } context below hflag hcurrent
    refine ⟨{ next with holdsRegistry := false }, some log, later, ?_, htop,
      ⟨hkept.flag, hregistry.symm, hkept.slots, hkept.reentry⟩, ?_⟩
    · rw [hrun]
      rfl
    · intro other hother
      cases hother
      exact hlog

/-- The handler of a slot whose flag is set and that is not active yet. -/
theorem Log.guarded_ofHandler {hooks : HookState} {slot : SlotId} {body : Option Log}
    {rest : Log} {inside : List ℕ} {active : List SlotId}
    (hbody : ∀ log ∈ body, LogHolds fixed hooks log) (hfixed : fixed)
    (hset : hooks.reentry slot = true) (hidle : slot ∉ active)
    (hentered : Entered hooks inside active)
    (hrest : rest.Guarded hooks.slots inside active) :
    (Log.ofHandler slot body rest).Guarded hooks.slots inside active := by
  cases body with
  | none => exact hrest
  | some log =>
      have hactive : Entered hooks inside (slot :: active) := by
        refine ⟨hentered.inside, fun other hother => ?_⟩
        rcases List.mem_cons.mp hother with rfl | hold
        · exact hset
        · exact hentered.active other hold
      exact ⟨hidle, (hbody log rfl).guarded hfixed inside (slot :: active) hactive,
        hrest⟩

theorem Log.disciplined_ofHandler {hooks : HookState} {slot : SlotId}
    {body : Option Log} {rest : Log} (hbody : ∀ log ∈ body, LogHolds fixed hooks log)
    (hrest : rest.Disciplined) : (Log.ofHandler slot body rest).Disciplined := by
  cases body with
  | none => exact hrest
  | some log => exact ⟨(hbody log rfl).disciplined, hrest⟩

/-- `with_current_context` pushes its context, finds it on top after the handler,
and hands it to the continuation. -/
theorem withCurrentContext_returns {handler : Action} {cont : CurrentContext → Action}
    {dispatch : ℕ} (slot : SlotId) (context : CurrentContext) (lookup : Lookup)
    (hhandler : Serves fixed dispatch handler)
    (hcont : ∀ handled, Balanced fixed (cont handled))
    {thread : Thread} (hflag : thread.flag = .unused) :
    ∃ next log,
      withCurrentContext dispatch slot context lookup handler cont thread =
        .ok (next, log) ∧
      next.current = thread.current ∧
      Kept fixed thread.holdsRegistry thread.hooks next ∧ log.Disciplined ∧
      (fixed → ∀ inside active, Entered thread.hooks inside active →
        thread.hooks.reentry slot = true → slot ∉ active →
          log.Guarded thread.hooks.slots inside active) := by
  have hpushed : ({ thread with
      current := ⟨dispatch, context⟩ :: thread.current
      flag := .unused } : Thread).current = ⟨dispatch, context⟩ :: thread.current := rfl
  obtain ⟨handled, body, later, hhandled, htop, hkept, hbody⟩ :=
    callHookHandler_returns lookup hhandler rfl hpushed
  obtain ⟨next, log, hrun, hcurrent, hnext, hlog⟩ := hcont later
    { handled with current := thread.current, flag := .unused } rfl
  have hpopped : Kept fixed thread.holdsRegistry thread.hooks
      { handled with current := thread.current, flag := .unused } :=
    ⟨rfl, hkept.holdsRegistry, hkept.slots, hkept.reentry⟩
  have hafter : LogHolds fixed thread.hooks log := LogHolds.of_kept hlog hpopped
  refine ⟨next, .access dispatch thread.flag (some dispatch)
    (Log.ofHandler slot body (.access dispatch handled.flag (some dispatch) log)),
      ?_, hcurrent, hpopped.trans hnext, ?_, ?_⟩
  · simp only [withCurrentContext, push_unused hflag, bind, Except.bind, hhandled,
      pop_unused hkept.flag htop, hrun]
  · exact ⟨hflag, rfl, Log.disciplined_ofHandler hbody
      ⟨hkept.flag, rfl, hafter.disciplined⟩⟩
  · intro hfixed inside active hentered hset hidle
    exact Log.guarded_ofHandler hbody hfixed hset hidle hentered
      (hafter.guarded hfixed inside active hentered)

/-! ## Dispatches -/

theorem setReentry_self (thread : Thread) (slot : SlotId) (flag : Bool) :
    (thread.setReentry slot flag).hooks.reentry slot = flag := by
  simp only [Thread.setReentry, Function.update_self]

theorem setReentry_of_ne (thread : Thread) {slot other : SlotId} (flag : Bool)
    (hne : other ≠ slot) :
    (thread.setReentry slot flag).hooks.reentry other =
      thread.hooks.reentry other := by
  simp only [Thread.setReentry, Function.update_of_ne hne]

/-- The thread while a dispatch of `slot` is under way. -/
theorem entered_setReentry {thread : Thread} {slot : SlotId} {inside : List ℕ}
    {active : List SlotId} (hentered : Entered thread.hooks inside active) :
    Entered (thread.setReentry slot true).hooks (slot.val :: inside) active where
  inside := by
    intro other hother hpublished
    by_cases hsame : other = slot
    · rw [hsame, setReentry_self]
    · have hne : other.val ≠ slot.val := fun hequal => hsame (Fin.ext hequal)
      have hinside := (List.mem_cons.mp hother).resolve_left hne
      rw [setReentry_of_ne thread true hsame]
      exact hentered.inside other hinside hpublished
  active := by
    intro other hother
    by_cases hsame : other = slot
    · rw [hsame, setReentry_self]
    · rw [setReentry_of_ne thread true hsame]
      exact hentered.active other hother

/-- The outermost dispatch of a slot clears the flag it has set. -/
theorem kept_cleared {thread next : Thread} {slot : SlotId}
    (hclear : thread.hooks.reentry slot = false)
    (hkept : Kept fixed thread.holdsRegistry (thread.setReentry slot true).hooks next) :
    Kept fixed thread.holdsRegistry thread.hooks (next.setReentry slot false) where
  flag := hkept.flag
  holdsRegistry := hkept.holdsRegistry
  slots := hkept.slots
  reentry := by
    intro hfixed
    have hflags : next.hooks.reentry =
        Function.update thread.hooks.reentry slot true := hkept.reentry hfixed
    calc
      Function.update next.hooks.reentry slot false =
          Function.update thread.hooks.reentry slot false := by
        rw [hflags, Function.update_idem]
      _ = thread.hooks.reentry := by
        rw [← hclear, Function.update_eq_self]

/-- What the log of a dispatch of `methodId` satisfies. -/
structure DispatchHolds (fixed : Prop) (methodId : ℕ) (hooks : HookState) (log : Log) :
    Prop where
  disciplined : log.Disciplined
  replays : fixed → ∀ inside active, Entered hooks inside active → ∀ slot ctx,
    slot.val = methodId → methodId ∈ inside → hooks.slots slot = some ctx →
      ∃ nested, log = .trampoline ctx.patch.trampoline nested .nil
  guarded : fixed → ∀ inside active, Entered hooks inside active →
    log.Guarded hooks.slots (methodId :: inside) active

/-- A dispatch of an id that is not published returns at once. -/
theorem dispatchHolds_nil {methodId : ℕ} {hooks : HookState}
    (hunpublished : ∀ slot, slot.val = methodId → hooks.slots slot = none) :
    DispatchHolds fixed methodId hooks .nil where
  disciplined := trivial
  replays := by
    intro hfixed inside active hentered slot ctx hval hinside hpublished
    rw [hunpublished slot hval] at hpublished
    contradiction
  guarded := fun _ _ _ _ => trivial

/-- A dispatch that finds its flag set replays the trampoline. -/
theorem dispatchHolds_replay {slot : SlotId} {ctx : HookCtx} {hooks : HookState}
    {nested : Log} (hslot : hooks.slots slot = some ctx)
    (hset : hooks.reentry slot = true) (hnested : LogHolds fixed hooks nested) :
    DispatchHolds fixed slot.val hooks
      (.trampoline ctx.patch.trampoline nested .nil) where
  disciplined := ⟨hnested.disciplined, trivial⟩
  replays := by
    intro hfixed inside active hentered other otherCtx hval hinside hother
    rw [Fin.ext hval, hslot, Option.some.injEq] at hother
    rw [← hother]
    exact ⟨nested, rfl⟩
  guarded := by
    intro hfixed inside active hentered
    refine ⟨hnested.guarded hfixed (slot.val :: inside) active
      ⟨?_, hentered.active⟩, trivial⟩
    intro other hother hpublished
    rcases List.mem_cons.mp hother with hval | hinside
    · rw [Fin.ext hval]
      exact hset
    · exact hentered.inside other hinside hpublished

/-- A dispatch that finds its flag clear is the outermost one of its slot. -/
theorem dispatchHolds_fresh {slot : SlotId} {ctx : HookCtx} {thread : Thread}
    {log : Log} (hslot : thread.hooks.slots slot = some ctx)
    (hclear : thread.hooks.reentry slot = false) (hdisciplined : log.Disciplined)
    (hguarded : fixed → ∀ inside active,
      Entered (thread.setReentry slot true).hooks inside active →
        slot ∉ active → log.Guarded thread.hooks.slots inside active) :
    DispatchHolds fixed slot.val thread.hooks log where
  disciplined := hdisciplined
  replays := by
    intro hfixed inside active hentered other otherCtx hval hinside hother
    have hpublished : thread.hooks.slots slot ≠ none := by
      rw [hslot]
      exact nofun
    have hset := hentered.inside slot hinside hpublished
    rw [hclear] at hset
    contradiction
  guarded := by
    intro hfixed inside active hentered
    apply hguarded hfixed _ _ (entered_setReentry hentered)
    intro hactive
    rw [hentered.active slot hactive] at hclear
    contradiction

section Dispatch

variable (internals : Internals) (regs : RegArgs) (lookup : Lookup) {dispatch : ℕ}
variable {handler original : Action}
variable (hhandler : Serves fixed dispatch handler) (horiginal : Balanced fixed original)

include hhandler horiginal

theorem dispatchEntered_returns (slot : SlotId) (ctx : HookCtx) (thread : Thread)
    (hflag : thread.flag = .unused) (hset : thread.hooks.reentry slot = true) :
    ∃ next log,
      dispatchEntered internals dispatch slot ctx regs lookup handler original thread =
        .ok (next, log) ∧
      next.current = thread.current ∧
      Kept fixed thread.holdsRegistry thread.hooks next ∧ log.Disciplined ∧
      (fixed → ∀ inside active, Entered thread.hooks inside active → slot ∉ active →
        log.Guarded thread.hooks.slots inside active) := by
  rw [dispatchEntered]
  split
  · obtain ⟨next, log, hrun, hcurrent, hkept, hlog⟩ :=
      balanced_callTrampoline ctx.patch.trampoline horiginal thread hflag
    exact ⟨next, log, hrun, hcurrent, hkept, hlog.disciplined,
      fun hfixed inside active hentered _ =>
        hlog.guarded hfixed inside active hentered⟩
  · rename_i args hargs
    obtain ⟨next, log, hrun, hcurrent, hkept, hdisciplined, hguarded⟩ :=
      withCurrentContext_returns slot ⟨ctx.method, regs, args, none, false⟩ lookup
        hhandler (balanced_continuation ctx.patch.trampoline horiginal) hflag
    exact ⟨next, log, hrun, hcurrent, hkept, hdisciplined,
      fun hfixed inside active hentered hidle =>
        hguarded hfixed inside active hentered hset hidle⟩

/-- A dispatch returns with the thread as it was, whichever exit it takes. -/
theorem dispatchNumbered_returns (methodId : ℕ) (thread : Thread)
    (hflag : thread.flag = .unused) :
    ∃ next log,
      dispatchNumbered internals dispatch methodId regs lookup handler original thread =
        .ok (next, log) ∧
      next.current = thread.current ∧ Kept fixed thread.holdsRegistry thread.hooks next ∧
      DispatchHolds fixed methodId thread.hooks log := by
  rw [dispatchNumbered]
  split
  · rename_i hid
    dsimp only
    cases hslot : thread.hooks.slots ⟨methodId, hid⟩ with
    | none =>
        refine ⟨thread, .nil, rfl, rfl, kept_self hflag, dispatchHolds_nil ?_⟩
        intro slot hval
        rw [← hslot]
        exact congrArg thread.hooks.slots (Fin.ext hval)
    | some ctx =>
        dsimp only
        cases hreentry : thread.hooks.reentry ⟨methodId, hid⟩ with
        | true =>
            obtain ⟨next, nested, hrun, hcurrent, hkept, hnested⟩ :=
              horiginal thread hflag
            refine ⟨next, .trampoline ctx.patch.trampoline nested .nil, ?_, hcurrent,
              hkept, dispatchHolds_replay hslot hreentry hnested⟩
            rw [if_pos rfl, callTrampoline, hrun]
            rfl
        | false =>
            obtain ⟨next, log, hrun, hcurrent, hkept, hdisciplined, hguarded⟩ :=
              dispatchEntered_returns internals regs lookup hhandler horiginal
                ⟨methodId, hid⟩ ctx (thread.setReentry ⟨methodId, hid⟩ true) hflag
                (setReentry_self thread ⟨methodId, hid⟩ true)
            refine ⟨next.setReentry ⟨methodId, hid⟩ false, log, ?_, hcurrent,
              kept_cleared hreentry hkept,
              dispatchHolds_fresh hslot hreentry hdisciplined hguarded⟩
            rw [if_neg Bool.false_ne_true, hrun]
            rfl
  · rename_i hid
    refine ⟨thread, .nil, rfl, rfl, kept_self hflag, dispatchHolds_nil ?_⟩
    intro slot hval
    exact absurd (hval ▸ slot.isLt) hid

end Dispatch

/-! ## Handlers -/

/-- A host function takes one borrow, if it gets to `CURRENT` at all. -/
theorem ContextCall.borrow_unused (call : ContextCall) {thread : Thread}
    (hflag : thread.flag = .unused) :
    call.borrow thread = none ∨ ∃ flag, (flag = .reading 1 ∨ flag = .writing) ∧
      call.borrow thread = some (.ok { thread with flag := flag }) := by
  cases call with
  | hookArg argIdx =>
      exact Or.inr ⟨_, Or.inl rfl, congrArg some (CallTree.borrow_unused hflag)⟩
  | hookSetArg argIdx bytes =>
      exact Or.inr ⟨_, Or.inr rfl, congrArg some (borrowMut_unused hflag)⟩
  | hookThis =>
      exact Or.inr ⟨_, Or.inl rfl, congrArg some (CallTree.borrow_unused hflag)⟩
  | hookSetReturn bytes =>
      rw [ContextCall.borrow]
      split
      · exact Or.inr ⟨_, Or.inr rfl, congrArg some (borrowMut_unused hflag)⟩
      · exact Or.inl rfl

/-- A host function of the handler finds the context of its dispatch. -/
theorem serves_contextCall (internals : Internals) (call : ContextCall) {dispatch : ℕ}
    {rest : Action} (hrest : Serves fixed dispatch rest) :
    Serves fixed dispatch (call.run internals dispatch rest) := by
  intro thread context below hflag hcurrent
  rw [ContextCall.run]
  rcases call.borrow_unused hflag with hnone | ⟨flag, hheld, hborrow⟩
  · rw [hnone]
    exact hrest thread context below hflag hcurrent
  · rw [hborrow]
    obtain ⟨next, log, later, hrun, htop, hkept, hlog⟩ := hrest
      { thread with
        current := ⟨dispatch, call.apply internals thread context⟩ :: below
        flag := .unused }
      (call.apply internals thread context) below rfl rfl
    refine ⟨next, .access dispatch thread.flag (some dispatch) log, later, ?_, htop,
      hkept, LogHolds.access hflag hlog⟩
    simp only [bind, Except.bind, hcurrent]
    rw [release_held hheld]
    simp only [hrun]

theorem writeReturn_top (dispatch : ℕ) (result : UInt64 × F64)
    (context : CurrentContext) (below : List Entry) :
    writeReturn dispatch result (⟨dispatch, context⟩ :: below) =
      ⟨dispatch, { context with regs := context.regs.setReturn result }⟩ :: below := by
  rw [writeReturn, if_pos rfl]

/-- `call_original` runs the original with `CURRENT` free and its own context on
top, and finds both so afterwards. -/
theorem serves_callOriginalNow {dispatch : ℕ} {original rest : Action}
    (result : UInt64 × F64) (horiginal : Balanced fixed original)
    (hrest : Serves fixed dispatch rest) :
    Serves fixed dispatch (callOriginalNow dispatch original result rest) := by
  intro thread context below hflag hcurrent
  rw [callOriginalNow, borrowMut_unused hflag]
  simp only [bind, Except.bind, hcurrent]
  cases hfound : findByMethod thread.hooks context.method with
  | none =>
      obtain ⟨next, log, later, hrun, htop, hkept, hlog⟩ := hrest
        { thread with current := ⟨dispatch, context⟩ :: below, flag := .unused }
        context below rfl rfl
      refine ⟨next, .access dispatch thread.flag (some dispatch) log, later, ?_, htop,
        hkept, LogHolds.access hflag hlog⟩
      dsimp only
      rw [release_held (Or.inr rfl)]
      simp only [hrun]
  | some ctx =>
      obtain ⟨returned, body, hbody, hreturned, hkept, hinner⟩ := horiginal
        { thread with
          current := ⟨dispatch, { context with calledOriginal := true }⟩ :: below
          flag := .unused } rfl
      obtain ⟨next, log, later, hrun, htop, hnext, hlog⟩ := hrest
        { returned with current := writeReturn dispatch result returned.current } _ below
        hkept.flag (by rw [hreturned, writeReturn_top])
      have hlater : LogHolds fixed returned.hooks log := hlog
      have hafter : LogHolds fixed thread.hooks log := hlater.of_kept hkept
      refine ⟨next, .access dispatch thread.flag (some dispatch)
        (.trampoline ctx.patch.trampoline body log), later, ?_, htop, hkept.trans hnext,
        LogHolds.access hflag (hinner.trampoline ctx.patch.trampoline hafter)⟩
      dsimp only
      rw [release_held (Or.inr rfl)]
      simp only [hbody, hrun]

theorem serves_ret (dispatch : ℕ) :
    Serves fixed dispatch fun thread => .ok (thread, .nil) := by
  intro thread context below hflag hcurrent
  exact ⟨thread, .nil, context, rfl, hcurrent, kept_self hflag,
    logHolds_nil thread.hooks⟩

theorem serves_invoke {dispatch : ℕ} {code rest : Action} (hcode : Balanced fixed code)
    (hrest : Serves fixed dispatch rest) :
    Serves fixed dispatch (fun thread => do
      let (returned, body) ← code thread
      let (next, later) ← rest returned
      .ok (next, .invoke body later)) := by
  intro thread context below hflag hcurrent
  obtain ⟨returned, body, hbody, hreturned, hkept, hinner⟩ := hcode thread hflag
  obtain ⟨next, log, later, hrun, htop, hnext, hlog⟩ := hrest returned context below
    hkept.flag (hreturned.trans hcurrent)
  refine ⟨next, .invoke body log, later, ?_, htop, hkept.trans hnext,
    hinner.invoke (hlog.of_kept hkept)⟩
  simp only [bind, Except.bind, hbody, hrun]

/-! ## Call trees -/

theorem balanced_enter (internals : Internals) (methodId : ℕ) (regs : RegArgs)
    (lookup : Lookup) {handler : ℕ → Action} {original rest : Action}
    (hhandler : ∀ dispatch, Serves fixed dispatch (handler dispatch))
    (horiginal : Balanced fixed original) (hrest : Balanced fixed rest) :
    Balanced fixed (fun thread => do
      let (returned, body) ← dispatchRust internals methodId regs lookup handler
        original thread
      let (next, later) ← rest returned
      .ok (next, .dispatch methodId body later)) := by
  intro thread hflag
  obtain ⟨returned, body, hbody, hreturned, hkept, hinner⟩ :=
    dispatchNumbered_returns internals regs lookup (hhandler thread.dispatches)
      horiginal methodId { thread with dispatches := thread.dispatches + 1 } hflag
  obtain ⟨next, log, hrun, hcurrent, hnext, hlog⟩ := hrest returned hkept.flag
  refine ⟨next, .dispatch methodId body log, ?_, hcurrent.trans hreturned,
    hkept.trans hnext, ⟨hinner.disciplined, hlog.disciplined⟩, ?_⟩
  · simp only [dispatchRust, bind, Except.bind, hbody, hrun]
  · intro hfixed inside active hentered
    exact ⟨hinner.replays hfixed inside active hentered,
      hinner.guarded hfixed inside active hentered,
      (hlog.of_kept hkept).guarded hfixed inside active hentered⟩

/-- A change to the hooks from elsewhere, and what follows it. -/
theorem kept_world {change : HookState → HookState} {thread next : Thread} {log : Log}
    (hchange : fixed → KeepsHooks change)
    (hkept : Kept fixed thread.holdsRegistry (change thread.hooks) next)
    (hlog : LogHolds fixed (change thread.hooks) log) :
    Kept fixed thread.holdsRegistry thread.hooks next ∧
      LogHolds fixed thread.hooks log := by
  have hworld : Kept fixed thread.holdsRegistry thread.hooks
      { thread with hooks := change thread.hooks, flag := .unused } :=
    ⟨rfl, rfl, fun hfixed => (hchange hfixed thread.hooks).1,
      fun hfixed => (hchange hfixed thread.hooks).2⟩
  exact ⟨hworld.trans hkept, LogHolds.of_kept hlog hworld⟩

end Actions

mutual

/-- Game code leaves the thread as it found it, whatever it enters. -/
theorem Code.run_balanced (internals : Internals) (fixed : Prop) :
    (code : Code) → (fixed → code.HooksFixed) → Balanced fixed (code.run internals)
  | .ret, _ => fun thread hflag =>
      ⟨thread, .nil, rfl, rfl, kept_self hflag, logHolds_nil thread.hooks⟩
  | .world change rest, hfixed => fun thread hflag => by
      obtain ⟨next, log, hrun, hcurrent, hkept, hlog⟩ :=
        rest.run_balanced internals fixed (fun h => (hfixed h).2)
          { thread with hooks := change thread.hooks } hflag
      exact ⟨next, log, hrun, hcurrent, kept_world (fun h => (hfixed h).1) hkept hlog⟩
  | .enter methodId regs lookup handler original rest, hfixed =>
      balanced_enter internals methodId regs lookup
        (handler.run_serves internals fixed fun h => (hfixed h).1)
        (original.run_balanced internals fixed fun h => (hfixed h).2.1)
        (rest.run_balanced internals fixed fun h => (hfixed h).2.2)

theorem Script.run_serves (internals : Internals) (fixed : Prop) :
    (script : Script) → (fixed → script.HooksFixed) → (dispatch : ℕ) →
      Serves fixed dispatch (script.run internals dispatch)
  | .ret, _, dispatch => serves_ret dispatch
  | .trap, _, dispatch => serves_ret dispatch
  | .world change rest, hfixed, dispatch => fun thread context below hflag hcurrent => by
      obtain ⟨next, log, later, hrun, htop, hkept, hlog⟩ :=
        rest.run_serves internals fixed (fun h => (hfixed h).2) dispatch
          { thread with hooks := change thread.hooks } context below hflag hcurrent
      exact ⟨next, log, later, hrun, htop,
        kept_world (fun h => (hfixed h).1) hkept hlog⟩
  | .context call rest, hfixed, dispatch =>
      serves_contextCall internals call (rest.run_serves internals fixed hfixed dispatch)
  | .callOriginal original result rest, hfixed, dispatch =>
      serves_callOriginalNow result
        (original.run_balanced internals fixed fun h => (hfixed h).1)
        (rest.run_serves internals fixed (fun h => (hfixed h).2) dispatch)
  | .invoke code rest, hfixed, dispatch =>
      serves_invoke (code.run_balanced internals fixed fun h => (hfixed h).1)
        (rest.run_serves internals fixed (fun h => (hfixed h).2) dispatch)

end

/-! ## A handler that re-enters its own method -/

/-- A thread of a process with one hook. -/
def sampleThread : Thread where
  hooks := (installHook OneHookPerMethod.sampleEnv ⟨some 0x100000, some 0x200000⟩
    (HookState.initial OneHookPerMethod.sampleMemory) 0x100 0 1).1
  current := []
  flag := .unused
  holdsRegistry := false
  dispatches := 0

def sampleRegs : RegArgs :=
  ⟨0, fun _ => 0, fun _ => zeroFloat, 0, 0, zeroFloat⟩

/-- The handler reads an argument, calls the original, which enters the hooked method
again, and traps. -/
def sampleTree : Code :=
  .enter 0 sampleRegs ⟨false, true⟩
    (.context (.hookArg 0)
      (.callOriginal (.enter 0 sampleRegs ⟨false, true⟩ .ret .ret .ret) (0, zeroFloat)
        .trap))
    .ret .ret

/-! ## Results -/

/-- Reentry guard.  In every call tree over a fixed set of hooks that starts with all
flags clear, a dispatch inside a dispatch of the same slot runs the trampoline of the
slot once and no handler, no handler is active twice, and all flags are clear at the
end. -/
theorem nested_dispatch_guarded (internals : Internals) (code : Code)
    (hfixed : code.HooksFixed) (thread : Thread) (hflag : thread.flag = .unused)
    (hclear : ∀ slot, thread.hooks.reentry slot = false) :
    ∃ next log, code.run internals thread = .ok (next, log) ∧
      (∀ slot, next.hooks.reentry slot = false) ∧
      log.Guarded thread.hooks.slots [] [] := by
  obtain ⟨next, log, hrun, -, hkept, hlog⟩ :=
    code.run_balanced internals True (fun _ => hfixed) thread hflag
  refine ⟨next, log, hrun, ?_, hlog.guarded trivial [] [] ⟨nofun, nofun⟩⟩
  rw [hkept.reentry trivial]
  exact hclear

theorem sampleTree_guarded :
    ∃ next log,
      sampleTree.run OneHookPerMethod.sampleEnv.internals sampleThread =
        .ok (next, log) ∧
      (∀ slot, next.hooks.reentry slot = false) ∧
      log.Guarded sampleThread.hooks.slots [] [] := by
  apply nested_dispatch_guarded OneHookPerMethod.sampleEnv.internals sampleTree
  · simp only [sampleTree, Code.HooksFixed, Script.HooksFixed, and_self]
  · rfl
  · decide +kernel

/-- Every call tree runs without a borrow error or an underflow of `CURRENT`, whoever
uses `CURRENT` finds it free and with the context of its own dispatch on top, and the
stack is at the end what it was at the start. -/
theorem context_stack_disciplined (internals : Internals) (code : Code)
    (thread : Thread) (hflag : thread.flag = .unused) :
    ∃ next log, code.run internals thread = .ok (next, log) ∧
      next.current = thread.current ∧ next.flag = .unused ∧ log.Disciplined := by
  obtain ⟨next, log, hrun, hcurrent, hkept, hlog⟩ :=
    code.run_balanced internals False nofun thread hflag
  exact ⟨next, log, hrun, hcurrent, hkept.flag, hlog.disciplined⟩

theorem sampleTree_disciplined :
    ∃ next log,
      sampleTree.run OneHookPerMethod.sampleEnv.internals sampleThread =
        .ok (next, log) ∧
      next.current = sampleThread.current ∧ next.flag = .unused ∧ log.Disciplined :=
  context_stack_disciplined OneHookPerMethod.sampleEnv.internals sampleTree sampleThread
    rfl

end FrogAgent.CallTree
