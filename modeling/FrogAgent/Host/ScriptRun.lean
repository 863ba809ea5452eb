import FrogAgent.Host.CompareAndWrite
import FrogAgent.Host.GuestAbi
import FrogAgent.Host.PermanentWrites
import FrogAgent.Lib.Run

/-!
# What a script reads back

A script calls host functions in any order, with the game running in between and inside the
methods that are called.  A write that returned `OK` is committed, and every other call
leaves the process alone.  Where the game does not interfere, a read answers what was
committed last, whichever of the three functions wrote it and however many calls failed.
-/

namespace FrogAgent.ScriptRun

open FrogAgent.Buffer
open FrogAgent.ByteMemory
open FrogAgent.CompareAndWrite (hostRead_process readAnswer_fixed)
open FrogAgent.Error
open FrogAgent.GuestAbi
open FrogAgent.GuestCalls
open FrogAgent.JournalRevert
open FrogAgent.MemHost
open FrogAgent.PermanentWrites
open FrogAgent.Run
open FrogAgent.TypedValue

/-! ## Runs -/

/-- A script sets its memory as it likes and calls a host function, or the game runs.  The
original that `call_original` runs is a step of the game too. -/
inductive Event where
  | turn (guest : Option (List UInt8)) (call : HostCall)
  | game (memory : Memory UInt8)

/-- A state with the writes that were committed so far. -/
structure Session where
  state : GuestState
  committed : List (Patch UInt8)

/-- The writing function that was called, if it is one of the three. -/
def written (guest : Option (List UInt8)) : HostCall → Option WriteCall
  | .write addr ty inPtr inLen => some (.write guest addr ty inPtr inLen)
  | .writeIf addr ty expPtr expLen newPtr newLen =>
      some (.writeIf guest addr ty expPtr expLen newPtr newLen)
  | .writePermanent addr ty inPtr inLen => some (.writePermanent guest addr ty inPtr inLen)
  | _ => none

/-- What a call asks to be written, if it returned `OK`. -/
def committedBy (guest : Option (List UInt8)) (call : HostCall) (status : ℤ) :
    List (Patch UInt8) :=
  if status = Status.ok then
    (((written guest call).bind WriteCall.asked).map fun write => write.patch).toList
  else []

def withGuest (state : GuestState) (guest : Option (List UInt8)) : GuestState :=
  { state with caller := { state.caller with guest := guest } }

def step (host : Host) (session : Session) : Event → Option Session
  | .turn guest call =>
      match hostCall host (withGuest session.state guest) call with
      | .error _ => none
      | .ok (next, status) =>
          some ⟨next, session.committed ++ committedBy guest call status⟩
  | .game memory => some { session with state := session.state.setProcess memory }

/-- The game leaves these addresses alone, also inside a method that is invoked. -/
def Spares (host : Host) (region : Set ℕ) (session : Session) (event : Event) : Prop :=
  match event with
  | .game memory => AgreeOn region memory session.state.caller.process
  | .turn _ (.invoke ..) => ∀ next, step host session event = some next →
      AgreeOn region next.state.caller.process session.state.caller.process
  | .turn _ _ => True

/-! ## One call -/

/-- Whatever is returned, the process is as it was. -/
def Keeps (process : Memory UInt8) (outcome : Outcome) : Prop :=
  ∀ answer, outcome = .ok answer → answer.1.caller.process = process

section Keeps

variable {process : Memory UInt8} {answer : GuestState × ℤ}

theorem keeps_ok (hkept : answer.1.caller.process = process) :
    Keeps process (.ok answer) := by
  intro other hother
  cases hother
  exact hkept

theorem keeps_error (fault : Fault) : Keeps process (.error fault) := by
  intro answer hanswer
  cases hanswer

theorem keeps_bind {α : Type} {first : Except Fault α} {rest : α → Outcome}
    (hrest : ∀ value, Keeps process (rest value)) : Keeps process (first >>= rest) := by
  cases first with
  | error fault => exact keeps_error fault
  | ok value => exact hrest value

variable (state : GuestState)

theorem process_reply (ptr : BitVec 32) (bytes : List UInt8) (failed status : ℤ) :
    (reply state ptr bytes failed status).1.caller.process = state.caller.process := by
  rw [reply]
  split <;> rfl

theorem process_replyWithin (outPtr outCap : BitVec 32) (bytes : List UInt8)
    (failed status : ℤ) :
    (replyWithin state outPtr outCap bytes failed status).1.caller.process =
      state.caller.process := by
  rw [replyWithin]
  split
  · rfl
  · exact process_reply state outPtr bytes failed status

theorem process_replyUnsigned (outBuf outCap : BitVec 32) (bytes : List UInt8)
    (status : ℤ) :
    (replyUnsigned state outBuf outCap bytes status).1.caller.process =
      state.caller.process := by
  rw [replyUnsigned]
  split
  · rfl
  · split
    · rfl
    · split <;> rfl

theorem keeps_replyHandles (outBuf cap : BitVec 32) (handles : List UInt64) :
    Keeps state.caller.process (replyHandles state outBuf cap handles) :=
  keeps_bind fun _ => keeps_ok (process_reply state outBuf _ _ _)

end Keeps

/-- A call that neither writes nor invokes leaves the process alone. -/
theorem keeps_hostCall (host : Host) (state : GuestState) {call : HostCall}
    (hwritten : written state.guest call = none)
    (hinvoke : ∀ methodPtr instancePtr argsBuf argsLen outBuf outCap,
      call ≠ .invoke methodPtr instancePtr argsBuf argsLen outBuf outCap) :
    Keeps state.caller.process (hostCall host state call) := by
  cases call with
  | write | writeIf | writePermanent => cases hwritten
  | invoke methodPtr instancePtr argsBuf argsLen outBuf outCap =>
      exact absurd rfl (hinvoke methodPtr instancePtr argsBuf argsLen outBuf outCap)
  | log ptr len =>
      refine keeps_ok ?_
      rw [hostLog]
      split <;> rfl
  | read addr ty len outPtr outCap =>
      exact keeps_ok (hostRead_process host state addr ty len outPtr outCap)
  | scan patPtr patLen outPtr outCapCount =>
      rw [hostCall, hostScan]
      split
      · exact keeps_ok rfl
      · split
        · exact keeps_error _
        · exact keeps_bind fun _ => keeps_ok (process_reply state outPtr _ _ _)
  | regions outPtr outCapCount =>
      exact keeps_bind fun _ => keeps_ok (process_reply state outPtr _ _ _)
  | findClass | fieldInfo | staticField | findMethod =>
      refine keeps_ok ?_
      exact congrArg (fun after => after.caller.process) (lookupByName_fst state _ _ _ _)
  | getField object klass namePtr nameLen outPtr outCap =>
      refine keeps_ok ?_
      rw [hostGetField]
      split
      · rfl
      · split
        · rfl
        · exact process_replyWithin state outPtr outCap _ _ _
  | listMethods klass outBuf outCapCount => exact keeps_replyHandles state outBuf _ _
  | listInstances klass outBuf outCapCount => exact keeps_replyHandles state outBuf _ _
  | hookArg argIdx outBuf outCap =>
      refine keeps_ok ?_
      rw [hostHookArg]
      split
      · rfl
      · exact process_replyUnsigned state outBuf outCap _ _
  | callOriginal outBuf outCap =>
      refine keeps_ok ?_
      rw [hostCallOriginal]
      split
      · rfl
      · dsimp only
        split
        · rfl
        · exact process_replyUnsigned _ outBuf outCap _ _
  | hookSetArg argIdx valBuf valLen =>
      rw [hostCall, hostHookSetArg]
      split
      · exact keeps_ok rfl
      · refine keeps_bind fun buf => ?_
        split
        · exact keeps_ok rfl
        · split
          · exact keeps_ok rfl
          · refine keeps_bind fun _ => ?_
            dsimp only
            split <;> exact keeps_ok rfl
  | hookSetReturn valBuf valLen =>
      rw [hostCall, hostHookSetReturn]
      split
      · exact keeps_ok rfl
      · refine keeps_bind fun buf => ?_
        split
        · exact keeps_ok rfl
        · refine keeps_bind fun _ => ?_
          split
          · split <;> exact keeps_ok rfl
          · dsimp only
            split <;> exact keeps_ok rfl

/-- The writes leave the process alone, unless they return `OK`. -/
def Commits (process : Memory UInt8) (answer : Caller × ℤ) : Prop :=
  answer.2 ≠ Status.ok → answer.1.process = process

section Commits

variable {backend : Backend} {caller : Caller} {addr : BitVec 64}

theorem commits_journalledWrite {T : Type} [MemValue T] (value : T) :
    Commits caller.process (journalledWrite backend caller addr value) := by
  intro hrefused
  rw [journalledWrite] at hrefused ⊢
  split at hrefused
  · exact absurd rfl hrefused
  · rfl

theorem commits_dispatch {process : Memory UInt8} (ty : ValType)
    {fixed : (T : Type) → [MemValue T] → [PartialEq T] → Caller × ℤ} {other : Caller × ℤ}
    (hfixed : ∀ (T : Type) [MemValue T] [PartialEq T], Commits process (fixed T))
    (hother : Commits process other) : Commits process (ty.dispatch fixed other) := by
  cases ty with
  | u8 | u16 | u32 | u64 | i8 | i16 | i32 | i64 | f32 | f64 => exact hfixed _
  | bytes | cstr => exact hother

theorem commits_same (status : ℤ) : Commits caller.process (caller, status) := fun _ => rfl

theorem commits_hostWriteTyped (T : Type) [MemValue T] (inPtr inLen : BitVec 32) :
    Commits caller.process (hostWriteTyped T backend caller addr inPtr inLen) := by
  rw [hostWriteTyped]
  split
  · exact commits_same _
  · split
    · exact commits_same _
    · exact commits_journalledWrite _

theorem commits_hostWriteIfTyped (T : Type) [MemValue T] [PartialEq T]
    (expBytes newBytes : List UInt8) :
    Commits caller.process (hostWriteIfTyped T backend caller addr expBytes newBytes) := by
  rw [hostWriteIfTyped]
  split
  · split
    · exact commits_same _
    · split
      · exact commits_journalledWrite _
      · exact commits_same _
  · exact commits_same _

theorem commits_hostWritePermanentTyped (T : Type) [MemValue T] (inPtr inLen : BitVec 32) :
    Commits caller.process (hostWritePermanentTyped T backend caller addr inPtr inLen) := by
  rw [hostWritePermanentTyped]
  split
  · exact commits_same _
  · split
    · exact commits_same _
    · split
      · intro hrefused
        exact absurd rfl hrefused
      · exact commits_same _

theorem commits_perform (call : WriteCall) :
    Commits caller.process (call.perform backend caller) := by
  cases call with
  | write guest addr ty inPtr inLen =>
      rw [WriteCall.perform, hostWrite]
      split
      · exact fun _ => rfl
      · exact commits_dispatch _ (fun T _ _ => commits_hostWriteTyped T inPtr inLen)
          fun _ => rfl
  | writeIf guest addr ty expPtr expLen newPtr newLen =>
      rw [WriteCall.perform, hostWriteIf]
      split
      · exact commits_dispatch _ (fun T _ _ => commits_hostWriteIfTyped T _ _) fun _ => rfl
      · exact fun _ => rfl
  | writePermanent guest addr ty inPtr inLen =>
      rw [WriteCall.perform, hostWritePermanent]
      split
      · exact fun _ => rfl
      · exact commits_dispatch _ (fun T _ _ => commits_hostWritePermanentTyped T inPtr inLen)
          fun _ => rfl

end Commits

/-- A writing call commits what it asks for, or nothing. -/
theorem process_written (host : Host) (state : GuestState) {call : HostCall}
    {write : WriteCall} (hwrite : written state.guest call = some write) :
    ∃ after status, hostCall host state call = .ok (after, status) ∧
      after.caller.process =
        storeAll state.caller.process (committedBy state.guest call status) := by
  have hcall : hostCall host state call =
      .ok (state.wrote (write.perform host.backend state.caller)) := by
    cases call <;> cases hwrite <;> rfl
  refine ⟨_, _, hcall, ?_⟩
  by_cases hok : (write.perform host.backend state.caller).2 = Status.ok
  · obtain ⟨marked, hasked, hperforms⟩ := perform_performs hok
    have hprocess := congrArg Prod.fst hperforms.logged_eq
    rw [committedBy, if_pos hok, hwrite, Option.bind_some, hasked]
    exact hprocess
  · rw [committedBy, if_neg hok]
    exact commits_perform write hok

/-! ## A run -/

/-- On the region the process is what the committed writes made of it. -/
def Follows (region : Set ℕ) (memory : Memory UInt8) (session : Session) : Prop :=
  AgreeOn region session.state.caller.process (storeAll memory session.committed)

section Run

variable {host : Host} {region : Set ℕ} {memory : Memory UInt8} {session next : Session}

/-- Without a write of the script, and where the game spares the region, nothing happens
there. -/
theorem Follows.kept (hfollows : Follows region memory session)
    (hkept : AgreeOn region next.state.caller.process session.state.caller.process)
    (hcommitted : next.committed = session.committed) : Follows region memory next := by
  rw [Follows, hcommitted]
  exact hkept.trans hfollows

theorem step_turn {guest : Option (List UInt8)} {call : HostCall}
    (hstep : step host session (.turn guest call) = some next) :
    ∃ status, hostCall host (withGuest session.state guest) call = .ok (next.state, status) ∧
      next.committed = session.committed ++ committedBy guest call status := by
  rw [step] at hstep
  split at hstep
  · cases hstep
  · next answer status hcall =>
      cases hstep
      exact ⟨status, hcall, rfl⟩

theorem committedBy_of_unwritten {guest : Option (List UInt8)} {call : HostCall}
    (hwritten : written guest call = none) (status : ℤ) :
    committedBy guest call status = [] := by
  rw [committedBy, hwritten]
  exact ite_self []

theorem Follows.step {event : Event} (hfollows : Follows region memory session)
    (hspares : Spares host region session event)
    (hstep : step host session event = some next) : Follows region memory next := by
  cases event with
  | game changed =>
      cases hstep
      exact hfollows.kept hspares rfl
  | turn guest call =>
      obtain ⟨status, hcall, hcommitted⟩ := step_turn hstep
      cases hwritten : written guest call with
      | some write =>
          obtain ⟨after, answer, hwrote, hprocess⟩ :=
            process_written host (withGuest session.state guest) hwritten
          rw [hcall] at hwrote
          cases hwrote
          rw [Follows, hcommitted, storeAll_append, hprocess]
          exact AgreeOn.storeAll hfollows _
      | none =>
          rw [committedBy_of_unwritten hwritten, List.append_nil] at hcommitted
          by_cases hinvoke : ∃ methodPtr instancePtr argsBuf argsLen outBuf outCap,
              call = .invoke methodPtr instancePtr argsBuf argsLen outBuf outCap
          · obtain ⟨_, _, _, _, _, _, rfl⟩ := hinvoke
            exact hfollows.kept (hspares next hstep) hcommitted
          · push Not at hinvoke
            have hkeeps := keeps_hostCall host (withGuest session.state guest) hwritten hinvoke
            refine hfollows.kept (fun address _ => ?_) hcommitted
            exact congrFun (hkeeps _ hcall) address

theorem follows_run {state : GuestState} {events : List Event}
    (hspares : Meets (step host) (Spares host region) ⟨state, []⟩ events)
    (hrun : run (step host) ⟨state, []⟩ events = some session) :
    Follows region state.caller.process session :=
  hspares.invariant (fun _ _ => rfl) (fun _ _ _ hfollows hspared hstep =>
    hfollows.step hspared hstep) (visits_end hrun)

end Run

/-- After any run that spares a location, a read of the location answers the bytes that
were committed there last, and the bytes the process started with where nothing was
committed. -/
theorem read_answers_committed {host : Host} {region : Set ℕ} {state : GuestState}
    {events : List Event} {session : Session}
    (hspares : Meets (step host) (Spares host region) ⟨state, []⟩ events)
    (hrun : run (step host) ⟨state, []⟩ events = some session)
    {addr : BitVec 64} {ty : BitVec 32} {valType : ValType} {width : ℕ}
    (hty : typeOf ty = some valType) (hwidth : valType.fixedWidth = some width)
    (hregion : ∀ address, addr.toNat ≤ address → address < addr.toNat + width →
      address ∈ region)
    (hreadable : host.backend.readable addr.toNat width = true)
    (hlinear : session.state.Linear) {outPtr outCap : BitVec 32}
    (hcap : width ≤ clamped outCap) (hroom : HasRoom session.state outPtr width)
    (len : BitVec 32) :
    ∃ after, hostCall host session.state (.read addr ty len outPtr outCap) =
        .ok (after, width) ∧
      (standing after outPtr).take width = (List.range width).map fun offset =>
        (lastCell session.committed (addr.toNat + offset)).getD
          (state.caller.process (addr.toNat + offset)) := by
  have hfollows := follows_run hspares hrun
  let bytes := load session.state.caller.process addr.toNat width
  have hlength : bytes.length = width := length_load _ _ _
  have hanswer : readAnswer host.backend session.state.caller.process addr valType len =
      .ok bytes := readAnswer_fixed len hwidth hreadable
  rw [← hlength] at hroom
  obtain ⟨data, hreply, -, rest, hrest⟩ :=
    reply_of_room hlinear hroom Status.errBufTooSmall width
  refine ⟨session.state.setGuest data, ?_, ?_⟩
  · have htag : ValType.fromTag (UInt8.ofBitVec (ty.truncate 8)) = some valType := hty
    have hlarge : ¬ clamped outCap < width := Nat.not_lt.mpr hcap
    simp only [hostCall, hostRead, htag, hanswer, replyWithin, hlength, if_neg hlarge, hreply]
  · rw [hrest, List.take_left' hlength]
    refine List.map_congr_left fun offset hoffset => ?_
    have hmem : addr.toNat + offset ∈ region :=
      hregion _ (Nat.le_add_right _ _) (by
        have hlt := List.mem_range.mp hoffset
        omega)
    rw [hfollows _ hmem, storeAll_eq_lastCell]

/-- Two writes of a byte, the second of them conditional, the game elsewhere, and a write
that is refused. -/
def sampleEvents : List Event :=
  [.turn (some [7, 9]) (.write 0x2000 0 0 1),
    .turn (some [7, 9]) (.writeIf 0x2000 0 0 1 1 1),
    .game fun address => if address = 0x2000 then 9 else 1,
    .turn (some [5]) (.write 0x2000 0 5 1),
    .turn (some [0, 0]) (.log 0 0)]

/-- A process in which every address can be read and written. -/
def flatHost : Host := { sampleHost with backend := flatBackend }

theorem read_answers_committed_sample :
    ∃ session, run (step flatHost) ⟨sampleState [], []⟩ sampleEvents = some session ∧
      ∃ after, hostCall flatHost session.state (.read 0x2000 0 0 1 1) = .ok (after, 1) ∧
        (standing after 1).take 1 = [9] := by
  have hspares : Meets (step flatHost) (Spares flatHost {0x2000}) ⟨sampleState [], []⟩
      sampleEvents := by
    refine meets_cons trivial fun first hfirst => meets_cons trivial fun second hsecond => ?_
    cases hfirst
    cases hsecond
    refine meets_cons ?_ fun third _ => meets_cons trivial fun fourth _ =>
      meets_cons trivial fun fifth _ => meets_nil fifth
    rintro address rfl
    rfl
  have hty : typeOf 0 = some .u8 := rfl
  have hregion : ∀ address, (0x2000 : BitVec 64).toNat ≤ address →
      address < (0x2000 : BitVec 64).toNat + 1 → address ∈ ({0x2000} : Set ℕ) := by
    intro address hlow hhigh
    have hlow : 0x2000 ≤ address := hlow
    have hhigh : address < 0x2000 + 1 := hhigh
    exact Set.mem_singleton_iff.mpr (by omega)
  refine ⟨_, rfl, ?_⟩
  refine read_answers_committed hspares rfl hty rfl hregion rfl ?_ ?_ ?_ 0
  · intro data hdata
    cases hdata
    decide
  · decide
  · exact ⟨[0, 0], rfl, by decide⟩

end FrogAgent.ScriptRun
