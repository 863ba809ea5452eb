import FrogAgent.Host.MemHost
import FrogAgent.Lib.UndoLog

/-!
# Reverting a script's journalled writes

A script is seen through its `mem.write` and `mem.write_if` calls.  The module
header of `journal.rs` promises that the journal lets the orchestrator restore
the world as it was before the script, and the design note adds that overlapping
writes resolve themselves.  The journal is keyed by start address only and the
revert step of `registry_reload` iterates it in hash-map order, so the promise
holds exactly for the undoable write sequences of `Lib.UndoLog`.
-/

namespace FrogAgent.JournalRevert

open FrogAgent.ByteMemory
open FrogAgent.Journal
open FrogAgent.MemHost
open FrogAgent.TypedValue
open FrogAgent.UndoLog

/-- One journalled write call, with the guest memory at the time of the call. -/
inductive ScriptCall where
  | write (guest : Option (List UInt8)) (addr : BitVec 64)
      (ty inPtr inLen : BitVec 32)
  | writeIf (guest : Option (List UInt8)) (addr : BitVec 64)
      (ty expPtr expLen newPtr newLen : BitVec 32)

def runCall (backend : Backend) (caller : Caller) : ScriptCall → Caller
  | .write guest addr ty inPtr inLen =>
      (hostWrite backend { caller with guest := guest } addr ty inPtr inLen).1
  | .writeIf guest addr ty expPtr expLen newPtr newLen =>
      (hostWriteIf backend { caller with guest := guest } addr ty
        expPtr expLen newPtr newLen).1

def runScript (backend : Backend) (caller : Caller)
    (calls : List ScriptCall) : Caller :=
  calls.foldl (runCall backend) caller

/-- A freshly spawned script: empty journal, nothing written yet. -/
def spawnCaller (runtimeId : ℕ) (memory : Memory UInt8) : Caller :=
  ⟨⟨runtimeId, WriteJournal.new⟩, none, memory⟩

/-- Step 2 of `registry_reload`: write every entry back; a refused write is
logged and skipped. -/
def revertEntries (backend : Backend) (memory : Memory UInt8)
    (entries : List (Patch UInt8)) : Memory UInt8 :=
  entries.foldl
    (fun memory entry => (rawWrite backend memory entry).getD memory) memory

/-- Whatever the iteration order of the extracted entries, writing them back
leaves the memory the script started from. -/
def RevertRestores (backend : Backend) (runtimeId : ℕ)
    (original : Memory UInt8) (calls : List ScriptCall) : Prop :=
  ∀ order,
    order.Perm (runScript backend (spawnCaller runtimeId original)
      calls).data.writeJournal.takeEntries.1 →
    revertEntries backend
      (runScript backend (spawnCaller runtimeId original) calls).process order =
        original

/-! ## What a call writes -/

/-- The value type selected by the type argument of a call. -/
def typeOf (ty : BitVec 32) : Option ValType :=
  ValType.fromTag (UInt8.ofBitVec (ty.truncate 8))

/-- The range a call is about, when its type has a fixed width. -/
def ScriptCall.target : ScriptCall → Option (ℕ × ℕ)
  | .write _ addr ty _ _ | .writeIf _ addr ty _ _ _ _ =>
      (typeOf ty).bind fun ty =>
        ty.dispatch (fun T _ _ => some (addr.toNat, MemValue.width T)) none

def writeTyped (T : Type) [MemValue T] (addr : BitVec 64)
    (bytes : List UInt8) : Option (Patch UInt8) :=
  (MemValue.fromLeBytesSpine (T := T) bytes).map fun value =>
    ⟨addr.toNat, MemValue.toLeBytesBuf value⟩

def writeIfTyped (T : Type) [MemValue T] [PartialEq T]
    (memory : Memory UInt8) (addr : BitVec 64)
    (expBytes newBytes : List UInt8) : Option (Patch UInt8) := do
  let expected ← MemValue.fromLeBytesSpine (T := T) expBytes
  let new ← MemValue.fromLeBytesSpine (T := T) newBytes
  let current ← MemValue.fromLeBytesSpine (T := T)
    (load memory addr.toNat (MemValue.width T))
  if PartialEq.eq current expected then
    some ⟨addr.toNat, MemValue.toLeBytesBuf new⟩
  else none

/-- The write a call performs on a memory, if it performs one: the arguments
must decode, and for `mem.write_if` the current value must be the expected one. -/
def ScriptCall.performs (memory : Memory UInt8) :
    ScriptCall → Option (Patch UInt8)
  | .write guest addr ty inPtr inLen => do
      let ty ← typeOf ty
      let bytes ← readGuest guest inPtr inLen
      ty.dispatch (fun T _ _ => writeTyped T addr bytes) none
  | .writeIf guest addr ty expPtr expLen newPtr newLen => do
      let ty ← typeOf ty
      let expBytes ← readGuest guest expPtr expLen
      let newBytes ← readGuest guest newPtr newLen
      ty.dispatch
        (fun T _ _ => writeIfTyped T memory addr expBytes newBytes) none

/-- The writes a sequence of calls performs, in order. -/
def performedWrites : Memory UInt8 → List ScriptCall → List (Patch UInt8)
  | _, [] => []
  | memory, call :: calls =>
      match call.performs memory with
      | none => performedWrites memory calls
      | some write => write :: performedWrites (store memory write) calls

/-- Every backend access for the range of a call succeeds. -/
def CallSucceeds (backend : Backend) (call : ScriptCall) : Prop :=
  ∀ target ∈ call.target, backend.readable target.1 target.2 = true ∧
    backend.writable target.1 target.2 = true

def BackendSucceeds (backend : Backend) (calls : List ScriptCall) : Prop :=
  ∀ call ∈ calls, CallSucceeds backend call

/-! ## The journal is the first-touch log of the performed writes -/

/-- The two pieces of state the revert step depends on. -/
def logged (caller : Caller) : Memory UInt8 × List (Patch UInt8) :=
  (caller.process, caller.data.writeJournal.entries)

/-- How a performed or skipped write moves the logged state. -/
def advance (state : Memory UInt8 × List (Patch UInt8)) :
    Option (Patch UInt8) → Memory UInt8 × List (Patch UInt8)
  | none => state
  | some write => UndoLog.step state write

theorem length_toLeBytesBuf {T : Type} [MemValue T] {bytes : List UInt8}
    {value : T} (hvalue : MemValue.fromLeBytesSpine bytes = some value) :
    (MemValue.toLeBytesBuf value).length = MemValue.width T := by
  have hwide : MemValue.width T ≤ bytes.length := by
    have hsome := MemValue.fromLeBytesSpine_isSome (T := T) bytes
    rw [hvalue] at hsome
    simpa using hsome.symm
  rw [MemValue.toLeBytesBuf_fromLeBytesSpine bytes value hvalue,
    List.length_take]
  omega

theorem logged_journalledWrite {T : Type} [MemValue T] {backend : Backend}
    (caller : Caller) (addr : BitVec 64) {bytes : List UInt8} {value : T}
    (hvalue : MemValue.fromLeBytesSpine bytes = some value)
    (hreadable : backend.readable addr.toNat (MemValue.width T) = true)
    (hwritable : backend.writable addr.toNat (MemValue.width T) = true) :
    logged (journalledWrite backend caller addr value).1 =
      UndoLog.step (logged caller)
        ⟨addr.toNat, MemValue.toLeBytesBuf value⟩ := by
  have hlength := length_toLeBytesBuf hvalue
  have hread : rawRead backend caller.process addr.toNat (MemValue.width T) =
      some (load caller.process addr.toNat (MemValue.width T)) := by
    simp [rawRead, hreadable]
  have hentries := WriteJournal.entries_touch (rawRead backend caller.process)
    caller.data.writeJournal addr.toNat (MemValue.width T) hread
  simp only [journalledWrite, MemValue.fixedWidth_valType, Option.getD_some,
    MemValue.width_pos, if_true, apiWrite, rawWrite, hlength, hwritable]
  simp only [logged, UndoLog.step, UndoLog.record, UndoLog.capture, hlength,
    hentries]

/-- The host state after the capture of a write. -/
def captured (backend : Backend) (caller : Caller) :
    Option (Patch UInt8) → HostState
  | none => caller.data
  | some write =>
      { caller.data with
        writeJournal := (caller.data.writeJournal.touch
          (rawRead backend caller.process) write.start write.cells.length).1 }

theorem captured_unreadable {backend : Backend} (caller : Caller)
    {write : Patch UInt8}
    (hreadable : backend.readable write.start write.cells.length = false) :
    captured backend caller (some write) = caller.data := by
  have hread : rawRead backend caller.process write.start write.cells.length =
      none := by
    simp [rawRead, hreadable]
  simp only [captured, WriteJournal.touch, hread]
  split <;> rfl

theorem data_journalledWrite {T : Type} [MemValue T] (backend : Backend)
    (caller : Caller) (addr : BitVec 64) {bytes : List UInt8} {value : T}
    (hvalue : MemValue.fromLeBytesSpine bytes = some value) :
    (journalledWrite backend caller addr value).1.data =
      captured backend caller
        (some ⟨addr.toNat, MemValue.toLeBytesBuf value⟩) := by
  simp only [journalledWrite, captured, MemValue.fixedWidth_valType,
    Option.getD_some, MemValue.width_pos, if_true, length_toLeBytesBuf hvalue]
  split <;> rfl

/-! ## What a typed handler does -/

/-- Nothing, nothing because the comparison cannot read, or the journalled write; with the
write that the call stands for. -/
inductive TypedEffect (T : Type) [MemValue T] (backend : Backend) (caller : Caller)
    (addr : BitVec 64) : Caller → Option (Patch UInt8) → Prop where
  | skipped : TypedEffect T backend caller addr caller none
  | unreadable {write : Patch UInt8} (hstart : write.start = addr.toNat)
      (hlength : write.cells.length = MemValue.width T)
      (hreadable : backend.readable addr.toNat (MemValue.width T) = false) :
      TypedEffect T backend caller addr caller (some write)
  | written {bytes : List UInt8} {value : T}
      (hvalue : MemValue.fromLeBytesSpine bytes = some value) :
      TypedEffect T backend caller addr (journalledWrite backend caller addr value).1
        (some ⟨addr.toNat, MemValue.toLeBytesBuf value⟩)

section TypedEffect

variable {T : Type} [MemValue T] {backend : Backend} {caller after : Caller}
variable {addr : BitVec 64} {write : Option (Patch UInt8)}

theorem TypedEffect.logged (heffect : TypedEffect T backend caller addr after write)
    (hreadable : backend.readable addr.toNat (MemValue.width T) = true)
    (hwritable : backend.writable addr.toNat (MemValue.width T) = true) :
    logged after = advance (logged caller) write := by
  cases heffect with
  | skipped => rfl
  | unreadable _ _ hunreadable =>
      rw [hreadable] at hunreadable
      cases hunreadable
  | written hvalue => exact logged_journalledWrite caller addr hvalue hreadable hwritable

theorem TypedEffect.data (heffect : TypedEffect T backend caller addr after write) :
    after.data = captured backend caller write := by
  cases heffect with
  | skipped => rfl
  | unreadable hstart hlength hunreadable =>
      refine (captured_unreadable caller ?_).symm
      rwa [hstart, hlength]
  | written hvalue => exact data_journalledWrite backend caller addr hvalue

end TypedEffect

theorem hostWriteTyped_effect (T : Type) [MemValue T] (backend : Backend)
    (caller : Caller) (addr : BitVec 64) (inPtr inLen : BitVec 32) :
    TypedEffect T backend caller addr
      (hostWriteTyped T backend caller addr inPtr inLen).1
      ((readGuest caller.guest inPtr inLen).bind (writeTyped T addr)) := by
  unfold hostWriteTyped
  cases readGuest caller.guest inPtr inLen with
  | none => exact .skipped
  | some bytes =>
      simp only [Option.bind_some, writeTyped]
      cases hvalue : MemValue.fromLeBytesSpine (T := T) bytes with
      | none => exact .skipped
      | some value => exact .written hvalue

theorem hostWriteIfTyped_effect (T : Type) [MemValue T] [PartialEq T]
    (backend : Backend) (caller : Caller) (addr : BitVec 64)
    (expBytes newBytes : List UInt8) :
    TypedEffect T backend caller addr
      (hostWriteIfTyped T backend caller addr expBytes newBytes).1
      (writeIfTyped T caller.process addr expBytes newBytes) := by
  unfold hostWriteIfTyped writeIfTyped
  cases MemValue.fromLeBytesSpine (T := T) expBytes with
  | none => exact .skipped
  | some expected =>
      cases hnew : MemValue.fromLeBytesSpine (T := T) newBytes with
      | none => exact .skipped
      | some new =>
          simp only [apiRead, rawRead, Option.bind_eq_bind, Option.bind_some]
          cases hreadable : backend.readable addr.toNat (MemValue.width T) with
          | false =>
              -- The comparison fails to read, and a capture would too.
              simp only [Bool.false_eq_true, if_false]
              cases MemValue.fromLeBytesSpine (T := T)
                  (load caller.process addr.toNat (MemValue.width T)) with
              | none => exact .skipped
              | some current =>
                  simp only [Option.bind_some]
                  split
                  · exact .unreadable rfl (length_toLeBytesBuf hnew) hreadable
                  · exact .skipped
          | true =>
              simp only [if_true]
              cases MemValue.fromLeBytesSpine (T := T)
                  (load caller.process addr.toNat (MemValue.width T)) with
              | none => exact .skipped
              | some current =>
                  simp only [Option.bind_some]
                  split
                  · exact .written hnew
                  · exact .skipped

/-! ## What a call does -/

/-- One call, under a succeeding backend, is one step of the undo log. -/
theorem logged_runCall {backend : Backend} (caller : Caller)
    (call : ScriptCall) (hsucceeds : CallSucceeds backend call) :
    logged (runCall backend caller call) =
      advance (logged caller) (call.performs caller.process) := by
  cases call with
  | write guest addr ty inPtr inLen =>
      simp only [CallSucceeds, ScriptCall.target, typeOf] at hsucceeds
      simp only [runCall, hostWrite, ScriptCall.performs, typeOf]
      cases hty : ValType.fromTag (UInt8.ofBitVec (ty.truncate 8)) with
      | none => rfl
      | some ty =>
          rw [hty] at hsucceeds
          cases ty <;>
            first
            | exact (hostWriteTyped_effect _ backend { caller with guest := guest }
                addr inPtr inLen).logged (hsucceeds _ rfl).1 (hsucceeds _ rfl).2
            | (cases readGuest guest inPtr inLen <;> rfl)
  | writeIf guest addr ty expPtr expLen newPtr newLen =>
      simp only [CallSucceeds, ScriptCall.target, typeOf] at hsucceeds
      simp only [runCall, hostWriteIf, ScriptCall.performs, typeOf]
      cases hty : ValType.fromTag (UInt8.ofBitVec (ty.truncate 8)) with
      | none => rfl
      | some ty =>
          rw [hty] at hsucceeds
          cases readGuest guest expPtr expLen with
          | none => rfl
          | some expBytes =>
              cases readGuest guest newPtr newLen with
              | none => rfl
              | some newBytes =>
                  cases ty <;>
                    first
                    | exact (hostWriteIfTyped_effect _ backend
                        { caller with guest := guest } addr expBytes
                        newBytes).logged (hsucceeds _ rfl).1 (hsucceeds _ rfl).2
                    | rfl

theorem logged_runScript {backend : Backend} (caller : Caller)
    (calls : List ScriptCall) (hsucceeds : BackendSucceeds backend calls) :
    logged (runScript backend caller calls) =
      (performedWrites caller.process calls).foldl UndoLog.step
        (logged caller) := by
  induction calls generalizing caller with
  | nil => rfl
  | cons call calls ih =>
      have hcall := logged_runCall caller call
        (hsucceeds call List.mem_cons_self)
      have hrest := ih (runCall backend caller call) fun other hother =>
        hsucceeds other (List.mem_cons_of_mem _ hother)
      have hprocess : (runCall backend caller call).process =
          (advance (logged caller) (call.performs caller.process)).1 :=
        congrArg Prod.fst hcall
      rw [runScript, List.foldl_cons]
      change logged (runScript backend (runCall backend caller call) calls) = _
      rw [hrest, hcall, hprocess, performedWrites]
      cases call.performs caller.process <;> rfl

/-- A call changes the host state by the capture of the write it performs. -/
theorem data_runCall (backend : Backend) (caller : Caller) (call : ScriptCall) :
    (runCall backend caller call).data =
      captured backend caller (call.performs caller.process) := by
  cases call with
  | write guest addr ty inPtr inLen =>
      simp only [runCall, hostWrite, ScriptCall.performs, typeOf]
      cases ValType.fromTag (UInt8.ofBitVec (ty.truncate 8)) with
      | none => rfl
      | some ty =>
          cases ty <;>
            first
            | exact (hostWriteTyped_effect _ backend { caller with guest := guest }
                addr inPtr inLen).data
            | (cases readGuest guest inPtr inLen <;> rfl)
  | writeIf guest addr ty expPtr expLen newPtr newLen =>
      simp only [runCall, hostWriteIf, ScriptCall.performs, typeOf]
      cases ValType.fromTag (UInt8.ofBitVec (ty.truncate 8)) with
      | none => rfl
      | some ty =>
          cases readGuest guest expPtr expLen with
          | none => rfl
          | some expBytes =>
              cases readGuest guest newPtr newLen with
              | none => rfl
              | some newBytes =>
                  cases ty <;>
                    first
                    | exact (hostWriteIfTyped_effect _ backend
                        { caller with guest := guest } addr expBytes
                        newBytes).data
                    | rfl

/-- A call that performs a write of a range the backend can read: the calls
whose capture succeeds unless the start address is already a key. -/
def Journals (backend : Backend) (memory : Memory UInt8) (call : ScriptCall) :
    Prop :=
  ∃ write, call.performs memory = some write ∧
    backend.readable write.start write.cells.length = true

/-- The journal is still empty after a call exactly when it was empty before
and the call journals nothing. -/
theorem entries_runCall_eq_nil (backend : Backend) (caller : Caller)
    (call : ScriptCall) :
    (runCall backend caller call).data.writeJournal.entries = [] ↔
      caller.data.writeJournal.entries = [] ∧
        ¬ Journals backend caller.process call := by
  rw [data_runCall]
  cases hperforms : call.performs caller.process with
  | none => simp [captured, Journals, hperforms]
  | some write =>
      cases hreadable : backend.readable write.start write.cells.length with
      | false =>
          rw [captured_unreadable caller hreadable]
          simp [Journals, hperforms, hreadable]
      | true =>
          have hread : rawRead backend caller.process write.start
              write.cells.length =
                some (load caller.process write.start write.cells.length) := by
            simp [rawRead, hreadable]
          have hentries := WriteJournal.entries_touch
            (rawRead backend caller.process) caller.data.writeJournal
            write.start write.cells.length hread
          simp only [captured, hentries, Journals, hperforms]
          split
          · rename_i hpresent
            have hnonempty : caller.data.writeJournal.entries ≠ [] := by
              rintro hnil
              simp [hnil] at hpresent
            simp [hnonempty]
          · simp [hreadable]

/-- Entries stay in the journal until they are taken. -/
theorem entries_subset_runCall (backend : Backend) (caller : Caller)
    (call : ScriptCall) :
    caller.data.writeJournal.entries ⊆
      (runCall backend caller call).data.writeJournal.entries := by
  rw [data_runCall]
  cases call.performs caller.process with
  | none => exact List.Subset.refl _
  | some write => exact WriteJournal.entries_subset_touch _ _ _ _

/-! ## The revert step -/

theorem performs_target {memory : Memory UInt8} {call : ScriptCall}
    {write : Patch UInt8} (hwrite : call.performs memory = some write) :
    (write.start, write.cells.length) ∈ call.target := by
  cases call with
  | write guest addr ty inPtr inLen =>
      simp only [ScriptCall.performs, Option.bind_eq_bind,
        Option.bind_eq_some_iff] at hwrite
      obtain ⟨ty', hty, bytes, -, hdispatch⟩ := hwrite
      simp only [ScriptCall.target, hty, Option.bind_some]
      cases ty' <;>
        first
        | contradiction
        | (obtain ⟨value, hvalue, rfl⟩ := Option.map_eq_some_iff.mp hdispatch
           simp [ValType.dispatch, length_toLeBytesBuf hvalue])
  | writeIf guest addr ty expPtr expLen newPtr newLen =>
      simp only [ScriptCall.performs, Option.bind_eq_bind,
        Option.bind_eq_some_iff] at hwrite
      obtain ⟨ty', hty, expBytes, -, newBytes, -, hdispatch⟩ := hwrite
      simp only [ScriptCall.target, hty, Option.bind_some]
      cases ty' <;>
        first
        | contradiction
        | (simp only [ValType.dispatch, writeIfTyped, Option.bind_eq_bind,
             Option.bind_eq_some_iff, Option.ite_none_right_eq_some,
             Option.some.injEq] at hdispatch
           obtain ⟨expected, -, new, hnew, current, -, -, rfl⟩ := hdispatch
           simp [ValType.dispatch, length_toLeBytesBuf hnew])

theorem writable_of_mem_performedWrites {backend : Backend}
    {calls : List ScriptCall} (hsucceeds : BackendSucceeds backend calls)
    (memory : Memory UInt8) {write : Patch UInt8}
    (hwrite : write ∈ performedWrites memory calls) :
    backend.writable write.start write.cells.length = true := by
  induction calls generalizing memory with
  | nil => simp [performedWrites] at hwrite
  | cons call calls ih =>
      have htail : BackendSucceeds backend calls := fun other hother =>
        hsucceeds other (List.mem_cons_of_mem _ hother)
      rw [performedWrites] at hwrite
      cases hperforms : call.performs memory with
      | none =>
          rw [hperforms] at hwrite
          exact ih htail memory hwrite
      | some performed =>
          rw [hperforms] at hwrite
          rcases List.mem_cons.mp hwrite with rfl | hrest
          · exact (hsucceeds call List.mem_cons_self _
              (performs_target hperforms)).2
          · exact ih htail _ hrest

theorem revertEntries_eq_storeAll {backend : Backend} (memory : Memory UInt8)
    {entries : List (Patch UInt8)}
    (hwritable : ∀ entry ∈ entries,
      backend.writable entry.start entry.cells.length = true) :
    revertEntries backend memory entries = storeAll memory entries := by
  induction entries generalizing memory with
  | nil => rfl
  | cons entry entries ih =>
      have hhead := hwritable entry List.mem_cons_self
      rw [revertEntries, List.foldl_cons]
      change revertEntries backend
        ((rawWrite backend memory entry).getD memory) entries = _
      rw [ih _ fun other hother => hwritable other (List.mem_cons_of_mem _ hother)]
      simp [rawWrite, hhead]

/-- The journal undoes a script exactly when the writes it performed are
undoable: no write that is the first at its start address found a byte already
changed by an earlier overlapping write, and no byte outside the ranges of
those first writes ended up changed. -/
theorem revertRestores_iff_undoable (backend : Backend) (runtimeId : ℕ)
    (original : Memory UInt8) (calls : List ScriptCall)
    (hsucceeds : BackendSucceeds backend calls) :
    RevertRestores backend runtimeId original calls ↔
      Undoable original (performedWrites original calls) := by
  have hlogged := logged_runScript (spawnCaller runtimeId original) calls
    hsucceeds
  have hprocess : (runScript backend (spawnCaller runtimeId original)
      calls).process = (UndoLog.run original
        (performedWrites original calls)).1 := congrArg Prod.fst hlogged
  have hentries : (runScript backend (spawnCaller runtimeId original)
      calls).data.writeJournal.takeEntries.1 = (UndoLog.run original
        (performedWrites original calls)).2 := congrArg Prod.snd hlogged
  rw [← forall_perm_replay_iff, RevertRestores, hprocess, hentries]
  refine forall_congr' fun order => forall_congr' fun hperm => ?_
  rw [revertEntries_eq_storeAll]
  intro entry hentry
  obtain ⟨before, write, after, hsplit, -, rfl⟩ :=
    (mem_log_iff original _ entry).mp (hperm.mem_iff.mp hentry)
  have hmem : write ∈ performedWrites original calls := by
    rw [hsplit]
    simp
  have hwritable := writable_of_mem_performedWrites hsucceeds original hmem
  simpa [UndoLog.capture] using hwritable

/-- A backend that accepts every range. -/
def flatBackend : Backend := ⟨fun _ _ => true, fun _ _ => true⟩

/-- `mem.write` of the first `width` bytes of a guest buffer filled with ones,
where `tag` selects a type of that width. -/
def writeOnes (addr : BitVec 64) (tag width : BitVec 32) : ScriptCall :=
  .write (some (List.replicate 8 1)) addr tag 0 width

/-- A `u32` and a `u8` at separate addresses are both taken back. -/
theorem revertRestores_separate_writes :
    RevertRestores flatBackend 1 (fun _ => 0)
      [writeOnes 0x1000 2 4, writeOnes 0x2000 0 1] := by
  refine (revertRestores_iff_undoable flatBackend 1 (fun _ => 0) _
    (fun _ _ _ _ => ⟨rfl, rfl⟩)).mpr (Separate.undoable ?_ _)
  have hwrites : performedWrites (fun _ => 0)
      [writeOnes 0x1000 2 4, writeOnes 0x2000 0 1] =
        [⟨0x1000, [1, 1, 1, 1]⟩, ⟨0x2000, [1]⟩] := rfl
  rw [hwrites]
  simp only [Separate, Patch.Covers, List.pairwise_cons, List.length_cons,
    List.length_nil]
  simp
  omega

/-- A `u8` write followed by a `u32` write at the same address: only the first
byte was captured, so the other three keep the script's values. -/
theorem not_revertRestores_wider_rewrite :
    ¬ RevertRestores flatBackend 1 (fun _ => 0)
      [writeOnes 0x1000 0 1, writeOnes 0x1000 2 4] := by
  intro hrestores
  have hbyte := congrFun (hrestores _ (List.Perm.refl _)) 0x1001
  revert hbyte
  decide

end FrogAgent.JournalRevert
