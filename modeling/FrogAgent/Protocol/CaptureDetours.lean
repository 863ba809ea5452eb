import FrogAgent.Lib.ByteMemory
import FrogAgent.Lib.LittleEndian
import FrogAgent.Protocol.FrameRing
import FrogAgent.Protocol.PendingReceives

/-!
# The guarded packet detours

The ten detours of `protocol/capture.rs` that share the thread-local flag `IN_HOOK`.  Each
calls the original function behind its trampoline, and captures what went over the socket
unless the flag was set when it was entered.  An original may call hooked functions itself,
so that the calls on a thread form a tree.
-/

namespace FrogAgent.Protocol

open FrogAgent.ByteMemory
open FrogAgent.LittleEndian

/-! ## Calls -/

/-- A call of a hooked function with its arguments; pointers are addresses. -/
inductive HookedCall where
  | send (s : UInt64) (buf : ℕ) (len flags : ℤ)
  | sendto (s : UInt64) (buf : ℕ) (len flags : ℤ) (toPtr : ℕ) (tolen : ℤ)
  | wsasend (s : UInt64) (lpBuffers dwBufferCount lpNumberOfBytesSent dwFlags : ℕ)
      (lpOverlapped lpCompletionRoutine : ℕ)
  | wsasendto (s : UInt64) (lpBuffers dwBufferCount lpNumberOfBytesSent dwFlags lpTo : ℕ)
      (iTolen : ℤ) (lpOverlapped lpCompletionRoutine : ℕ)
  | recv (s : UInt64) (buf : ℕ) (len flags : ℤ)
  | recvfrom (s : UInt64) (buf : ℕ) (len flags : ℤ) (fromPtr fromlen : ℕ)
  | wsarecv (s : UInt64) (lpBuffers dwBufferCount lpNumberOfBytesRecvd lpFlags : ℕ)
      (lpOverlapped lpCompletionRoutine : ℕ)
  | wsarecvfrom (s : UInt64) (lpBuffers dwBufferCount lpNumberOfBytesRecvd lpFlags : ℕ)
      (lpFrom lpFromlen lpOverlapped lpCompletionRoutine : ℕ)
  | gqcs (completionPort lpNumberOfBytesTransferred lpCompletionKey lpOverlapped : ℕ)
      (dwMilliseconds : ℕ)
  | gqcsex (completionPort lpCompletionPortEntries ulCount ulNumEntriesRemoved : ℕ)
      (dwMilliseconds : ℕ) (fAlertable : ℤ)
  deriving DecidableEq

/-- The statics `ORIG_*`, `closesocket` among them. -/
inductive HookedFunction where
  | send | sendto | wsasend | wsasendto | recv | recvfrom | wsarecv | wsarecvfrom
  | gqcs | gqcsex | closesocket
  deriving DecidableEq

def HookedCall.function : HookedCall → HookedFunction
  | .send .. => .send
  | .sendto .. => .sendto
  | .wsasend .. => .wsasend
  | .wsasendto .. => .wsasendto
  | .recv .. => .recv
  | .recvfrom .. => .recvfrom
  | .wsarecv .. => .wsarecv
  | .wsarecvfrom .. => .wsarecvfrom
  | .gqcs .. => .gqcs
  | .gqcsex .. => .gqcsex

/-- `SOCKET_ERROR`, or `FALSE` for the functions that return a `BOOL`. -/
def HookedCall.failureValue : HookedCall → ℤ
  | .gqcs .. | .gqcsex .. => 0
  | _ => -1

/-! ## The thread -/

/-- What the thread shares with the rest of the process.  A trampoline of zero is one that
is not set; a lock is free or held by another thread. -/
structure CaptureState where
  memory : Memory UInt8
  trampoline : HookedFunction → ℕ
  ring : FrameRing
  ringLocked : Bool
  pending : Pending
  pendingLocked : Bool
  apcGap : ℕ
  capHitCount : ℕ
  wsaLastError : ℤ
  nowMs : UInt64

structure CaptureThread where
  inHook : Bool
  shared : CaptureState

/-- What the agent does for the capture. -/
inductive Touch where
  | capture (direction : Direction) (socketId : UInt64) (ptr len : ℕ)
  | pending
  deriving DecidableEq

/-- A call through a trampoline, with what it returned. -/
structure OriginalCall where
  address : ℕ
  call : HookedCall
  returned : ℤ
  deriving DecidableEq

/-- What happened, in order; `body` is what happened inside. -/
inductive CaptureLog where
  | nil
  | touch (touch : Touch) (rest : CaptureLog)
  | original (original : OriginalCall) (body rest : CaptureLog)
  | detour (call : HookedCall) (address : ℕ) (returned : ℤ) (body rest : CaptureLog)
  | closesocket (s : UInt64) (body rest : CaptureLog)

def CaptureLog.append : CaptureLog → CaptureLog → CaptureLog
  | .nil, later => later
  | .touch item rest, later => .touch item (rest.append later)
  | .original called body rest, later => .original called body (rest.append later)
  | .detour call address returned body rest, later =>
      .detour call address returned body (rest.append later)
  | .closesocket s body rest, later => .closesocket s body (rest.append later)

/-- Code that runs on the thread. -/
def Hooked (α : Type) : Type := CaptureThread → α × CaptureThread × CaptureLog

instance : Monad Hooked where
  pure value := fun thread => (value, thread, .nil)
  bind action rest := fun thread =>
    let (value, between, log) := action thread
    let (result, after, later) := rest value between
    (result, after, log.append later)

def getInHook : Hooked Bool := fun thread => (thread.inHook, thread, .nil)

def setInHook (flag : Bool) : Hooked Unit := fun thread =>
  ((), { thread with inHook := flag }, .nil)

def getShared : Hooked CaptureState := fun thread => (thread.shared, thread, .nil)

def modifyShared (change : CaptureState → CaptureState) : Hooked Unit := fun thread =>
  ((), { thread with shared := change thread.shared }, .nil)

def note (touch : Touch) : Hooked Unit := fun thread => ((), thread, .touch touch .nil)

def callOriginal (address : ℕ) (call : HookedCall) (original : Hooked ℤ) : Hooked ℤ :=
  fun thread =>
    let (returned, after, body) := original thread
    (returned, after, .original ⟨address, call, returned⟩ body .nil)

/-! ## Capturing -/

def CaptureState.read (shared : CaptureState) (width address : ℕ) : ℕ :=
  leValue (load shared.memory address width)

def captureMaxBytes : ℕ := 64 * 1024 * 1024

/-- A ring that is pushed to and drained only meets no fault. -/
def CaptureState.pushFrame (shared : CaptureState) (frame : RawFrame) : CaptureState :=
  if shared.ringLocked then shared
  else
    match shared.ring.push frame with
    | .ok ring => { shared with ring := ring }
    | .error _ => shared

def capture (direction : Direction) (socketId : UInt64) (ptr len : ℕ) : Hooked Unit := do
  note (.capture direction socketId ptr len)
  if ptr = 0 ∨ len = 0 ∨ captureMaxBytes < len then pure ()
  else
    modifyShared fun shared => shared.pushFrame
      ⟨shared.nowMs, direction, socketId, load shared.memory ptr len⟩

/-- The loop over a `WSABUF` array, whose elements are a length and a pointer. -/
def captureWsabufsFrom (direction : Direction) (socketId : UInt64) (lpBuffers : ℕ) :
    ℕ → ℕ → ℕ → Hooked Unit
  | 0, _, _ => pure ()
  | rounds + 1, i, remaining =>
      if remaining = 0 then pure ()
      else do
        let shared ← getShared
        let len := shared.read 4 (lpBuffers + i * 16)
        let buf := shared.read 8 (lpBuffers + i * 16 + 8)
        if buf = 0 ∨ len = 0 then
          captureWsabufsFrom direction socketId lpBuffers rounds (i + 1) remaining
        else
          let taken := min remaining len
          capture direction socketId buf taken
          captureWsabufsFrom direction socketId lpBuffers rounds (i + 1) (remaining - taken)

def captureWsabufs (direction : Direction) (socketId : UInt64)
    (lpBuffers count maxBytes : ℕ) : Hooked Unit :=
  if lpBuffers = 0 ∨ count = 0 ∨ maxBytes = 0 then pure ()
  else captureWsabufsFrom direction socketId lpBuffers count 0 maxBytes

def wsaIoPending : ℤ := 997

/-- `pending().try_lock()`, with what is done while the lock is held. -/
def withPending (locked : Hooked Unit) : Hooked Unit := do
  note .pending
  let shared ← getShared
  if shared.pendingLocked then pure () else locked

/-! ## After the original -/

/-- After `send`, `sendto`, `recv` and `recvfrom`. -/
def afterBuffer (direction : Direction) (s : UInt64) (buf : ℕ) (ret : ℤ) : Hooked Unit :=
  if 0 < ret then capture direction s buf ret.toNat else pure ()

/-- After a call that has finished at once. -/
def afterImmediate (direction : Direction) (s : UInt64)
    (lpBuffers dwBufferCount lpNumberOfBytes : ℕ) : Hooked Unit :=
  if lpNumberOfBytes = 0 then pure ()
  else do
    let shared ← getShared
    let bytes := shared.read 4 lpNumberOfBytes
    if 0 < bytes then captureWsabufs direction s lpBuffers dwBufferCount bytes else pure ()

def afterWsaSend (s : UInt64) (lpBuffers dwBufferCount lpNumberOfBytesSent : ℕ) (ret : ℤ) :
    Hooked Unit :=
  if ret = 0 then afterImmediate .c2s s lpBuffers dwBufferCount lpNumberOfBytesSent
  else pure ()

def afterWsaRecv (s : UInt64) (lpBuffers dwBufferCount lpNumberOfBytesRecvd : ℕ)
    (lpOverlapped lpCompletionRoutine : ℕ) (ret : ℤ) : Hooked Unit :=
  if ret = 0 then afterImmediate .s2c s lpBuffers dwBufferCount lpNumberOfBytesRecvd
  else do
    let shared ← getShared
    if shared.wsaLastError = wsaIoPending ∧ lpOverlapped ≠ 0 ∧ lpBuffers ≠ 0 ∧
        0 < dwBufferCount then
      -- The callback of a completion routine cannot be observed.
      if lpCompletionRoutine ≠ 0 then
        modifyShared fun shared => { shared with apcGap := shared.apcGap + 1 }
      else
        withPending <| modifyShared fun shared =>
          if shared.pending.length < maxPending then
            { shared with
              pending := recordReceive shared.pending lpOverlapped
                ⟨s, lpBuffers, dwBufferCount⟩ }
          else { shared with capHitCount := shared.capHitCount + 1 }
    else pure ()

/-- One completed operation, while `PENDING` is locked: the entry is always removed. -/
def completeOverlapped (overlapped bytesTransferred : ℕ) : Hooked Unit := do
  let shared ← getShared
  match lookup shared.pending overlapped with
  | none => pure ()
  | some receive =>
      modifyShared fun shared => { shared with pending := remove shared.pending overlapped }
      if 0 < bytesTransferred then
        captureWsabufs .s2c receive.socketId receive.lpBuffers receive.dwBufferCount
          bytesTransferred
      else pure ()

def afterGqcs (lpNumberOfBytesTransferred lpOverlapped : ℕ) (res : ℤ) : Hooked Unit := do
  let shared ← getShared
  if res ≠ 0 ∧ lpOverlapped ≠ 0 ∧ shared.read 8 lpOverlapped ≠ 0 then
    let bytesTransferred :=
      if lpNumberOfBytesTransferred ≠ 0 then shared.read 4 lpNumberOfBytesTransferred else 0
    withPending (completeOverlapped (shared.read 8 lpOverlapped) bytesTransferred)
  else pure ()

/-- The loop over the `OVERLAPPED_ENTRY` array, whose elements hold the `OVERLAPPED`
pointer at 8 and the byte count at 24. -/
def completeEntries (lpCompletionPortEntries : ℕ) : ℕ → ℕ → Hooked Unit
  | 0, _ => pure ()
  | rounds + 1, i => do
      let shared ← getShared
      let entry := lpCompletionPortEntries + i * 32
      let overlapped := shared.read 8 (entry + 8)
      if overlapped = 0 then completeEntries lpCompletionPortEntries rounds (i + 1)
      else
        completeOverlapped overlapped (shared.read 4 (entry + 24))
        completeEntries lpCompletionPortEntries rounds (i + 1)

def afterGqcsEx (lpCompletionPortEntries ulNumEntriesRemoved : ℕ) (res : ℤ) :
    Hooked Unit := do
  let shared ← getShared
  if res ≠ 0 ∧ lpCompletionPortEntries ≠ 0 ∧ ulNumEntriesRemoved ≠ 0 then
    withPending
      (completeEntries lpCompletionPortEntries (shared.read 4 ulNumEntriesRemoved) 0)
  else pure ()

/-! ## The detours -/

/-- What the ten detours have in common.  Inside another detour only the original is
called; else the flag is set around the original and what comes after it. -/
def guarded (call : HookedCall) (failure : ℤ) (after : ℤ → Hooked Unit)
    (original : Hooked ℤ) : Hooked ℤ := do
  if ← getInHook then
    let tramp := (← getShared).trampoline call.function
    if tramp ≠ 0 then callOriginal tramp call original else pure failure
  else
    setInHook true
    let tramp := (← getShared).trampoline call.function
    if tramp = 0 then
      setInHook false
      pure failure
    else
      let ret ← callOriginal tramp call original
      after ret
      setInHook false
      pure ret

def sendDetour (s : UInt64) (buf : ℕ) (len flags : ℤ) : Hooked ℤ → Hooked ℤ :=
  guarded (.send s buf len flags) (-1) (afterBuffer .c2s s buf)

def sendtoDetour (s : UInt64) (buf : ℕ) (len flags : ℤ) (toPtr : ℕ) (tolen : ℤ) :
    Hooked ℤ → Hooked ℤ :=
  guarded (.sendto s buf len flags toPtr tolen) (-1) (afterBuffer .c2s s buf)

def wsasendDetour (s : UInt64) (lpBuffers dwBufferCount lpNumberOfBytesSent dwFlags : ℕ)
    (lpOverlapped lpCompletionRoutine : ℕ) : Hooked ℤ → Hooked ℤ :=
  guarded (.wsasend s lpBuffers dwBufferCount lpNumberOfBytesSent dwFlags lpOverlapped
    lpCompletionRoutine) (-1) (afterWsaSend s lpBuffers dwBufferCount lpNumberOfBytesSent)

def wsasendtoDetour (s : UInt64) (lpBuffers dwBufferCount lpNumberOfBytesSent : ℕ)
    (dwFlags lpTo : ℕ) (iTolen : ℤ) (lpOverlapped lpCompletionRoutine : ℕ) :
    Hooked ℤ → Hooked ℤ :=
  guarded (.wsasendto s lpBuffers dwBufferCount lpNumberOfBytesSent dwFlags lpTo iTolen
    lpOverlapped lpCompletionRoutine) (-1)
    (afterWsaSend s lpBuffers dwBufferCount lpNumberOfBytesSent)

def recvDetour (s : UInt64) (buf : ℕ) (len flags : ℤ) : Hooked ℤ → Hooked ℤ :=
  guarded (.recv s buf len flags) (-1) (afterBuffer .s2c s buf)

def recvfromDetour (s : UInt64) (buf : ℕ) (len flags : ℤ) (fromPtr fromlen : ℕ) :
    Hooked ℤ → Hooked ℤ :=
  guarded (.recvfrom s buf len flags fromPtr fromlen) (-1) (afterBuffer .s2c s buf)

def wsarecvDetour (s : UInt64) (lpBuffers dwBufferCount lpNumberOfBytesRecvd lpFlags : ℕ)
    (lpOverlapped lpCompletionRoutine : ℕ) : Hooked ℤ → Hooked ℤ :=
  guarded (.wsarecv s lpBuffers dwBufferCount lpNumberOfBytesRecvd lpFlags lpOverlapped
    lpCompletionRoutine) (-1)
    (afterWsaRecv s lpBuffers dwBufferCount lpNumberOfBytesRecvd lpOverlapped
      lpCompletionRoutine)

def wsarecvfromDetour (s : UInt64) (lpBuffers dwBufferCount lpNumberOfBytesRecvd : ℕ)
    (lpFlags lpFrom lpFromlen lpOverlapped lpCompletionRoutine : ℕ) : Hooked ℤ → Hooked ℤ :=
  guarded (.wsarecvfrom s lpBuffers dwBufferCount lpNumberOfBytesRecvd lpFlags lpFrom
    lpFromlen lpOverlapped lpCompletionRoutine) (-1)
    (afterWsaRecv s lpBuffers dwBufferCount lpNumberOfBytesRecvd lpOverlapped
      lpCompletionRoutine)

def gqcsDetour (completionPort lpNumberOfBytesTransferred lpCompletionKey lpOverlapped : ℕ)
    (dwMilliseconds : ℕ) : Hooked ℤ → Hooked ℤ :=
  guarded (.gqcs completionPort lpNumberOfBytesTransferred lpCompletionKey lpOverlapped
    dwMilliseconds) 0 (afterGqcs lpNumberOfBytesTransferred lpOverlapped)

def gqcsexDetour (completionPort lpCompletionPortEntries ulCount ulNumEntriesRemoved : ℕ)
    (dwMilliseconds : ℕ) (fAlertable : ℤ) : Hooked ℤ → Hooked ℤ :=
  guarded (.gqcsex completionPort lpCompletionPortEntries ulCount ulNumEntriesRemoved
    dwMilliseconds fAlertable) 0 (afterGqcsEx lpCompletionPortEntries ulNumEntriesRemoved)

def runDetour : HookedCall → Hooked ℤ → Hooked ℤ
  | .send s buf len flags => sendDetour s buf len flags
  | .sendto s buf len flags toPtr tolen => sendtoDetour s buf len flags toPtr tolen
  | .wsasend s lpBuffers dwBufferCount lpNumberOfBytesSent dwFlags lpOverlapped
      lpCompletionRoutine =>
      wsasendDetour s lpBuffers dwBufferCount lpNumberOfBytesSent dwFlags lpOverlapped
        lpCompletionRoutine
  | .wsasendto s lpBuffers dwBufferCount lpNumberOfBytesSent dwFlags lpTo iTolen
      lpOverlapped lpCompletionRoutine =>
      wsasendtoDetour s lpBuffers dwBufferCount lpNumberOfBytesSent dwFlags lpTo iTolen
        lpOverlapped lpCompletionRoutine
  | .recv s buf len flags => recvDetour s buf len flags
  | .recvfrom s buf len flags fromPtr fromlen => recvfromDetour s buf len flags fromPtr fromlen
  | .wsarecv s lpBuffers dwBufferCount lpNumberOfBytesRecvd lpFlags lpOverlapped
      lpCompletionRoutine =>
      wsarecvDetour s lpBuffers dwBufferCount lpNumberOfBytesRecvd lpFlags lpOverlapped
        lpCompletionRoutine
  | .wsarecvfrom s lpBuffers dwBufferCount lpNumberOfBytesRecvd lpFlags lpFrom lpFromlen
      lpOverlapped lpCompletionRoutine =>
      wsarecvfromDetour s lpBuffers dwBufferCount lpNumberOfBytesRecvd lpFlags lpFrom
        lpFromlen lpOverlapped lpCompletionRoutine
  | .gqcs completionPort lpNumberOfBytesTransferred lpCompletionKey lpOverlapped
      dwMilliseconds =>
      gqcsDetour completionPort lpNumberOfBytesTransferred lpCompletionKey lpOverlapped
        dwMilliseconds
  | .gqcsex completionPort lpCompletionPortEntries ulCount ulNumEntriesRemoved
      dwMilliseconds fAlertable =>
      gqcsexDetour completionPort lpCompletionPortEntries ulCount ulNumEntriesRemoved
        dwMilliseconds fAlertable

/-- A call of a hooked function enters its detour. -/
def detour (call : HookedCall) (original : Hooked ℤ) : Hooked ℤ := fun thread =>
  let (returned, after, body) := runDetour call original thread
  (returned, after,
    .detour call (thread.shared.trampoline call.function) returned body .nil)

/-- `closesocket_detour` has no guard: it evicts the entries of the socket at any depth. -/
def closesocketDetour (s : UInt64) (original : Hooked ℤ) : Hooked ℤ := fun thread =>
  let evict : Hooked ℤ := do
    modifyShared fun shared =>
      if shared.pendingLocked then shared
      else { shared with pending := evictSocket shared.pending s }
    let tramp := (← getShared).trampoline .closesocket
    if tramp ≠ 0 then original else pure (-1)
  let (returned, after, body) := evict thread
  (returned, after, .closesocket s body .nil)

/-! ## Call trees -/

/-- What an original does: it changes the process, or lets it change, and calls hooked
functions, whose own originals are trees again, and goes on by what it sees. -/
inductive OriginalCode where
  | ret (value : ℤ)
  | world (change : CaptureState → CaptureState) (rest : CaptureState → OriginalCode)
  | call (call : HookedCall) (original : OriginalCode) (rest : ℤ → OriginalCode)
  | closesocket (s : UInt64) (original : OriginalCode) (rest : ℤ → OriginalCode)

def OriginalCode.run : OriginalCode → Hooked ℤ
  | .ret value => pure value
  | .world change rest => do
      modifyShared change
      let shared ← getShared
      (rest shared).run
  | .call hooked original rest => do
      let returned ← detour hooked original.run
      (rest returned).run
  | .closesocket s original rest => do
      let returned ← closesocketDetour s original.run
      (rest returned).run

/-! ## What the log says -/

/-- One call of a detour: the trampoline it finds, the originals it calls, what it does
for the capture, and what it returns. -/
structure DetourRecord where
  call : HookedCall
  address : ℕ
  originals : List OriginalCall
  touches : List Touch
  returned : ℤ
  deriving DecidableEq

namespace CaptureLog

/-- The originals called at this level. -/
def originals : CaptureLog → List OriginalCall
  | .nil => []
  | .original called _ rest => called :: rest.originals
  | .touch _ rest | .detour _ _ _ _ rest | .closesocket _ _ rest => rest.originals

/-- What is done for the capture at this level. -/
def touches : CaptureLog → List Touch
  | .nil => []
  | .touch item rest => item :: rest.touches
  | .original _ _ rest | .detour _ _ _ _ rest | .closesocket _ _ rest => rest.touches

/-- The calls of detours at every level, each before those inside it. -/
def records : CaptureLog → List DetourRecord
  | .nil => []
  | .touch _ rest => rest.records
  | .original _ body rest | .closesocket _ body rest => body.records ++ rest.records
  | .detour call address returned body rest =>
      ⟨call, address, body.originals, body.touches, returned⟩ ::
        (body.records ++ rest.records)

variable (log later : CaptureLog)

@[simp]
theorem originals_append : (log.append later).originals = log.originals ++ later.originals := by
  induction log with
  | nil => rfl
  | touch item rest ih => exact ih
  | original called body rest _ ih => exact congrArg (called :: ·) ih
  | detour call address returned body rest _ ih => exact ih
  | closesocket s body rest _ ih => exact ih

@[simp]
theorem records_append : (log.append later).records = log.records ++ later.records := by
  induction log with
  | nil => rfl
  | touch item rest ih => exact ih
  | original called body rest _ ih => simp [append, records, ih]
  | detour call address returned body rest _ ih => simp [append, records, ih]
  | closesocket s body rest _ ih => simp [append, records, ih]

@[simp]
theorem touches_append : (log.append later).touches = log.touches ++ later.touches := by
  induction log with
  | nil => rfl
  | touch item rest ih => exact congrArg (item :: ·) ih
  | original called body rest _ ih => exact ih
  | detour call address returned body rest _ ih => exact ih
  | closesocket s body rest _ ih => exact ih

end CaptureLog

/-- The original runs exactly once, with the arguments of the detour, and its result is
returned; without an original the function fails. -/
structure DetourRecord.Transparent (record : DetourRecord) : Prop where
  resolved : record.address ≠ 0 →
    record.originals = [⟨record.address, record.call, record.returned⟩]
  unresolved : record.address = 0 →
    record.originals = [] ∧ record.returned = record.call.failureValue

/-! ## Actions that call nothing -/

/-- The action leaves the flag alone, and neither a detour nor an original is called. -/
def CallsNothing {α : Type} (action : Hooked α) : Prop :=
  ∀ thread, (action thread).2.1.inHook = thread.inHook ∧
    (action thread).2.2.originals = [] ∧ (action thread).2.2.records = []

section CallsNothing

variable {α β : Type}

theorem bind_apply (action : Hooked α) (rest : α → Hooked β) (thread : CaptureThread) :
    (action >>= rest) thread =
      ((rest (action thread).1 (action thread).2.1).1,
        (rest (action thread).1 (action thread).2.1).2.1,
        (action thread).2.2.append (rest (action thread).1 (action thread).2.1).2.2) :=
  rfl

theorem CallsNothing.pure (value : α) : CallsNothing (Pure.pure value : Hooked α) :=
  fun _ => ⟨rfl, rfl, rfl⟩

theorem CallsNothing.bind {action : Hooked α} {rest : α → Hooked β}
    (haction : CallsNothing action) (hrest : ∀ value, CallsNothing (rest value)) :
    CallsNothing (action >>= rest) := by
  intro thread
  obtain ⟨hflag, horiginals, hrecords⟩ := haction thread
  obtain ⟨hlater, hmore, hothers⟩ := hrest (action thread).1 (action thread).2.1
  rw [bind_apply]
  exact ⟨hlater.trans hflag, by simp [horiginals, hmore], by simp [hrecords, hothers]⟩

theorem CallsNothing.ite {condition : Prop} [Decidable condition] {yes no : Hooked α}
    (hyes : CallsNothing yes) (hno : CallsNothing no) :
    CallsNothing (if condition then yes else no) := by
  by_cases hcondition : condition
  · rwa [if_pos hcondition]
  · rwa [if_neg hcondition]

theorem callsNothing_getShared : CallsNothing getShared := fun _ => ⟨rfl, rfl, rfl⟩

theorem callsNothing_modifyShared (change : CaptureState → CaptureState) :
    CallsNothing (modifyShared change) :=
  fun _ => ⟨rfl, rfl, rfl⟩

theorem callsNothing_note (touch : Touch) : CallsNothing (note touch) :=
  fun _ => ⟨rfl, rfl, rfl⟩

theorem callsNothing_capture (direction : Direction) (socketId : UInt64) (ptr len : ℕ) :
    CallsNothing (capture direction socketId ptr len) :=
  (callsNothing_note _).bind fun _ => .ite (.pure ()) (callsNothing_modifyShared _)

theorem callsNothing_captureWsabufsFrom (direction : Direction) (socketId : UInt64)
    (lpBuffers rounds i remaining : ℕ) :
    CallsNothing (captureWsabufsFrom direction socketId lpBuffers rounds i remaining) := by
  induction rounds generalizing i remaining with
  | zero => exact .pure ()
  | succ rounds ih =>
      rw [captureWsabufsFrom]
      refine .ite (.pure ()) (callsNothing_getShared.bind fun shared => ?_)
      exact .ite (ih _ _) ((callsNothing_capture _ _ _ _).bind fun _ => ih _ _)

theorem callsNothing_captureWsabufs (direction : Direction) (socketId : UInt64)
    (lpBuffers count maxBytes : ℕ) :
    CallsNothing (captureWsabufs direction socketId lpBuffers count maxBytes) :=
  .ite (.pure ()) (callsNothing_captureWsabufsFrom _ _ _ _ _ _)

theorem callsNothing_withPending {locked : Hooked Unit} (hlocked : CallsNothing locked) :
    CallsNothing (withPending locked) :=
  (callsNothing_note _).bind fun _ => callsNothing_getShared.bind fun _ =>
    .ite (.pure ()) hlocked

theorem callsNothing_afterBuffer (direction : Direction) (s : UInt64) (buf : ℕ) (ret : ℤ) :
    CallsNothing (afterBuffer direction s buf ret) :=
  .ite (callsNothing_capture _ _ _ _) (.pure ())

theorem callsNothing_afterImmediate (direction : Direction) (s : UInt64)
    (lpBuffers dwBufferCount lpNumberOfBytes : ℕ) :
    CallsNothing (afterImmediate direction s lpBuffers dwBufferCount lpNumberOfBytes) :=
  .ite (.pure ()) (callsNothing_getShared.bind fun _ =>
    .ite (callsNothing_captureWsabufs _ _ _ _ _) (.pure ()))

theorem callsNothing_afterWsaSend (s : UInt64)
    (lpBuffers dwBufferCount lpNumberOfBytesSent : ℕ) (ret : ℤ) :
    CallsNothing (afterWsaSend s lpBuffers dwBufferCount lpNumberOfBytesSent ret) :=
  .ite (callsNothing_afterImmediate _ _ _ _ _) (.pure ())

theorem callsNothing_afterWsaRecv (s : UInt64)
    (lpBuffers dwBufferCount lpNumberOfBytesRecvd lpOverlapped lpCompletionRoutine : ℕ)
    (ret : ℤ) :
    CallsNothing (afterWsaRecv s lpBuffers dwBufferCount lpNumberOfBytesRecvd lpOverlapped
      lpCompletionRoutine ret) := by
  refine .ite (callsNothing_afterImmediate _ _ _ _ _) (callsNothing_getShared.bind ?_)
  intro shared
  refine .ite (.ite (callsNothing_modifyShared _) ?_) (.pure ())
  exact callsNothing_withPending (callsNothing_modifyShared _)

theorem callsNothing_completeOverlapped (overlapped bytesTransferred : ℕ) :
    CallsNothing (completeOverlapped overlapped bytesTransferred) := by
  refine callsNothing_getShared.bind fun shared => ?_
  cases lookup shared.pending overlapped with
  | none => exact .pure ()
  | some receive =>
      refine (callsNothing_modifyShared _).bind fun _ => ?_
      exact .ite (callsNothing_captureWsabufs _ _ _ _ _) (.pure ())

theorem callsNothing_afterGqcs (lpNumberOfBytesTransferred lpOverlapped : ℕ) (res : ℤ) :
    CallsNothing (afterGqcs lpNumberOfBytesTransferred lpOverlapped res) :=
  callsNothing_getShared.bind fun _ =>
    .ite (callsNothing_withPending (callsNothing_completeOverlapped _ _)) (.pure ())

theorem callsNothing_completeEntries (lpCompletionPortEntries rounds i : ℕ) :
    CallsNothing (completeEntries lpCompletionPortEntries rounds i) := by
  induction rounds generalizing i with
  | zero => exact .pure ()
  | succ rounds ih =>
      refine callsNothing_getShared.bind fun shared => ?_
      exact .ite (ih _) ((callsNothing_completeOverlapped _ _).bind fun _ => ih _)

theorem callsNothing_afterGqcsEx (lpCompletionPortEntries ulNumEntriesRemoved : ℕ)
    (res : ℤ) :
    CallsNothing (afterGqcsEx lpCompletionPortEntries ulNumEntriesRemoved res) :=
  callsNothing_getShared.bind fun _ =>
    .ite (callsNothing_withPending (callsNothing_completeEntries _ _ _)) (.pure ())

end CallsNothing

/-- Every detour is the guard around its own call, with its failure value and something
that calls nothing after the original. -/
theorem runDetour_eq_guarded (call : HookedCall) :
    ∃ after, (∀ ret, CallsNothing (after ret)) ∧
      runDetour call = guarded call call.failureValue after := by
  cases call with
  | send => exact ⟨_, callsNothing_afterBuffer _ _ _, rfl⟩
  | sendto => exact ⟨_, callsNothing_afterBuffer _ _ _, rfl⟩
  | wsasend => exact ⟨_, callsNothing_afterWsaSend _ _ _ _, rfl⟩
  | wsasendto => exact ⟨_, callsNothing_afterWsaSend _ _ _ _, rfl⟩
  | recv => exact ⟨_, callsNothing_afterBuffer _ _ _, rfl⟩
  | recvfrom => exact ⟨_, callsNothing_afterBuffer _ _ _, rfl⟩
  | wsarecv => exact ⟨_, callsNothing_afterWsaRecv _ _ _ _ _ _, rfl⟩
  | wsarecvfrom => exact ⟨_, callsNothing_afterWsaRecv _ _ _ _ _ _, rfl⟩
  | gqcs => exact ⟨_, callsNothing_afterGqcs _ _, rfl⟩
  | gqcsex => exact ⟨_, callsNothing_afterGqcsEx _ _, rfl⟩

/-! ## The guard -/

section Guard

variable {call : HookedCall} {failure : ℤ} {after : ℤ → Hooked Unit} {original : Hooked ℤ}
variable {thread : CaptureThread}

theorem guarded_inside (hin : thread.inHook = true) :
    guarded call failure after original thread =
      if thread.shared.trampoline call.function = 0 then (failure, thread, .nil)
      else callOriginal (thread.shared.trampoline call.function) call original thread := by
  have hguard : guarded call failure after original thread =
      (if thread.shared.trampoline call.function ≠ 0 then
        callOriginal (thread.shared.trampoline call.function) call original
      else pure failure : Hooked ℤ) thread := by
    simp only [guarded, bind_apply, getInHook, hin, if_true]
    rfl
  rw [hguard, ite_not]
  split <;> rfl

theorem guarded_outside (hout : thread.inHook = false) :
    guarded call failure after original thread =
      (if thread.shared.trampoline call.function = 0 then do
        setInHook false
        pure failure
      else do
        let ret ← callOriginal (thread.shared.trampoline call.function) call original
        after ret
        setInHook false
        pure ret : Hooked ℤ) { thread with inHook := true } := by
  simp only [guarded, bind_apply, getInHook, hout, Bool.false_eq_true, if_false]
  rfl

theorem guarded_unresolved (hout : thread.inHook = false)
    (hunset : thread.shared.trampoline call.function = 0) :
    guarded call failure after original thread = (failure, thread, .nil) := by
  rw [guarded_outside hout, if_pos hunset]
  obtain ⟨flag, shared⟩ := thread
  cases hout
  rfl

/-- The log and the thread once the original and what comes after it are done. -/
theorem guarded_resolved (hout : thread.inHook = false)
    (hset : thread.shared.trampoline call.function ≠ 0) :
    let called := original { thread with inHook := true }
    let finished := after called.1 called.2.1
    guarded call failure after original thread =
      (called.1, { finished.2.1 with inHook := false },
        .original ⟨thread.shared.trampoline call.function, call, called.1⟩ called.2.2
          (finished.2.2.append .nil)) := by
  rw [guarded_outside hout, if_neg hset]
  rfl

end Guard

/-! ## The tree -/

/-- With the flag set, the action leaves it set, and every detour below is transparent and
does nothing for the capture. -/
def Quiet {α : Type} (action : Hooked α) : Prop :=
  ∀ thread, thread.inHook = true → (action thread).2.1.inHook = true ∧
    ∀ record ∈ (action thread).2.2.records, record.Transparent ∧ record.touches = []

section Quiet

variable {α β : Type}

theorem CallsNothing.quiet {action : Hooked α} (haction : CallsNothing action) :
    Quiet action := by
  intro thread hin
  obtain ⟨hflag, -, hrecords⟩ := haction thread
  refine ⟨hflag.trans hin, fun record hrecord => ?_⟩
  rw [hrecords] at hrecord
  cases hrecord

theorem Quiet.bind {action : Hooked α} {rest : α → Hooked β} (haction : Quiet action)
    (hrest : ∀ value, Quiet (rest value)) : Quiet (action >>= rest) := by
  intro thread hin
  obtain ⟨hflag, hrecords⟩ := haction thread hin
  obtain ⟨hlater, hothers⟩ := hrest (action thread).1 (action thread).2.1 hflag
  rw [bind_apply]
  refine ⟨hlater, fun record hrecord => ?_⟩
  rw [CaptureLog.records_append] at hrecord
  rcases List.mem_append.mp hrecord with hfirst | hsecond
  · exact hrecords record hfirst
  · exact hothers record hsecond

theorem Quiet.ite {condition : Prop} [Decidable condition] {yes no : Hooked α}
    (hyes : Quiet yes) (hno : Quiet no) : Quiet (if condition then yes else no) := by
  by_cases hcondition : condition
  · rwa [if_pos hcondition]
  · rwa [if_neg hcondition]

/-- A detour inside another one passes the call on. -/
theorem Quiet.detour {original : Hooked ℤ} (horiginal : Quiet original)
    (call : HookedCall) : Quiet (detour call original) := by
  intro thread hin
  obtain ⟨after, -, hguarded⟩ := runDetour_eq_guarded call
  simp only [Protocol.detour, hguarded, guarded_inside hin]
  by_cases hunset : thread.shared.trampoline call.function = 0
  · rw [if_pos hunset]
    refine ⟨hin, fun record hrecord => ?_⟩
    obtain rfl := List.mem_singleton.mp hrecord
    exact ⟨⟨fun hset => absurd hunset hset, fun _ => ⟨rfl, rfl⟩⟩, rfl⟩
  · obtain ⟨hflag, hrecords⟩ := horiginal thread hin
    rw [if_neg hunset]
    refine ⟨hflag, fun record hrecord => ?_⟩
    simp only [callOriginal, CaptureLog.records, List.append_nil, List.mem_cons] at hrecord
    rcases hrecord with rfl | hinner
    · exact ⟨⟨fun _ => rfl, fun hnone => absurd hnone hunset⟩, rfl⟩
    · exact hrecords record hinner

theorem Quiet.closesocket {original : Hooked ℤ} (horiginal : Quiet original) (s : UInt64) :
    Quiet (closesocketDetour s original) := by
  intro thread hin
  have hevict : Quiet (do
      modifyShared fun shared =>
        if shared.pendingLocked then shared
        else { shared with pending := evictSocket shared.pending s }
      let tramp := (← getShared).trampoline .closesocket
      if tramp ≠ 0 then original else pure (-1) : Hooked ℤ) := by
    refine (callsNothing_modifyShared _).quiet.bind fun _ => ?_
    refine callsNothing_getShared.quiet.bind fun _ => ?_
    exact .ite horiginal (CallsNothing.pure _).quiet
  obtain ⟨hflag, hrecords⟩ := hevict thread hin
  refine ⟨hflag, fun record hrecord => hrecords record ?_⟩
  simpa only [closesocketDetour, CaptureLog.records, List.append_nil] using hrecord

/-- Whatever an original does inside a detour is quiet. -/
theorem OriginalCode.run_quiet (code : OriginalCode) : Quiet code.run := by
  induction code with
  | ret value => exact (CallsNothing.pure value).quiet
  | world change rest ih =>
      refine (callsNothing_modifyShared change).quiet.bind fun _ => ?_
      exact callsNothing_getShared.quiet.bind ih
  | call hooked original rest horiginal hrest => exact (horiginal.detour hooked).bind hrest
  | closesocket s original rest horiginal hrest => exact (horiginal.closesocket s).bind hrest

end Quiet

/-- In a tree of calls that starts outside the detours every detour is transparent, only
the root does anything for the capture, and the flag is clear again at the end. -/
theorem detour_tree (root : HookedCall) (original : OriginalCode) (thread : CaptureThread)
    (hout : thread.inHook = false) :
    ∃ returned after log, detour root original.run thread = (returned, after, log) ∧
      after.inHook = false ∧
      ∃ first nested, log.records = first :: nested ∧
        first.call = root ∧ first.returned = returned ∧
        (∀ record ∈ log.records, record.Transparent) ∧
        ∀ record ∈ nested, record.touches = [] := by
  obtain ⟨after, hafter, hguarded⟩ := runDetour_eq_guarded root
  by_cases hunset : thread.shared.trampoline root.function = 0
  · have hrun : detour root original.run thread = (root.failureValue, thread,
        .detour root (thread.shared.trampoline root.function) root.failureValue .nil .nil) := by
      simp only [detour, hguarded, guarded_unresolved hout hunset]
    refine ⟨_, _, _, hrun, hout, _, [], rfl, rfl, rfl, fun record hrecord => ?_, by simp⟩
    obtain rfl := List.mem_singleton.mp hrecord
    exact ⟨fun hset => absurd hunset hset, fun _ => ⟨rfl, rfl⟩⟩
  · obtain ⟨-, hquiet⟩ := original.run_quiet { thread with inHook := true } rfl
    rcases hcalled : original.run { thread with inHook := true } with ⟨returned, called, body⟩
    rcases hfinished : after returned called with ⟨_, finished, later⟩
    obtain ⟨-, horiginals, hrecords⟩ := hafter returned called
    simp only [hcalled] at hquiet
    simp only [hfinished] at horiginals hrecords
    have hrun : detour root original.run thread =
        (returned, { finished with inHook := false },
          .detour root (thread.shared.trampoline root.function) returned
            (.original ⟨thread.shared.trampoline root.function, root, returned⟩ body
              (later.append .nil)) .nil) := by
      simp only [detour, hguarded, guarded_resolved hout hunset, hcalled, hfinished]
    have hnested : ∀ record ∈ body.records ++ (later.append .nil).records ++ [],
        record.Transparent ∧ record.touches = [] := by
      intro record hrecord
      rw [List.append_nil, CaptureLog.records_append, hrecords, CaptureLog.records,
        List.append_nil, List.append_nil] at hrecord
      exact hquiet record hrecord
    refine ⟨_, _, _, hrun, rfl, _, _, rfl, rfl, rfl, ?_, fun record hrecord =>
      (hnested record hrecord).2⟩
    intro record hrecord
    rcases List.mem_cons.mp hrecord with rfl | hinner
    · refine ⟨fun _ => ?_, fun hnone => absurd hnone hunset⟩
      simp [CaptureLog.originals, horiginals]
    · exact (hnested record hinner).1

/-- A thread outside the detours, with all trampolines set. -/
def sampleThread : CaptureThread where
  inHook := false
  shared := {
    memory := fun _ => 0
    trampoline := fun _ => 0x7000
    ring := FrameRing.new 65536 captureMaxBytes
    ringLocked := false
    pending := []
    pendingLocked := false
    apcGap := 0
    capHitCount := 0
    wsaLastError := 0
    nowMs := 0 }

/-- A `send` that is a `WSASend` of its own. -/
def sampleSend : HookedCall := .send 3 0x1000 5 0

def sampleOriginal : OriginalCode :=
  .call (.wsasend 3 0x2000 1 0x3000 0 0 0) (.ret 0) fun _ => .ret 5

theorem detour_tree_sample :
    ∃ returned after log,
      detour sampleSend sampleOriginal.run sampleThread = (returned, after, log) ∧
      after.inHook = false ∧
      ∃ first nested, log.records = first :: nested ∧
        first.call = sampleSend ∧ first.returned = returned ∧
        (∀ record ∈ log.records, record.Transparent) ∧
        ∀ record ∈ nested, record.touches = [] :=
  detour_tree sampleSend sampleOriginal sampleThread rfl

/-- The outer call captures its five bytes, the inner one nothing. -/
example : ((detour sampleSend sampleOriginal.run sampleThread).2.2.records.map fun record =>
    (record.returned, record.touches)) = [(5, [.capture .c2s 3 0x1000 5]), (0, [])] := by
  decide

end FrogAgent.Protocol
