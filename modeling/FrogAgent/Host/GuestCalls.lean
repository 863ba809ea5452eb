import FrogAgent.Core.PackedArgChecked
import FrogAgent.External.Scan
import FrogAgent.Hook.HandlerCalls
import FrogAgent.Host.MemHost
import FrogAgent.Internals.Invoke
import FrogAgent.Lib.Buffer

/-!
# The host functions and guest memory

Every registered host function of `runtime/mem_host.rs` that takes guest pointers and
lengths, as a function of its 32- and 64-bit arguments.  A host function reads the
guest's linear memory, looks something up in the process, and copies the answer back
into a buffer the guest declared.  The lookups of `internals/api.rs` are parameters:
they only make validated reads of the process.
-/

namespace FrogAgent.GuestCalls

open FrogAgent.Buffer
open FrogAgent.ByteMemory
open FrogAgent.Error
open FrogAgent.HandlerCalls
open FrogAgent.Invoke
open FrogAgent.LittleEndian
open FrogAgent.MemHost
open FrogAgent.PackedArg
open FrogAgent.Scan
open FrogAgent.Signature
open FrogAgent.Slice
open FrogAgent.Slots
open FrogAgent.TypedValue

/-- What unwinds out of a host function. -/
inductive Fault where
  | slice (panic : Panic)
  | capacityOverflow (bytes : ℕ)
  deriving DecidableEq

/-- `as usize`: a negative number becomes a huge one. -/
def asUsize (word : BitVec 32) : ℕ := (word.signExtend 64).toNat

/-- `.max(0) as usize` -/
def clamped (word : BitVec 32) : ℕ := word.toInt.toNat

/-- A vector for `count` elements of `size` bytes: more than `isize::MAX` bytes are a
capacity overflow, and anything less is served. -/
def withCapacity (count size : ℕ) : Except Fault Unit :=
  if count * size < 2 ^ 63 then .ok () else .error (.capacityOverflow (count * size))

/-- `vec![0u8; len]` -/
def vecZeroed (length : ℕ) : Except Fault (List UInt8) := do
  withCapacity length 1
  return List.replicate length 0

/-! ## The state of a host call -/

/-- The current entry of `CURRENT`.  Its arguments were captured from the four register
slots. -/
def HandlerContext : Type := { handling : Handling // handling.current.args.length ≤ 4 }

structure GuestState where
  caller : Caller
  logs : List String
  current : Option HandlerContext

def GuestState.guest (state : GuestState) : Option (List UInt8) := state.caller.guest

def GuestState.setGuest (state : GuestState) (data : List UInt8) : GuestState :=
  { state with caller := { state.caller with guest := some data } }

def GuestState.setCaller (state : GuestState) (caller : Caller) : GuestState :=
  { state with caller := caller }

def GuestState.setProcess (state : GuestState) (memory : Memory UInt8) : GuestState :=
  { state with caller := { state.caller with process := memory } }

/-- The process as the host functions see it. -/
structure Host where
  backend : Backend
  internals : Internals
  process : Invoke.Process
  hooks : HookState
  original : Original
  regions : List Region
  findClass : String → Option UInt64
  fieldInfo : UInt64 → String → Option (UInt32 × ValType × Bool)
  staticField : UInt64 → String → Option UInt64
  findMethod : UInt64 → String → ℕ → Option UInt64
  methodsOf : UInt64 → List UInt64
  instances : UInt64 → List UInt64

/-- The hook runtime over the memory of the moment. -/
def Host.game (host : Host) (memory : Memory UInt8) : Game where
  internals := host.internals
  hooks := { host.hooks with memory := memory }
  original := host.original

/-- What a host function returns, unless it unwinds. -/
abbrev Outcome := Except Fault (GuestState × ℤ)

def writeGuest (guest : Option (List UInt8)) (ptr : BitVec 32) (bytes : List UInt8) :
    Option (List UInt8) := do
  let data ← guest
  if asUsize ptr + bytes.length < 2 ^ 64 then copyIn data (asUsize ptr) bytes else none

/-- Copy the answer to the guest: `failed` if `write_guest` refuses it. -/
def reply (state : GuestState) (ptr : BitVec 32) (bytes : List UInt8)
    (failed status : ℤ) : GuestState × ℤ :=
  match writeGuest state.guest ptr bytes with
  | some data => (state.setGuest data, status)
  | none => (state, failed)

/-- The answer of a function with a capacity in bytes. -/
def replyWithin (state : GuestState) (outPtr outCap : BitVec 32) (bytes : List UInt8)
    (failed status : ℤ) : GuestState × ℤ :=
  if clamped outCap < bytes.length then (state, Status.errBufTooSmall)
  else reply state outPtr bytes failed status

/-! ## `env.log` and the reads of `mem.*` -/

def hostLog (state : GuestState) (ptr len : BitVec 32) : GuestState × ℤ :=
  match readGuest state.guest ptr len with
  | some bytes => ({ state with logs := state.logs ++ [fromUtf8Lossy bytes] }, 0)
  | none => (state, 0)

def readBytes (backend : Backend) (memory : Memory UInt8) (addr : BitVec 64)
    (length : ℕ) : Except ℤ (List UInt8) :=
  if length = 0 then .error Status.errBadType
  else
    match rawRead backend memory addr.toNat length with
    | some bytes => .ok bytes
    | none => .error Status.errUnreadable

/-- The bytes before the first NUL, at most `count` of them, each validated. -/
def cstrBytes (backend : Backend) (memory : Memory UInt8) : ℕ → ℕ → Option (List UInt8)
  | 0, _ => some []
  | count + 1, addr => do
      let bytes ← rawRead backend memory (wrap addr) 1
      if bytes = [0] then some []
      else return bytes ++ (← cstrBytes backend memory count (addr + 1))

def readCstr (backend : Backend) (memory : Memory UInt8) (addr : BitVec 64) :
    Except ℤ (List UInt8) :=
  match cstrBytes backend memory 255 addr.toNat with
  | some bytes => .ok (fromUtf8Lossy bytes).toUTF8.toList
  | none => .error Status.errUnreadable

/-- The bytes `mem.read` copies to the guest. -/
def readAnswer (backend : Backend) (memory : Memory UInt8) (addr : BitVec 64)
    (ty : ValType) (len : BitVec 32) : Except ℤ (List UInt8) :=
  match ty with
  | .bytes => readBytes backend memory addr (clamped len)
  | .cstr => readCstr backend memory addr
  | ty => ty.dispatch
      (fun T _ _ => (apiRead T backend memory addr).map MemValue.toLeBytesBuf)
      (.error Status.errBadType)

def hostRead (host : Host) (state : GuestState) (addr : BitVec 64)
    (ty len outPtr outCap : BitVec 32) : GuestState × ℤ :=
  match ValType.fromTag (UInt8.ofBitVec (ty.truncate 8)) with
  | none => (state, Status.errBadType)
  | some ty =>
      match readAnswer host.backend state.caller.process addr ty len with
      | .error status => (state, status)
      | .ok bytes =>
          replyWithin state outPtr outCap bytes Status.errBufTooSmall bytes.length

/-- Addresses as the guest gets them, eight bytes each. -/
def addressBytes (addresses : List ℕ) : List UInt8 := addresses.flatMap (leBytes 8)

def hostScan (host : Host) (state : GuestState)
    (patPtr patLen outPtr outCapCount : BitVec 32) : Outcome :=
  match readGuest state.guest patPtr patLen with
  | none => .ok (state, Status.errBadType)
  | some pattern =>
      match (aobScan state.caller.process host.regions pattern
          (clamped outCapCount)).run with
      | .error panic => .error (.slice panic)
      | .ok hits => do
          let hits := hits.getD []
          withCapacity hits.length 8
          return reply state outPtr (addressBytes hits) Status.errBufTooSmall hits.length

/-- Base, size and protection of a region, twenty bytes. -/
def regionBytes (region : Region) : List UInt8 :=
  leBytes 8 region.start ++ leBytes 8 (region.stop - region.start) ++
    leBytes 4 region.protect.toNat

def hostRegions (host : Host) (state : GuestState) (outPtr outCapCount : BitVec 32) :
    Outcome := do
  let taken := host.regions.take (clamped outCapCount)
  withCapacity taken.length 20
  return reply state outPtr (taken.flatMap regionBytes) Status.errBufTooSmall taken.length

/-! ## `il2cpp.*` -/

/-- A handle or address as the `i64` the guest gets, zero for none. -/
def pointerStatus (answer : Option UInt64) : ℤ :=
  match answer with
  | some word => word.toInt64.toInt
  | none => 0

/-- A function that only looks something up by a name from guest memory; `missing` if
the name cannot be read. -/
def lookupByName (state : GuestState) (namePtr nameLen : BitVec 32) (missing : ℤ)
    (lookup : String → ℤ) : GuestState × ℤ :=
  match readGuest state.guest namePtr nameLen with
  | none => (state, missing)
  | some name => (state, lookup (fromUtf8Lossy name))

def hostFindClass (host : Host) (state : GuestState) (namePtr nameLen : BitVec 32) :
    GuestState × ℤ :=
  lookupByName state namePtr nameLen 0 fun name => pointerStatus (host.findClass name)

/-- Offset, type and the static bit of a field in one number. -/
def packField (field : UInt32 × ValType × Bool) : ℤ :=
  field.1.toNat + field.2.1.tag.toNat * 2 ^ 32 + if field.2.2 then 2 ^ 40 else 0

def hostFieldInfo (host : Host) (state : GuestState) (klass : BitVec 64)
    (namePtr nameLen : BitVec 32) : GuestState × ℤ :=
  lookupByName state namePtr nameLen (-1) fun name =>
    match host.fieldInfo (UInt64.ofBitVec klass) name with
    | some field => packField field
    | none => -1

def getField (host : Host) (memory : Memory UInt8) (object klass : BitVec 64)
    (name : String) : Except ℤ Value :=
  match host.fieldInfo (UInt64.ofBitVec klass) name with
  | none => .error Status.errBadType
  | some (offset, ty, _) =>
      let addr := object + offset.toBitVec.zeroExtend 64
      match ty with
      | .u8 => (apiRead UInt8 host.backend memory addr).map .u8
      | .u16 => (apiRead UInt16 host.backend memory addr).map .u16
      | .u32 => (apiRead UInt32 host.backend memory addr).map .u32
      | .u64 => (apiRead UInt64 host.backend memory addr).map .u64
      | .i8 => (apiRead Int8 host.backend memory addr).map .i8
      | .i16 => (apiRead Int16 host.backend memory addr).map .i16
      | .i32 => (apiRead Int32 host.backend memory addr).map .i32
      | .i64 => (apiRead Int64 host.backend memory addr).map .i64
      | .f32 => (apiRead F32 host.backend memory addr).map .f32
      | .f64 => (apiRead F64 host.backend memory addr).map .f64
      | .bytes | .cstr => .error Status.errBadType

def hostGetField (host : Host) (state : GuestState) (object klass : BitVec 64)
    (namePtr nameLen outPtr outCap : BitVec 32) : GuestState × ℤ :=
  match readGuest state.guest namePtr nameLen with
  | none => (state, Status.errBadType)
  | some name =>
      match getField host state.caller.process object klass (fromUtf8Lossy name) with
      | .error status => (state, status)
      | .ok value =>
          replyWithin state outPtr outCap value.encode Status.errBufTooSmall
            value.encode.length

def hostStaticField (host : Host) (state : GuestState) (klass : BitVec 64)
    (namePtr nameLen : BitVec 32) : GuestState × ℤ :=
  lookupByName state namePtr nameLen 0 fun name =>
    pointerStatus (host.staticField (UInt64.ofBitVec klass) name)

def hostFindMethod (host : Host) (state : GuestState) (klass : BitVec 64)
    (namePtr nameLen argc : BitVec 32) : GuestState × ℤ :=
  lookupByName state namePtr nameLen 0 fun name =>
    pointerStatus (host.findMethod (UInt64.ofBitVec klass) name (clamped argc))

/-- The common end of the two listings: as many handles as fit, eight bytes each. -/
def replyHandles (state : GuestState) (outBuf outCapCount : BitVec 32)
    (handles : List UInt64) : Outcome := do
  let taken := handles.take (clamped outCapCount)
  withCapacity taken.length 8
  return reply state outBuf (addressBytes (taken.map UInt64.toNat)) Status.errBufTooSmall
    taken.length

def hostListMethods (host : Host) (state : GuestState) (klass : BitVec 64)
    (outBuf outCapCount : BitVec 32) : Outcome :=
  replyHandles state outBuf outCapCount (host.methodsOf (UInt64.ofBitVec klass))

def hostListInstances (host : Host) (state : GuestState) (klass : BitVec 64)
    (outBuf outCapCount : BitVec 32) : Outcome :=
  replyHandles state outBuf outCapCount (host.instances (UInt64.ofBitVec klass))

/-- The size of an `InvokeArg`. -/
def invokeArgSize : ℕ := 32

/-- The process memory a call of the runtime leaves. -/
def memoryAfter (process : Invoke.Process) (memory : Memory UInt8)
    (call : Option RuntimeCall) : Memory UInt8 :=
  match process.runtimeInvoke, call with
  | some runtimeInvoke, some call => (runtimeInvoke call).memory
  | _, _ => memory

/-- Unpack the guest's argument buffer, into a vector with room for all of them. -/
def invokeArgs (buf : List UInt8) : Except Fault (Except ℤ (List InvokeArg)) := do
  if 4 ≤ buf.length then withCapacity (leValue (buf.take 4)) invokeArgSize
  match hostInvokeArgs buf with
  | .ok args => return args
  | .error panic => throw (.slice panic)

/-- The call itself and its answer. -/
def invokeReply (host : Host) (state : GuestState) (method : ℕ) (receiver : Option UInt64)
    (args : List InvokeArg) (outBuf outCap : BitVec 32) : GuestState × ℤ :=
  let called := invokeMethod host.internals state.caller.process host.process method
    receiver args
  let state := state.setProcess (memoryAfter host.process state.caller.process called.1)
  match called.2 with
  | .error error => (state, error.code)
  | .ok value => replyWithin state outBuf outCap value.encode (-1) 0

def hostInvoke (host : Host) (state : GuestState) (methodPtr instancePtr : BitVec 64)
    (argsBuf argsLen outBuf outCap : BitVec 32) : Outcome :=
  let receiver := if instancePtr = 0 then none else some (UInt64.ofBitVec instancePtr)
  match readGuest state.guest argsBuf argsLen with
  | none => .ok (state, -1)
  | some buf => do
      match ← invokeArgs buf with
      | .error status => return (state, status)
      | .ok args =>
          return invokeReply host state methodPtr.toNat receiver args outBuf outCap

/-! ## The functions of a hook handler -/

def hookArgRead (current : Option HandlerContext) (argIdx : ℕ) :
    Except InvokeError (List UInt8) :=
  match current with
  | none => .error (.internalFailure "hook_arg outside handler")
  | some context =>
      match context.1.current.args[argIdx]? with
      | some arg => .ok arg.encode
      | none => .error (.argCountMismatch
          (UInt8.ofNat context.1.current.args.length) (UInt8.ofNat argIdx))

/-- The common end of `host_hook_arg` and `host_call_original`: the capacity is compared
as an unsigned number, and the copy is `Memory::write`. -/
def replyUnsigned (state : GuestState) (outBuf outCap : BitVec 32) (bytes : List UInt8)
    (status : ℤ) : GuestState × ℤ :=
  if asUsize outCap < bytes.length then (state, -4)
  else
    match state.guest with
    | none => (state, -3)
    | some data =>
        match copyIn data (asUsize outBuf) bytes with
        | none => (state, -1)
        | some written => (state.setGuest written, status)

def hostHookArg (state : GuestState) (argIdx outBuf outCap : BitVec 32) :
    GuestState × ℤ :=
  match hookArgRead state.current (asUsize argIdx) with
  | .error error => (state, error.code)
  | .ok bytes => replyUnsigned state outBuf outCap bytes bytes.length

/-- The slices of `InvokeArg::decode`, on bytes from the guest. -/
def decodeSlices (bytes : List UInt8) : Except Fault Unit :=
  match (InvokeArg.decodeChecked bytes).run with
  | .error panic => .error (.slice panic)
  | .ok _ => .ok ()

theorem length_hookArgWrite (game : Game) (current : CurrentContext) (argIdx : ℕ)
    (bytes : List UInt8) :
    (hookArgWrite game current argIdx bytes).1.args.length = current.args.length := by
  rw [hookArgWrite]
  split
  · rfl
  · split
    · rfl
    · exact List.length_set

/-- `hook_arg_write` on the current context. -/
def HandlerContext.argWrite (game : Game) (context : HandlerContext) (argIdx : ℕ)
    (bytes : List UInt8) : HandlerContext × Except InvokeError Unit :=
  let written := hookArgWrite game context.1.current argIdx bytes
  (⟨{ context.1 with current := written.1 },
    (length_hookArgWrite game context.1.current argIdx bytes).trans_le context.2⟩, written.2)

def hostHookSetArg (host : Host) (state : GuestState) (argIdx valBuf valLen : BitVec 32) :
    Outcome :=
  match state.guest with
  | none => .ok (state, -3)
  | some data => do
      let buf ← vecZeroed (asUsize valLen)
      match copyOut data (asUsize valBuf) buf.length with
      | none => return (state, -1)
      | some bytes =>
          match state.current with
          | none =>
              return (state,
                (InvokeError.internalFailure "hook_set_arg outside handler").code)
          | some context =>
              decodeSlices bytes
              let written := context.argWrite (host.game state.caller.process)
                (asUsize argIdx) bytes
              let state := { state with current := some written.1 }
              match written.2 with
              | .ok () => return (state, 0)
              | .error error => return (state, error.code)

theorem length_callOriginalNow (game : Game) (handling : Handling) :
    (callOriginalNow game handling).1.current.args.length =
      handling.current.args.length := by
  rw [callOriginalNow]
  split <;> rfl

def HandlerContext.callOriginal (game : Game) (context : HandlerContext) :
    HandlerContext × Except InvokeError (List UInt8) :=
  let called := callOriginalNow game context.1
  (⟨called.1, (length_callOriginalNow game context.1).trans_le context.2⟩, called.2)

def hostCallOriginal (host : Host) (state : GuestState) (outBuf outCap : BitVec 32) :
    GuestState × ℤ :=
  match state.current with
  | none => (state, (InvokeError.internalFailure "no current hook").code)
  | some context =>
      let called := context.callOriginal (host.game state.caller.process)
      let state := { state with current := some called.1 }
      match called.2 with
      | .error error => (state, error.code)
      | .ok bytes => replyUnsigned state outBuf outCap bytes 0

theorem length_hookSetReturn (current : CurrentContext) (bytes : List UInt8) :
    (hookSetReturn current bytes).1.args.length = current.args.length := by
  rw [hookSetReturn]
  split <;> rfl

def HandlerContext.setReturn (context : HandlerContext) (bytes : List UInt8) :
    HandlerContext × Except InvokeError Unit :=
  let written := hookSetReturn context.1.current bytes
  (⟨{ context.1 with current := written.1 },
    (length_hookSetReturn context.1.current bytes).trans_le context.2⟩, written.2)

def hostHookSetReturn (state : GuestState) (valBuf valLen : BitVec 32) : Outcome :=
  match state.guest with
  | none => .ok (state, -3)
  | some data => do
      let buf ← vecZeroed (asUsize valLen)
      match copyOut data (asUsize valBuf) buf.length with
      | none => return (state, -1)
      | some bytes =>
          decodeSlices bytes
          match state.current with
          | none =>
              -- The value is decoded before the context is looked up.
              if (InvokeArg.decode bytes).isNone then
                return (state, (InvokeError.marshalFailed 0 "decode failed").code)
              else
                return (state,
                  (InvokeError.internalFailure "hook_set_return outside handler").code)
          | some context =>
              let written := context.setReturn bytes
              let state := { state with current := some written.1 }
              match written.2 with
              | .ok () => return (state, 0)
              | .error error => return (state, error.code)

/-! ## The registered functions -/

inductive HostCall where
  | log (ptr len : BitVec 32)
  | read (addr : BitVec 64) (ty len outPtr outCap : BitVec 32)
  | scan (patPtr patLen outPtr outCapCount : BitVec 32)
  | regions (outPtr outCapCount : BitVec 32)
  | write (addr : BitVec 64) (ty inPtr inLen : BitVec 32)
  | writeIf (addr : BitVec 64) (ty expPtr expLen newPtr newLen : BitVec 32)
  | writePermanent (addr : BitVec 64) (ty inPtr inLen : BitVec 32)
  | findClass (namePtr nameLen : BitVec 32)
  | fieldInfo (klass : BitVec 64) (namePtr nameLen : BitVec 32)
  | getField (object klass : BitVec 64) (namePtr nameLen outPtr outCap : BitVec 32)
  | staticField (klass : BitVec 64) (namePtr nameLen : BitVec 32)
  | findMethod (klass : BitVec 64) (namePtr nameLen argc : BitVec 32)
  | listMethods (klass : BitVec 64) (outBuf outCapCount : BitVec 32)
  | listInstances (klass : BitVec 64) (outBuf outCapCount : BitVec 32)
  | invoke (methodPtr instancePtr : BitVec 64) (argsBuf argsLen outBuf outCap : BitVec 32)
  | hookArg (argIdx outBuf outCap : BitVec 32)
  | hookSetArg (argIdx valBuf valLen : BitVec 32)
  | callOriginal (outBuf outCap : BitVec 32)
  | hookSetReturn (valBuf valLen : BitVec 32)

/-- The state after one of the writes of `mem.*`. -/
def GuestState.wrote (state : GuestState) (written : Caller × ℤ) : GuestState × ℤ :=
  (state.setCaller written.1, written.2)

def hostCall (host : Host) (state : GuestState) : HostCall → Outcome
  | .log ptr len => .ok (hostLog state ptr len)
  | .read addr ty len outPtr outCap => .ok (hostRead host state addr ty len outPtr outCap)
  | .scan patPtr patLen outPtr outCapCount =>
      hostScan host state patPtr patLen outPtr outCapCount
  | .regions outPtr outCapCount => hostRegions host state outPtr outCapCount
  | .write addr ty inPtr inLen =>
      .ok (state.wrote (hostWrite host.backend state.caller addr ty inPtr inLen))
  | .writeIf addr ty expPtr expLen newPtr newLen =>
      .ok (state.wrote
        (hostWriteIf host.backend state.caller addr ty expPtr expLen newPtr newLen))
  | .writePermanent addr ty inPtr inLen =>
      .ok (state.wrote (hostWritePermanent host.backend state.caller addr ty inPtr inLen))
  | .findClass namePtr nameLen => .ok (hostFindClass host state namePtr nameLen)
  | .fieldInfo klass namePtr nameLen =>
      .ok (hostFieldInfo host state klass namePtr nameLen)
  | .getField object klass namePtr nameLen outPtr outCap =>
      .ok (hostGetField host state object klass namePtr nameLen outPtr outCap)
  | .staticField klass namePtr nameLen =>
      .ok (hostStaticField host state klass namePtr nameLen)
  | .findMethod klass namePtr nameLen argc =>
      .ok (hostFindMethod host state klass namePtr nameLen argc)
  | .listMethods klass outBuf outCapCount =>
      hostListMethods host state klass outBuf outCapCount
  | .listInstances klass outBuf outCapCount =>
      hostListInstances host state klass outBuf outCapCount
  | .invoke methodPtr instancePtr argsBuf argsLen outBuf outCap =>
      hostInvoke host state methodPtr instancePtr argsBuf argsLen outBuf outCap
  | .hookArg argIdx outBuf outCap => .ok (hostHookArg state argIdx outBuf outCap)
  | .hookSetArg argIdx valBuf valLen => hostHookSetArg host state argIdx valBuf valLen
  | .callOriginal outBuf outCap => .ok (hostCallOriginal host state outBuf outCap)
  | .hookSetReturn valBuf valLen => hostHookSetReturn state valBuf valLen

end FrogAgent.GuestCalls
