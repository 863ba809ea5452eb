import FrogAgent.Core.Journal
import FrogAgent.Core.TypedValue

/-!
# The `mem.*` host functions

The part of `runtime/mem_host.rs` through which a script writes process memory.
The two raw operations of `spine/mem_backend.rs` are total functions of the
memory except for the ranges the platform accepts, which a `Backend` lists.
-/

namespace FrogAgent.MemHost

open FrogAgent.ByteMemory
open FrogAgent.Journal
open FrogAgent.TypedValue

/-- The registered backend: which ranges `backend_read` validates and which
ranges `guarded_write` accepts. -/
structure Backend where
  readable : ℕ → ℕ → Bool
  writable : ℕ → ℕ → Bool

def rawRead (backend : Backend) (memory : Memory UInt8) (addr len : ℕ) :
    Option (List UInt8) :=
  if backend.readable addr len then some (load memory addr len) else none

def rawWrite (backend : Backend) (memory : Memory UInt8)
    (patch : Patch UInt8) : Option (Memory UInt8) :=
  if backend.writable patch.start patch.cells.length then
    some (store memory patch)
  else none

/-- The `HostState` inside the wasmi store. -/
structure HostState where
  runtimeId : ℕ
  writeJournal : WriteJournal

/-- What a host function reaches: the host state, the exported guest memory if
there is one, and the memory of the process. -/
structure Caller where
  data : HostState
  guest : Option (List UInt8)
  process : Memory UInt8

/-- Bounds-checked copy out of guest memory.  The 32-bit arguments are cast to
`usize`, so negative ones become huge and fail the range check. -/
def readGuest (guest : Option (List UInt8)) (ptr len : BitVec 32) :
    Option (List UInt8) := do
  let data ← guest
  let first := (ptr.signExtend 64).toNat
  let count := (len.signExtend 64).toNat
  if first + count < 2 ^ 64 ∧ first + count ≤ data.length then
    some ((data.drop first).take count)
  else none

/-- `Read<T> for MemAddr`. -/
def apiRead (T : Type) [MemValue T] (backend : Backend)
    (memory : Memory UInt8) (addr : BitVec 64) : Except ℤ T :=
  match rawRead backend memory addr.toNat (MemValue.width T) with
  | none => .error Status.errUnreadable
  | some bytes =>
      match MemValue.fromLeBytesSpine bytes with
      | some value => .ok value
      | none => .error Status.errBadType

/-- `Write<T> for MemAddr<ReadWrite>`. -/
def apiWrite {T : Type} [MemValue T] (backend : Backend)
    (memory : Memory UInt8) (addr : BitVec 64) (value : T) :
    Option (Memory UInt8) :=
  rawWrite backend memory ⟨addr.toNat, MemValue.toLeBytesBuf value⟩

/-- First-touch capture followed by the typed write, the common tail of
`host_write_typed` and `host_write_if_typed`. -/
def journalledWrite {T : Type} [MemValue T] (backend : Backend)
    (caller : Caller) (addr : BitVec 64) (value : T) : Caller × ℤ :=
  let width := (MemValue.valType T).fixedWidth.getD 0
  let touched :=
    if 0 < width then
      (caller.data.writeJournal.touch (rawRead backend caller.process)
        addr.toNat width).1
    else caller.data.writeJournal
  let data := { caller.data with writeJournal := touched }
  match apiWrite backend caller.process addr value with
  | some memory => ({ caller with data := data, process := memory }, Status.ok)
  | none => ({ caller with data := data }, Status.errUnwritable)

def hostWriteTyped (T : Type) [MemValue T] (backend : Backend)
    (caller : Caller) (addr : BitVec 64) (inPtr inLen : BitVec 32) :
    Caller × ℤ :=
  match readGuest caller.guest inPtr inLen with
  | none => (caller, Status.errBadType)
  | some bytes =>
      match MemValue.fromLeBytesSpine (T := T) bytes with
      | none => (caller, Status.errBadType)
      | some value => journalledWrite backend caller addr value

def hostWriteIfTyped (T : Type) [MemValue T] [PartialEq T] (backend : Backend)
    (caller : Caller) (addr : BitVec 64) (expBytes newBytes : List UInt8) :
    Caller × ℤ :=
  match MemValue.fromLeBytesSpine (T := T) expBytes,
      MemValue.fromLeBytesSpine (T := T) newBytes with
  | some expected, some new =>
      match apiRead T backend caller.process addr with
      | .error status => (caller, status)
      | .ok current =>
          if PartialEq.eq current expected then
            journalledWrite backend caller addr new
          else (caller, Status.changed)
  | _, _ => (caller, Status.errBadType)

/-- `mem.write`.  The type argument is truncated to its tag byte. -/
def hostWrite (backend : Backend) (caller : Caller) (addr : BitVec 64)
    (ty inPtr inLen : BitVec 32) : Caller × ℤ :=
  match ValType.fromTag (UInt8.ofBitVec (ty.truncate 8)) with
  | none => (caller, Status.errBadType)
  | some ty =>
      ty.dispatch (fun T _ _ => hostWriteTyped T backend caller addr inPtr inLen)
        (caller, Status.errBadType)

/-- `mem.write_if`. -/
def hostWriteIf (backend : Backend) (caller : Caller) (addr : BitVec 64)
    (ty expPtr expLen newPtr newLen : BitVec 32) : Caller × ℤ :=
  match ValType.fromTag (UInt8.ofBitVec (ty.truncate 8)),
      readGuest caller.guest expPtr expLen,
      readGuest caller.guest newPtr newLen with
  | some ty, some expBytes, some newBytes =>
      ty.dispatch
        (fun T _ _ => hostWriteIfTyped T backend caller addr expBytes newBytes)
        (caller, Status.errBadType)
  | _, _, _ => (caller, Status.errBadType)

/-- `mem.write_permanent` for one type: the typed write without the capture. -/
def hostWritePermanentTyped (T : Type) [MemValue T] (backend : Backend)
    (caller : Caller) (addr : BitVec 64) (inPtr inLen : BitVec 32) :
    Caller × ℤ :=
  match readGuest caller.guest inPtr inLen with
  | none => (caller, Status.errBadType)
  | some bytes =>
      match MemValue.fromLeBytesSpine (T := T) bytes with
      | none => (caller, Status.errBadType)
      | some value =>
          match apiWrite backend caller.process addr value with
          | some memory => ({ caller with process := memory }, Status.ok)
          | none => (caller, Status.errUnwritable)

/-- `mem.write_permanent`. -/
def hostWritePermanent (backend : Backend) (caller : Caller) (addr : BitVec 64)
    (ty inPtr inLen : BitVec 32) : Caller × ℤ :=
  match ValType.fromTag (UInt8.ofBitVec (ty.truncate 8)) with
  | none => (caller, Status.errBadType)
  | some ty =>
      ty.dispatch
        (fun T _ _ => hostWritePermanentTyped T backend caller addr inPtr inLen)
        (caller, Status.errBadType)

theorem data_hostWritePermanent (backend : Backend) (caller : Caller)
    (addr : BitVec 64) (ty inPtr inLen : BitVec 32) :
    (hostWritePermanent backend caller addr ty inPtr inLen).1.data =
      caller.data := by
  have htyped : ∀ (T : Type) [MemValue T], (hostWritePermanentTyped T backend
      caller addr inPtr inLen).1.data = caller.data := by
    intro T _
    unfold hostWritePermanentTyped
    split
    · rfl
    · split
      · rfl
      · split <;> rfl
  unfold hostWritePermanent
  cases ValType.fromTag (UInt8.ofBitVec (ty.truncate 8)) with
  | none => rfl
  | some ty => cases ty <;> first | exact htyped _ | rfl

end FrogAgent.MemHost
