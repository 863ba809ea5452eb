import FrogAgent.Host.JournalRevert
import FrogAgent.Lib.MarkedLog

/-!
# Permanent writes and the revert

`mem.write_permanent` is documented as the declaration that a change survives the stop of
the script, and it keeps that by not recording anything in the journal.  The journal is
not told about a permanent write either, so an entry from an earlier `mem.write` or
`mem.write_if` still takes the location back, over the permanent value.
-/

namespace FrogAgent.PermanentWrites

open FrogAgent.ByteMemory
open FrogAgent.JournalRevert
open FrogAgent.MarkedLog
open FrogAgent.MemHost
open FrogAgent.TypedValue

/-- One call of the three, with the guest memory at the time of the call. -/
inductive WriteCall where
  | write (guest : Option (List UInt8)) (addr : BitVec 64) (ty inPtr inLen : BitVec 32)
  | writeIf (guest : Option (List UInt8)) (addr : BitVec 64)
      (ty expPtr expLen newPtr newLen : BitVec 32)
  | writePermanent (guest : Option (List UInt8)) (addr : BitVec 64)
      (ty inPtr inLen : BitVec 32)

def WriteCall.perform (backend : Backend) (caller : Caller) : WriteCall → Caller × ℤ
  | .write guest addr ty inPtr inLen =>
      hostWrite backend { caller with guest := guest } addr ty inPtr inLen
  | .writeIf guest addr ty expPtr expLen newPtr newLen =>
      hostWriteIf backend { caller with guest := guest } addr ty expPtr expLen newPtr newLen
  | .writePermanent guest addr ty inPtr inLen =>
      hostWritePermanent backend { caller with guest := guest } addr ty inPtr inLen

def performAll (backend : Backend) (caller : Caller) (calls : List WriteCall) : Caller :=
  calls.foldl (fun caller call => (call.perform backend caller).1) caller

/-- Every call returns `OK` in the state it finds. -/
def Successful (backend : Backend) : Caller → List WriteCall → Prop
  | _, [] => True
  | caller, call :: calls =>
      (call.perform backend caller).2 = Status.ok ∧
        Successful backend (call.perform backend caller).1 calls

/-- The guest's bytes of the width of the type, at the address. -/
def argument (guest : Option (List UInt8)) (addr : BitVec 64) (ty ptr len : BitVec 32) :
    Option (Patch UInt8) := do
  let valType ← typeOf ty
  let width ← valType.fixedWidth
  let bytes ← readGuest guest ptr len
  some ⟨addr.toNat, bytes.take width⟩

/-- What the arguments of a call ask to be written. -/
def WriteCall.asked : WriteCall → Option (Marked UInt8)
  | .write guest addr ty inPtr inLen =>
      (argument guest addr ty inPtr inLen).map (Marked.mk false)
  | .writeIf guest addr ty _ _ newPtr newLen =>
      (argument guest addr ty newPtr newLen).map (Marked.mk false)
  | .writePermanent guest addr ty inPtr inLen =>
      (argument guest addr ty inPtr inLen).map (Marked.mk true)

def askedWrites (calls : List WriteCall) : List (Marked UInt8) :=
  calls.filterMap WriteCall.asked

/-- Not a permanent write. -/
def revertible (write : Marked UInt8) : Bool := !write.permanent

/-- In whatever order the entries are written back, a location whose last write is
permanent holds what that call wrote, and any other written location its byte from before
its first write that is not permanent. -/
def PermanentSurvives (backend : Backend) (runtimeId : ℕ) (memory : Memory UInt8)
    (calls : List WriteCall) : Prop :=
  ∀ order,
    order.Perm (performAll backend (spawnCaller runtimeId memory)
      calls).data.writeJournal.takeEntries.1 →
    ∀ address write, lastWrite (askedWrites calls) address = some write →
      revertEntries backend
        (performAll backend (spawnCaller runtimeId memory) calls).process order address =
          if write.permanent then store memory write.patch address
          else valueBefore revertible memory (askedWrites calls) address

/-- Any two calls have the same address and width or disjoint ranges. -/
def RangesAgree (calls : List WriteCall) : Prop :=
  ∀ left ∈ askedWrites calls, ∀ right ∈ askedWrites calls,
    SameRange left.patch right.patch ∨ left.patch.Disjoint right.patch

/-- `permanent`: a location whose last write is permanent is covered by no captured write,
unless that call wrote what the location held before the first of them.  `unreadable`:
a location whose last write is not permanent can be read for the capture, unless that call
wrote what the location held before its first write that is not permanent. -/
structure Undisturbed (backend : Backend) (memory : Memory UInt8)
    (writes : List (Marked UInt8)) : Prop where
  permanent : ∀ address write, lastWrite writes address = some write →
    write.permanent = true →
    (∃ other ∈ writes, MarkedLog.captured backend.readable other = true ∧
      other.patch.Covers address) →
    store memory write.patch address =
      valueBefore (MarkedLog.captured backend.readable) memory writes address
  unreadable : ∀ address write, lastWrite writes address = some write →
    write.permanent = false →
    backend.readable write.patch.start write.patch.cells.length = false →
    store memory write.patch address = valueBefore revertible memory writes address

/-! ## One call -/

/-- A successful call with this write: the range is writable and not empty, and the logged
state takes one step. -/
structure Performs (backend : Backend) (before after : Caller) (write : Marked UInt8) :
    Prop where
  writable : backend.writable write.patch.start write.patch.cells.length = true
  nonempty : write.patch.cells ≠ []
  logged_eq : logged after = MarkedLog.step backend.readable (logged before) write

section Typed

variable {T : Type} [MemValue T] {backend : Backend} {caller : Caller} {addr : BitVec 64}
variable {bytes : List UInt8} {value : T}

theorem encoded_ne_nil (hvalue : MemValue.fromLeBytesSpine bytes = some value) :
    MemValue.toLeBytesBuf value ≠ [] := by
  have hpos := MemValue.width_pos (T := T)
  rw [← length_toLeBytesBuf hvalue] at hpos
  exact List.ne_nil_of_length_pos hpos

theorem writable_of_apiWrite {memory after : Memory UInt8}
    (hwrite : apiWrite backend memory addr value = some after) :
    backend.writable addr.toNat (MemValue.toLeBytesBuf value).length = true ∧
      after = store memory ⟨addr.toNat, MemValue.toLeBytesBuf value⟩ := by
  rw [apiWrite, rawWrite] at hwrite
  split at hwrite
  case isTrue hwritable => exact ⟨hwritable, (Option.some.inj hwrite).symm⟩
  case isFalse => contradiction

theorem journalledWrite_performs (hvalue : MemValue.fromLeBytesSpine bytes = some value)
    (hok : (journalledWrite backend caller addr value).2 = Status.ok) :
    Performs backend caller (journalledWrite backend caller addr value).1
      ⟨false, ⟨addr.toNat, bytes.take (MemValue.width T)⟩⟩ := by
  rw [← MemValue.toLeBytesBuf_fromLeBytesSpine bytes value hvalue]
  have hlength := length_toLeBytesBuf hvalue
  cases hwrite : apiWrite backend caller.process addr value with
  | none =>
      simp only [journalledWrite, hwrite] at hok
      exact absurd hok (by decide)
  | some after =>
      obtain ⟨hwritable, hafter⟩ := writable_of_apiWrite hwrite
      refine ⟨hwritable, encoded_ne_nil hvalue, ?_⟩
      cases hreadable : backend.readable addr.toNat (MemValue.width T) with
      | true =>
          rw [logged_journalledWrite caller addr hvalue hreadable (hlength ▸ hwritable)]
          simp [MarkedLog.step, MarkedLog.captured, UndoLog.step, hlength, hreadable]
      | false =>
          -- Nothing can be read, so nothing is captured; the write still succeeds.
          have hdata := data_journalledWrite backend caller addr hvalue
          rw [captured_unreadable caller (hlength ▸ hreadable)] at hdata
          have hprocess : (journalledWrite backend caller addr value).1.process = after := by
            simp only [journalledWrite, hwrite]
          rw [logged, hdata, hprocess, hafter]
          simp [MarkedLog.step, MarkedLog.captured, logged, hlength, hreadable]

theorem hostWriteTyped_performs {inPtr inLen : BitVec 32}
    (hok : (hostWriteTyped T backend caller addr inPtr inLen).2 = Status.ok) :
    ∃ bytes, readGuest caller.guest inPtr inLen = some bytes ∧
      Performs backend caller (hostWriteTyped T backend caller addr inPtr inLen).1
        ⟨false, ⟨addr.toNat, bytes.take (MemValue.width T)⟩⟩ := by
  unfold hostWriteTyped at hok ⊢
  cases hguest : readGuest caller.guest inPtr inLen with
  | none =>
      simp only [hguest] at hok
      exact absurd hok (by decide)
  | some bytes =>
      simp only [hguest] at hok
      refine ⟨bytes, rfl, ?_⟩
      cases hvalue : MemValue.fromLeBytesSpine (T := T) bytes with
      | none =>
          simp only [hvalue] at hok
          exact absurd hok (by decide)
      | some value =>
          simp only [hvalue] at hok ⊢
          exact journalledWrite_performs hvalue hok

theorem hostWriteIfTyped_performs [PartialEq T] {expBytes newBytes : List UInt8}
    (hok : (hostWriteIfTyped T backend caller addr expBytes newBytes).2 = Status.ok) :
    Performs backend caller (hostWriteIfTyped T backend caller addr expBytes newBytes).1
      ⟨false, ⟨addr.toNat, newBytes.take (MemValue.width T)⟩⟩ := by
  unfold hostWriteIfTyped apiRead at hok ⊢
  cases hexpected : MemValue.fromLeBytesSpine (T := T) expBytes with
  | none =>
      simp only [hexpected] at hok
      exact absurd hok (by decide)
  | some expected =>
      cases hnew : MemValue.fromLeBytesSpine (T := T) newBytes with
      | none =>
          simp only [hexpected, hnew] at hok
          exact absurd hok (by decide)
      | some new =>
          cases hread : rawRead backend caller.process addr.toNat (MemValue.width T) with
          | none =>
              simp only [hexpected, hnew, hread] at hok
              exact absurd hok (by decide)
          | some found =>
              cases hcurrent : MemValue.fromLeBytesSpine (T := T) found with
              | none =>
                  simp only [hexpected, hnew, hread, hcurrent] at hok
                  exact absurd hok (by decide)
              | some current =>
                  simp only [hexpected, hnew, hread, hcurrent] at hok
                  simp only [hcurrent]
                  split at hok
                  case isTrue hequal =>
                    rw [if_pos hequal]
                    exact journalledWrite_performs hnew hok
                  case isFalse =>
                    exact absurd hok (by decide : Status.changed ≠ Status.ok)

theorem hostWritePermanentTyped_performs {inPtr inLen : BitVec 32}
    (hok : (hostWritePermanentTyped T backend caller addr inPtr inLen).2 = Status.ok) :
    ∃ bytes, readGuest caller.guest inPtr inLen = some bytes ∧
      Performs backend caller
        (hostWritePermanentTyped T backend caller addr inPtr inLen).1
        ⟨true, ⟨addr.toNat, bytes.take (MemValue.width T)⟩⟩ := by
  unfold hostWritePermanentTyped at hok ⊢
  cases hguest : readGuest caller.guest inPtr inLen with
  | none =>
      simp only [hguest] at hok
      exact absurd hok (by decide)
  | some bytes =>
      simp only [hguest] at hok
      refine ⟨bytes, rfl, ?_⟩
      cases hvalue : MemValue.fromLeBytesSpine (T := T) bytes with
      | none =>
          simp only [hvalue] at hok
          exact absurd hok (by decide)
      | some value =>
          rw [← MemValue.toLeBytesBuf_fromLeBytesSpine bytes value hvalue]
          cases hwrite : apiWrite backend caller.process addr value with
          | none =>
              simp only [hvalue, hwrite] at hok
              exact absurd hok (by decide)
          | some after =>
              obtain ⟨hwritable, hafter⟩ := writable_of_apiWrite hwrite
              refine ⟨hwritable, encoded_ne_nil hvalue, ?_⟩
              simp only [hvalue, hwrite, hafter]
              simp [MarkedLog.step, MarkedLog.captured, logged]

end Typed

theorem exists_dispatched {α : Type} (valType : ValType)
    (fixed : (T : Type) → [MemValue T] → [PartialEq T] → α) (other : α) :
    valType.dispatch fixed other = other ∨
      ∃ (T : Type) (_ : MemValue T) (_ : PartialEq T),
        valType.fixedWidth = some (MemValue.width T) ∧
        valType.dispatch fixed other = fixed T := by
  cases valType <;>
    first
    | exact Or.inr ⟨_, inferInstance, inferInstance, rfl, rfl⟩
    | exact Or.inl rfl

theorem argument_eq {guest : Option (List UInt8)} {ty ptr len : BitVec 32}
    {valType : ValType} {width : ℕ} {bytes : List UInt8} (addr : BitVec 64)
    (hty : typeOf ty = some valType) (hwidth : valType.fixedWidth = some width)
    (hguest : readGuest guest ptr len = some bytes) :
    argument guest addr ty ptr len = some ⟨addr.toNat, bytes.take width⟩ := by
  simp [argument, hty, hwidth, hguest]

theorem Performs.with_guest {backend : Backend} {caller after : Caller}
    {write : Marked UInt8} {guest : Option (List UInt8)}
    (hperforms : Performs backend { caller with guest := guest } after write) :
    Performs backend caller after write :=
  ⟨hperforms.writable, hperforms.nonempty, hperforms.logged_eq⟩

/-- A dispatch that returns `OK` went to one of the fixed-width types. -/
theorem exists_dispatched_of_ok {valType : ValType}
    {fixed : (T : Type) → [MemValue T] → [PartialEq T] → Caller × ℤ} {caller : Caller}
    (hok : (valType.dispatch fixed (caller, Status.errBadType)).2 = Status.ok) :
    ∃ (T : Type) (_ : MemValue T) (_ : PartialEq T),
      valType.fixedWidth = some (MemValue.width T) ∧
      valType.dispatch fixed (caller, Status.errBadType) = fixed T := by
  have hrefused : Status.errBadType ≠ Status.ok := by decide
  rcases exists_dispatched valType fixed (caller, Status.errBadType) with hother | hfixed
  · rw [hother] at hok
    exact absurd hok hrefused
  · exact hfixed

/-- A call that returns `OK` performs the write its arguments ask for. -/
theorem perform_performs {backend : Backend} {caller : Caller} {call : WriteCall}
    (hok : (call.perform backend caller).2 = Status.ok) :
    ∃ write, call.asked = some write ∧
      Performs backend caller (call.perform backend caller).1 write := by
  have hrefused : Status.errBadType ≠ Status.ok := by decide
  cases call with
  | write guest addr ty inPtr inLen =>
      simp only [WriteCall.perform, hostWrite] at hok ⊢
      cases hty : ValType.fromTag (UInt8.ofBitVec (ty.truncate 8)) with
      | none =>
          simp only [hty] at hok
          exact absurd hok hrefused
      | some valType =>
          simp only [hty] at hok ⊢
          obtain ⟨T, _, _, hwidth, hfixed⟩ := exists_dispatched_of_ok hok
          rw [hfixed] at hok ⊢
          obtain ⟨bytes, hguest, hperforms⟩ := hostWriteTyped_performs hok
          refine ⟨_, ?_, hperforms.with_guest⟩
          rw [WriteCall.asked, argument_eq addr hty hwidth hguest, Option.map_some]
  | writeIf guest addr ty expPtr expLen newPtr newLen =>
      simp only [WriteCall.perform, hostWriteIf] at hok ⊢
      cases hty : ValType.fromTag (UInt8.ofBitVec (ty.truncate 8)) with
      | none =>
          simp only [hty] at hok
          exact absurd hok hrefused
      | some valType =>
          cases hexp : readGuest guest expPtr expLen with
          | none =>
              simp only [hty, hexp] at hok
              exact absurd hok hrefused
          | some expBytes =>
              cases hguest : readGuest guest newPtr newLen with
              | none =>
                  simp only [hty, hexp, hguest] at hok
                  exact absurd hok hrefused
              | some newBytes =>
                  simp only [hty, hexp, hguest] at hok ⊢
                  obtain ⟨T, _, _, hwidth, hfixed⟩ := exists_dispatched_of_ok hok
                  rw [hfixed] at hok ⊢
                  refine ⟨_, ?_, (hostWriteIfTyped_performs hok).with_guest⟩
                  rw [WriteCall.asked, argument_eq addr hty hwidth hguest, Option.map_some]
  | writePermanent guest addr ty inPtr inLen =>
      simp only [WriteCall.perform, hostWritePermanent] at hok ⊢
      cases hty : ValType.fromTag (UInt8.ofBitVec (ty.truncate 8)) with
      | none =>
          simp only [hty] at hok
          exact absurd hok hrefused
      | some valType =>
          simp only [hty] at hok ⊢
          obtain ⟨T, _, _, hwidth, hfixed⟩ := exists_dispatched_of_ok hok
          rw [hfixed] at hok ⊢
          obtain ⟨bytes, hguest, hperforms⟩ := hostWritePermanentTyped_performs hok
          refine ⟨_, ?_, hperforms.with_guest⟩
          rw [WriteCall.asked, argument_eq addr hty hwidth hguest, Option.map_some]

/-! ## A run of calls -/

section Run

variable {backend : Backend} {caller : Caller} {calls : List WriteCall}

theorem askedWrites_cons {call : WriteCall} {write : Marked UInt8}
    (hasked : call.asked = some write) :
    askedWrites (call :: calls) = write :: askedWrites calls := by
  rw [askedWrites, List.filterMap_cons_some hasked]
  rfl

/-- The journal of successful calls is the log of the writes they asked for. -/
theorem logged_performAll (hsuccess : Successful backend caller calls) :
    logged (performAll backend caller calls) =
      (askedWrites calls).foldl (MarkedLog.step backend.readable) (logged caller) := by
  induction calls generalizing caller with
  | nil => rfl
  | cons call calls ih =>
      obtain ⟨hok, hrest⟩ := hsuccess
      obtain ⟨write, hasked, hperforms⟩ := perform_performs hok
      rw [askedWrites_cons hasked, List.foldl_cons, ← hperforms.logged_eq, ← ih hrest]
      rfl

theorem askedWrites_performed (hsuccess : Successful backend caller calls)
    {write : Marked UInt8} (hwrite : write ∈ askedWrites calls) :
    backend.writable write.patch.start write.patch.cells.length = true ∧
      write.patch.cells ≠ [] := by
  induction calls generalizing caller with
  | nil => contradiction
  | cons call calls ih =>
      obtain ⟨hok, hrest⟩ := hsuccess
      obtain ⟨performed, hasked, hperforms⟩ := perform_performs hok
      rw [askedWrites_cons hasked] at hwrite
      rcases List.mem_cons.mp hwrite with rfl | htail
      · exact ⟨hperforms.writable, hperforms.nonempty⟩
      · exact ih hrest htail

theorem aligned_askedWrites (hsuccess : Successful backend caller calls)
    (hranges : RangesAgree calls) : Aligned (askedWrites calls) :=
  ⟨hranges, fun _ hwrite => (askedWrites_performed hsuccess hwrite).2⟩

/-- Whatever the order of the entries, the revert takes every location back to its byte
from before the first captured write. -/
theorem revertEntries_performAll {runtimeId : ℕ} {memory : Memory UInt8}
    (hsuccess : Successful backend (spawnCaller runtimeId memory) calls)
    (hranges : RangesAgree calls) {order : List (Patch UInt8)}
    (horder : order.Perm (performAll backend (spawnCaller runtimeId memory)
      calls).data.writeJournal.takeEntries.1) :
    revertEntries backend
        (performAll backend (spawnCaller runtimeId memory) calls).process order =
      valueBefore (MarkedLog.captured backend.readable) memory (askedWrites calls) := by
  have hlogged : logged (performAll backend (spawnCaller runtimeId memory) calls) =
      MarkedLog.run backend.readable memory (askedWrites calls) :=
    logged_performAll hsuccess
  have hprocess : (performAll backend (spawnCaller runtimeId memory) calls).process =
      (MarkedLog.run backend.readable memory (askedWrites calls)).1 :=
    congrArg Prod.fst hlogged
  have hentries : (performAll backend (spawnCaller runtimeId memory)
      calls).data.writeJournal.takeEntries.1 =
      (MarkedLog.run backend.readable memory (askedWrites calls)).2 :=
    congrArg Prod.snd hlogged
  rw [hentries] at horder
  rw [revertEntries_eq_storeAll, hprocess]
  · exact (aligned_askedWrites hsuccess hranges).replay_eq horder
  · intro entry hentry
    obtain ⟨before, write, after, hsplit, -, -, rfl⟩ :=
      exists_write (horder.mem_iff.mp hentry)
    have hmem : write ∈ askedWrites calls := by
      rw [hsplit]
      simp
    simpa [UndoLog.capture] using (askedWrites_performed hsuccess hmem).1

end Run

/-! ## When permanent writes survive -/

section Survival

variable {readable : ℕ → ℕ → Bool} {memory : Memory UInt8} {writes : List (Marked UInt8)}
variable {address : ℕ} {write : Marked UInt8}

/-- Without a captured write the location keeps what its last write put there. -/
theorem valueBefore_uncaptured (hlast : lastWrite writes address = some write)
    (hnone : ∀ other ∈ writes, MarkedLog.captured readable other = true →
      ¬ other.patch.Covers address) :
    valueBefore (MarkedLog.captured readable) memory writes address =
      store memory write.patch address := by
  rw [valueBefore_of_none hnone, storeAll_lastWrite hlast]

/-- The writes to one location have one range, so they are captured together. -/
theorem captured_eq (haligned : Aligned writes)
    (hlast : lastWrite writes address = some write) {other : Marked UInt8}
    (hother : other ∈ writes) (hcovers : other.patch.Covers address) :
    MarkedLog.captured readable other =
      (revertible other && readable write.patch.start write.patch.cells.length) := by
  obtain ⟨hwrite, hinside⟩ := lastWrite_eq_some hlast
  have hsame := haligned.same_of_covers hother hwrite hcovers hinside
  rw [MarkedLog.captured, hsame.1, hsame.2, revertible]

theorem valueBefore_captured (haligned : Aligned writes)
    (hlast : lastWrite writes address = some write) :
    valueBefore (MarkedLog.captured readable) memory writes address =
      if readable write.patch.start write.patch.cells.length then
        valueBefore revertible memory writes address
      else store memory write.patch address := by
  split
  case isTrue hreadable =>
    apply valueBefore_congr
    intro other hother hcovers
    rw [captured_eq haligned hlast hother hcovers, hreadable, Bool.and_true]
  case isFalse hunreadable =>
    apply valueBefore_uncaptured hlast
    intro other hother hcaptured hcovers
    rw [captured_eq haligned hlast hother hcovers, Bool.and_eq_true] at hcaptured
    exact hunreadable hcaptured.2

end Survival

/-- Permanent writes survive the revert, and the others are undone, exactly for the
sequences that leave them undisturbed. -/
theorem permanentSurvives_iff_undisturbed (backend : Backend) (runtimeId : ℕ)
    (memory : Memory UInt8) (calls : List WriteCall)
    (hsuccess : Successful backend (spawnCaller runtimeId memory) calls)
    (hranges : RangesAgree calls) :
    PermanentSurvives backend runtimeId memory calls ↔
      Undisturbed backend memory (askedWrites calls) := by
  have haligned := aligned_askedWrites hsuccess hranges
  constructor
  · intro hsurvives
    have hreverted : ∀ address write,
        lastWrite (askedWrites calls) address = some write →
        valueBefore (MarkedLog.captured backend.readable) memory (askedWrites calls)
            address =
          if write.permanent then store memory write.patch address
          else valueBefore revertible memory (askedWrites calls) address := by
      intro address write hlast
      have hfinal := hsurvives _ (List.Perm.refl _) address write hlast
      rwa [revertEntries_performAll hsuccess hranges (List.Perm.refl _)] at hfinal
    constructor
    · intro address write hlast hpermanent _
      have hvalue := hreverted address write hlast
      rw [if_pos hpermanent] at hvalue
      exact hvalue.symm
    · intro address write hlast hpermanent hunreadable
      have hvalue := hreverted address write hlast
      rw [valueBefore_captured haligned hlast, hunreadable, hpermanent] at hvalue
      simpa using hvalue
  · intro hundisturbed order horder address write hlast
    rw [revertEntries_performAll hsuccess hranges horder]
    split
    case isTrue hpermanent =>
      by_cases hcaptured : ∃ other ∈ askedWrites calls,
          MarkedLog.captured backend.readable other = true ∧ other.patch.Covers address
      · exact (hundisturbed.permanent address write hlast hpermanent hcaptured).symm
      · apply valueBefore_uncaptured hlast
        intro other hother htaken hcovers
        exact hcaptured ⟨other, hother, htaken, hcovers⟩
    case isFalse hrevertible =>
      rw [valueBefore_captured haligned hlast]
      split
      case isTrue => rfl
      case isFalse hunreadable =>
        exact hundisturbed.unreadable address write hlast
          (Bool.eq_false_of_not_eq_true hrevertible)
          (Bool.eq_false_of_not_eq_true hunreadable)

/-- A permanent `u8` of one at an address. -/
def permanentOne (addr : BitVec 64) : WriteCall :=
  .writePermanent (some [1]) addr 0 0 1

/-- A `u8` of one at an address, to be reverted. -/
def revertibleOne (addr : BitVec 64) : WriteCall := .write (some [1]) addr 0 0 1

/-- A permanent write and another one elsewhere. -/
theorem permanentSurvives_separate :
    PermanentSurvives flatBackend 1 (fun _ => 0)
      [revertibleOne 0x1000, permanentOne 0x2000] := by
  have hwrites : askedWrites [revertibleOne 0x1000, permanentOne 0x2000] =
      [⟨false, ⟨0x1000, [1]⟩⟩, ⟨true, ⟨0x2000, [1]⟩⟩] := rfl
  have hranges : RangesAgree [revertibleOne 0x1000, permanentOne 0x2000] := by
    intro left hleft right hright
    rw [hwrites] at hleft hright
    simp only [List.mem_cons, List.not_mem_nil, or_false] at hleft hright
    rcases hleft with rfl | rfl <;> rcases hright with rfl | rfl
    · exact Or.inl ⟨rfl, rfl⟩
    · refine Or.inr fun address hcovers hinside => ?_
      simp only [Patch.Covers, List.length_cons, List.length_nil] at hcovers hinside
      omega
    · refine Or.inr fun address hcovers hinside => ?_
      simp only [Patch.Covers, List.length_cons, List.length_nil] at hcovers hinside
      omega
    · exact Or.inl ⟨rfl, rfl⟩
  refine (permanentSurvives_iff_undisturbed flatBackend 1 (fun _ => 0)
    [revertibleOne 0x1000, permanentOne 0x2000] ⟨rfl, rfl, trivial⟩ hranges).mpr ⟨?_, ?_⟩
  · intro address write hlast hpermanent hcaptured
    obtain ⟨hwrite, hcovers⟩ := lastWrite_eq_some hlast
    obtain ⟨other, hother, htaken, hinside⟩ := hcaptured
    rw [hwrites] at hwrite hother
    simp only [List.mem_cons, List.not_mem_nil, or_false] at hwrite hother
    rcases hwrite with rfl | rfl
    · exact absurd hpermanent (by decide)
    · rcases hother with rfl | rfl
      · simp only [Patch.Covers, List.length_cons, List.length_nil] at hcovers hinside
        omega
      · exact absurd htaken (by decide)
  · intro address write _ _ hunreadable
    exact absurd hunreadable (by simp [flatBackend])

/-- A `mem.write` before a `mem.write_permanent` at the same address: the revert puts the
first byte back over the permanent one. -/
theorem not_permanentSurvives_after_write :
    ¬ PermanentSurvives flatBackend 1 (fun _ => 0)
      [revertibleOne 0x1000, permanentOne 0x1000] := by
  intro hsurvives
  have hbyte := hsurvives _ (List.Perm.refl _) 0x1000 ⟨true, ⟨0x1000, [1]⟩⟩ (by decide)
  revert hbyte
  decide

end FrogAgent.PermanentWrites
