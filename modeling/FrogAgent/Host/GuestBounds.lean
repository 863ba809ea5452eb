import FrogAgent.Host.GuestCalls

/-!
# Guest arguments and the bounds of guest memory

A script may pass any pointer, length or capacity, negative ones included.  This file
decides for which of them a host function is safe in every process and for every guest
memory: it returns, a negative status leaves guest memory alone, and nothing changes
outside the buffer the guest declared.  Nearly all functions are safe for all arguments.
Two convert a length to `usize` before they allocate, and two compare a capacity as an
unsigned number.
-/

namespace FrogAgent.GuestCalls

open FrogAgent.Buffer
open FrogAgent.ByteMemory
open FrogAgent.Error
open FrogAgent.HandlerCalls
open FrogAgent.Invoke
open FrogAgent.LittleEndian
open FrogAgent.Marshal
open FrogAgent.MemHost
open FrogAgent.PackedArg
open FrogAgent.Scan
open FrogAgent.Signature
open FrogAgent.Slice
open FrogAgent.Slots
open FrogAgent.TypedValue

/-! ## Safety -/

/-- The buffer a call declares: its start and its capacity in bytes.  A negative
capacity counts as zero, and a function without a buffer declares nothing. -/
def HostCall.declared : HostCall → ℕ × ℕ
  | .read _ _ _ outPtr outCap => (asUsize outPtr, clamped outCap)
  | .scan _ _ outPtr outCapCount => (asUsize outPtr, clamped outCapCount * 8)
  | .regions outPtr outCapCount => (asUsize outPtr, clamped outCapCount * 20)
  | .getField _ _ _ _ outPtr outCap => (asUsize outPtr, clamped outCap)
  | .listMethods _ outBuf outCapCount => (asUsize outBuf, clamped outCapCount * 8)
  | .listInstances _ outBuf outCapCount => (asUsize outBuf, clamped outCapCount * 8)
  | .invoke _ _ _ _ outBuf outCap => (asUsize outBuf, clamped outCap)
  | .hookArg _ outBuf outCap => (asUsize outBuf, clamped outCap)
  | .callOriginal outBuf outCap => (asUsize outBuf, clamped outCap)
  | .log _ _ | .write _ _ _ _ | .writeIf _ _ _ _ _ _ | .writePermanent _ _ _ _
  | .findClass _ _ | .fieldInfo _ _ _ | .staticField _ _ _ | .findMethod _ _ _ _
  | .hookSetArg _ _ _ | .hookSetReturn _ _ => (0, 0)

/-- What a call may do to guest memory when it returns `status`. -/
structure Contained (declared : ℕ × ℕ) (before after : Option (List UInt8))
    (status : ℤ) : Prop where
  unchanged : status < 0 → after = before
  inside : ∃ count ≤ declared.2,
    Option.Rel (SameOutside declared.1 count) before after

/-- A linear memory of 32-bit WebAssembly has at most 4 GiB. -/
def GuestState.Linear (state : GuestState) : Prop :=
  ∀ data, state.guest = some data → data.length ≤ 2 ^ 32

/-- The call returns, and stays within what it declares. -/
def Safe (host : Host) (state : GuestState) (call : HostCall) : Prop :=
  ∃ next status, hostCall host state call = .ok (next, status) ∧
    Contained call.declared state.guest next.guest status

/-- The arguments for which a function is safe. -/
def HostCall.Fits : HostCall → Prop
  | .hookSetArg _ _ valLen => 0 ≤ valLen.toInt
  | .hookSetReturn _ valLen => 0 ≤ valLen.toInt
  | .hookArg argIdx outBuf outCap =>
      0 ≤ outCap.toInt ∨ outBuf.toInt < 0 ∨ ¬ (0 ≤ argIdx.toInt ∧ argIdx.toInt < 4)
  | .callOriginal outBuf outCap => 0 ≤ outCap.toInt ∨ outBuf.toInt < 0
  | _ => True

/-! ## Conversions -/

theorem asUsize_of_nonneg {word : BitVec 32} (hword : 0 ≤ word.toInt) :
    asUsize word = clamped word := by
  have hmsb : word.msb = false := by
    rw [BitVec.msb_eq_toInt]
    exact decide_eq_false (Int.not_lt.mpr hword)
  rw [asUsize, clamped, BitVec.toInt_eq_toNat_of_msb hmsb, Int.toNat_natCast,
    BitVec.signExtend_eq_setWidth_of_msb_false hmsb, BitVec.toNat_setWidth_of_le (by decide)]

theorem le_asUsize_of_neg {word : BitVec 32} (hword : word.toInt < 0) :
    2 ^ 63 ≤ asUsize word := by
  have hmsb : word.msb = true := by
    rw [BitVec.msb_eq_toInt]
    exact decide_eq_true hword
  rw [asUsize, BitVec.toNat_signExtend, hmsb, if_pos rfl]
  exact Nat.le_trans (by decide) (Nat.le_add_left _ _)

theorem clamped_lt (word : BitVec 32) : clamped word < 2 ^ 31 := by
  have hlt : word.toInt < 2 ^ 31 := BitVec.toInt_lt
  rw [clamped, Int.toNat_lt' (by decide)]
  exact hlt

theorem withCapacity_ok {count size : ℕ} {word : BitVec 32} (hcount : count ≤ clamped word)
    (hsize : size ≤ 2 ^ 8) : withCapacity count size = .ok () := by
  have hlt : count * size < 2 ^ 63 := by
    calc count * size ≤ clamped word * 2 ^ 8 := Nat.mul_le_mul hcount hsize
      _ < 2 ^ 31 * 2 ^ 8 := Nat.mul_lt_mul_of_pos_right (clamped_lt word) (by decide)
      _ ≤ 2 ^ 63 := by decide
  rw [withCapacity, if_pos hlt]

theorem vecZeroed_of_nonneg {word : BitVec 32} (hword : 0 ≤ word.toInt) :
    vecZeroed (asUsize word) = .ok (List.replicate (asUsize word) 0) := by
  rw [vecZeroed, asUsize_of_nonneg hword,
    withCapacity_ok (Nat.le_refl (clamped word)) (by decide)]
  rfl

theorem vecZeroed_of_neg {word : BitVec 32} (hword : word.toInt < 0) :
    vecZeroed (asUsize word) = .error (.capacityOverflow (asUsize word * 1)) := by
  have hlarge : ¬ asUsize word * 1 < 2 ^ 63 := by
    rw [Nat.mul_one]
    exact Nat.not_lt.mpr (le_asUsize_of_neg hword)
  rw [vecZeroed, withCapacity, if_neg hlarge]
  rfl

/-! ## Replies -/

theorem rel_refl (start count : ℕ) (guest : Option (List UInt8)) :
    Option.Rel (SameOutside start count) guest guest := by
  cases guest with
  | none => exact .none
  | some data => exact .some (SameOutside.refl start count data)

theorem contained_same (declared : ℕ × ℕ) (guest : Option (List UInt8)) (status : ℤ) :
    Contained declared guest guest status :=
  ⟨fun _ => rfl, 0, Nat.zero_le _, rel_refl declared.1 0 guest⟩

theorem copyIn_contained {capacity start : ℕ} {data bytes after : List UInt8} {status : ℤ}
    (hstatus : 0 ≤ status) (hlength : bytes.length ≤ capacity)
    (hcopy : copyIn data start bytes = some after) :
    Contained (start, capacity) (some data) (some after) status :=
  ⟨fun hneg => absurd hneg (Int.not_lt.mpr hstatus), bytes.length, hlength,
    .some (copyIn_sameOutside hcopy)⟩

theorem reply_contained {capacity : ℕ} (state : GuestState) (ptr : BitVec 32)
    {bytes : List UInt8} (failed : ℤ) {status : ℤ} (hstatus : 0 ≤ status)
    (hlength : bytes.length ≤ capacity) :
    Contained (asUsize ptr, capacity) state.guest
      (reply state ptr bytes failed status).1.guest
      (reply state ptr bytes failed status).2 := by
  rw [reply]
  cases hguest : state.guest with
  | none =>
      rw [writeGuest, Option.bind_eq_bind, Option.bind_none]
      dsimp only
      rw [hguest]
      exact contained_same _ _ _
  | some data =>
      rw [writeGuest, Option.bind_eq_bind, Option.bind_some]
      split
      case h_1 after hwrite =>
        split at hwrite
        · exact copyIn_contained hstatus hlength hwrite
        · cases hwrite
      case h_2 =>
        dsimp only
        rw [hguest]
        exact contained_same _ _ _

theorem replyWithin_contained (state : GuestState) (outPtr outCap : BitVec 32)
    (bytes : List UInt8) (failed : ℤ) {status : ℤ} (hstatus : 0 ≤ status) :
    Contained (asUsize outPtr, clamped outCap) state.guest
      (replyWithin state outPtr outCap bytes failed status).1.guest
      (replyWithin state outPtr outCap bytes failed status).2 := by
  rw [replyWithin]
  split
  · exact contained_same _ _ _
  · rename_i hlength
    exact reply_contained state outPtr failed hstatus (Nat.not_lt.mp hlength)

/-- With a capacity that is no negative number, the unsigned comparison is the right
one. -/
theorem replyUnsigned_contained (state : GuestState) (outBuf : BitVec 32)
    {outCap : BitVec 32} (hcap : 0 ≤ outCap.toInt) (bytes : List UInt8) {status : ℤ}
    (hstatus : 0 ≤ status) :
    Contained (asUsize outBuf, clamped outCap) state.guest
      (replyUnsigned state outBuf outCap bytes status).1.guest
      (replyUnsigned state outBuf outCap bytes status).2 := by
  rw [replyUnsigned, asUsize_of_nonneg hcap]
  split
  · exact contained_same _ _ _
  case isFalse hlength =>
    split
    · exact contained_same _ _ _
    case h_2 data hguest =>
      split
      · exact contained_same _ _ _
      case h_2 after hcopy =>
        rw [hguest]
        exact copyIn_contained hstatus (Nat.not_lt.mp hlength) hcopy

/-- Nothing is copied to a negative address, whatever the capacity. -/
theorem replyUnsigned_of_neg {state : GuestState} (hlinear : state.Linear)
    {outBuf : BitVec 32} (hbuf : outBuf.toInt < 0) (outCap : BitVec 32)
    (bytes : List UInt8) (status : ℤ) :
    (replyUnsigned state outBuf outCap bytes status).1 = state := by
  rw [replyUnsigned]
  split
  · rfl
  · split
    · rfl
    case h_2 data hguest =>
      have hlarge : ¬ asUsize outBuf + bytes.length ≤ data.length := by
        intro hfits
        have hle : 2 ^ 63 ≤ 2 ^ 32 :=
          calc 2 ^ 63 ≤ asUsize outBuf := le_asUsize_of_neg hbuf
            _ ≤ asUsize outBuf + bytes.length := Nat.le_add_right _ _
            _ ≤ data.length := hfits
            _ ≤ 2 ^ 32 := hlinear data hguest
        exact absurd hle (by decide)
      rw [copyIn, if_neg hlarge]

/-! ## Functions that leave guest memory alone -/

theorem guest_hostLog (state : GuestState) (ptr len : BitVec 32) :
    (hostLog state ptr len).1.guest = state.guest := by
  rw [hostLog]
  split <;> rfl

theorem lookupByName_fst (state : GuestState) (namePtr nameLen : BitVec 32) (missing : ℤ)
    (lookup : String → ℤ) :
    (lookupByName state namePtr nameLen missing lookup).1 = state := by
  rw [lookupByName]
  split <;> rfl

theorem guest_journalledWrite {T : Type} [MemValue T] (backend : Backend) (caller : Caller)
    (addr : BitVec 64) (value : T) :
    (journalledWrite backend caller addr value).1.guest = caller.guest := by
  rw [journalledWrite]
  split <;> rfl

theorem guest_dispatch {caller : Caller} (ty : ValType)
    {fixed : (T : Type) → [MemValue T] → [PartialEq T] → Caller × ℤ} {other : Caller × ℤ}
    (hfixed : ∀ (T : Type) [MemValue T] [PartialEq T], (fixed T).1.guest = caller.guest)
    (hother : other.1.guest = caller.guest) :
    (ty.dispatch fixed other).1.guest = caller.guest := by
  cases ty with
  | u8 | u16 | u32 | u64 | i8 | i16 | i32 | i64 | f32 | f64 => exact hfixed _
  | bytes | cstr => exact hother

theorem guest_hostWrite (backend : Backend) (caller : Caller) (addr : BitVec 64)
    (ty inPtr inLen : BitVec 32) :
    (hostWrite backend caller addr ty inPtr inLen).1.guest = caller.guest := by
  rw [hostWrite]
  split
  · rfl
  · apply guest_dispatch _ _ rfl
    intro T _ _
    rw [hostWriteTyped]
    split
    · rfl
    · split
      · rfl
      · exact guest_journalledWrite backend caller addr _

theorem guest_hostWriteIf (backend : Backend) (caller : Caller) (addr : BitVec 64)
    (ty expPtr expLen newPtr newLen : BitVec 32) :
    (hostWriteIf backend caller addr ty expPtr expLen newPtr newLen).1.guest =
      caller.guest := by
  rw [hostWriteIf]
  split
  · apply guest_dispatch _ _ rfl
    intro T _ _
    rw [hostWriteIfTyped]
    split
    · split
      · rfl
      · split
        · exact guest_journalledWrite backend caller addr _
        · rfl
    · rfl
  · rfl

theorem guest_hostWritePermanent (backend : Backend) (caller : Caller)
    (addr : BitVec 64) (ty inPtr inLen : BitVec 32) :
    (hostWritePermanent backend caller addr ty inPtr inLen).1.guest = caller.guest := by
  rw [hostWritePermanent]
  split
  · rfl
  · apply guest_dispatch _ _ rfl
    intro T _ _
    rw [hostWritePermanentTyped]
    split
    · rfl
    · split
      · rfl
      · split <;> rfl

/-- A call that returns with the guest memory it found is safe. -/
theorem safe_of_guest {host : Host} {state : GuestState} {call : HostCall}
    {answer : GuestState × ℤ} (hcall : hostCall host state call = .ok answer)
    (hguest : answer.1.guest = state.guest) : Safe host state call := by
  refine ⟨answer.1, answer.2, hcall, ?_⟩
  rw [hguest]
  exact contained_same _ _ _

/-! ## Functions with an answer -/

theorem safe_of_contained {host : Host} {state : GuestState} {call : HostCall}
    {answer : GuestState × ℤ} (hcall : hostCall host state call = .ok answer)
    (hcontained : Contained call.declared state.guest answer.1.guest answer.2) :
    Safe host state call :=
  ⟨answer.1, answer.2, hcall, hcontained⟩

theorem length_flatMap_const {α β : Type} {encode : α → List β} {size : ℕ}
    (hsize : ∀ item, (encode item).length = size) (items : List α) :
    (items.flatMap encode).length = items.length * size := by
  induction items with
  | nil => rw [List.flatMap_nil, List.length_nil, List.length_nil, Nat.zero_mul]
  | cons item items ih =>
      rw [List.flatMap_cons, List.length_append, hsize, ih, List.length_cons,
        Nat.add_mul, Nat.one_mul, Nat.add_comm]

theorem length_regionBytes (region : Region) : (regionBytes region).length = 20 := by
  rw [regionBytes, List.length_append, List.length_append, length_leBytes, length_leBytes,
    length_leBytes]

theorem hostRead_contained (host : Host) (state : GuestState) (addr : BitVec 64)
    (ty len outPtr outCap : BitVec 32) :
    Contained (asUsize outPtr, clamped outCap) state.guest
      (hostRead host state addr ty len outPtr outCap).1.guest
      (hostRead host state addr ty len outPtr outCap).2 := by
  rw [hostRead]
  split
  · exact contained_same _ _ _
  · split
    · exact contained_same _ _ _
    · exact replyWithin_contained state outPtr outCap _ _ (Int.natCast_nonneg _)

theorem hostGetField_contained (host : Host) (state : GuestState)
    (object klass : BitVec 64) (namePtr nameLen outPtr outCap : BitVec 32) :
    Contained (asUsize outPtr, clamped outCap) state.guest
      (hostGetField host state object klass namePtr nameLen outPtr outCap).1.guest
      (hostGetField host state object klass namePtr nameLen outPtr outCap).2 := by
  rw [hostGetField]
  split
  · exact contained_same _ _ _
  · split
    · exact contained_same _ _ _
    · exact replyWithin_contained state outPtr outCap _ _ (Int.natCast_nonneg _)

/-- The answer of a listing, `size` bytes for each of at most the declared number of
entries. -/
theorem entries_contained {α : Type} (state : GuestState) (outBuf outCapCount : BitVec 32)
    {encode : α → List UInt8} {size : ℕ} (hsize : ∀ item, (encode item).length = size)
    {items : List α} (hitems : items.length ≤ clamped outCapCount) :
    Contained (asUsize outBuf, clamped outCapCount * size) state.guest
      (reply state outBuf (items.flatMap encode) Status.errBufTooSmall items.length).1.guest
      (reply state outBuf (items.flatMap encode) Status.errBufTooSmall items.length).2 := by
  apply reply_contained state outBuf _ (Int.natCast_nonneg _)
  rw [length_flatMap_const hsize]
  exact Nat.mul_le_mul_right size hitems

theorem safe_scan (host : Host) (state : GuestState)
    (patPtr patLen outPtr outCapCount : BitVec 32) :
    Safe host state (.scan patPtr patLen outPtr outCapCount) := by
  cases hpattern : readGuest state.guest patPtr patLen with
  | none =>
      have hcall : hostScan host state patPtr patLen outPtr outCapCount =
          .ok (state, Status.errBadType) := by
        rw [hostScan, hpattern]
      exact safe_of_guest hcall rfl
  | some pattern =>
      obtain ⟨hits, hhits, hscan⟩ := aobScan_returns state.caller.process host.regions
        pattern (clamped outCapCount)
      have hcall : hostScan host state patPtr patLen outPtr outCapCount =
          .ok (reply state outPtr (addressBytes hits) Status.errBufTooSmall
            hits.length) := by
        rw [hostScan, hpattern]
        dsimp only
        rw [hscan]
        dsimp only [Option.getD_some]
        rw [withCapacity_ok hhits (by decide)]
        rfl
      exact safe_of_contained hcall
        (entries_contained state outPtr outCapCount (length_leBytes 8) hhits)

theorem safe_regions (host : Host) (state : GuestState) (outPtr outCapCount : BitVec 32) :
    Safe host state (.regions outPtr outCapCount) := by
  have htaken := List.length_take_le (clamped outCapCount) host.regions
  have hcall : hostRegions host state outPtr outCapCount =
      .ok (reply state outPtr ((host.regions.take (clamped outCapCount)).flatMap regionBytes)
        Status.errBufTooSmall (host.regions.take (clamped outCapCount)).length) := by
    rw [hostRegions, withCapacity_ok htaken (by decide)]
    rfl
  exact safe_of_contained hcall
    (entries_contained state outPtr outCapCount length_regionBytes htaken)

theorem replyHandles_ok (state : GuestState) (outBuf outCapCount : BitVec 32)
    (handles : List UInt64) :
    ∃ answer, replyHandles state outBuf outCapCount handles = .ok answer ∧
      Contained (asUsize outBuf, clamped outCapCount * 8) state.guest answer.1.guest
        answer.2 := by
  have htaken := List.length_take_le (clamped outCapCount) handles
  have hlength : ((handles.take (clamped outCapCount)).map UInt64.toNat).length =
      (handles.take (clamped outCapCount)).length := List.length_map _
  refine ⟨_, ?_, entries_contained state outBuf outCapCount (length_leBytes 8)
    (hlength.trans_le htaken)⟩
  rw [replyHandles, withCapacity_ok htaken (by decide), hlength]
  rfl

theorem withCapacity_invoke (buf : List UInt8) :
    withCapacity (leValue (buf.take 4)) invokeArgSize = .ok () := by
  have hcount : leValue (buf.take 4) < 2 ^ 32 := by
    calc leValue (buf.take 4) < 256 ^ (buf.take 4).length := leValue_lt _
      _ ≤ 256 ^ 4 := Nat.pow_le_pow_right (by decide) (List.length_take_le 4 buf)
  have hlt : leValue (buf.take 4) * invokeArgSize < 2 ^ 63 := by
    calc leValue (buf.take 4) * invokeArgSize < 2 ^ 32 * invokeArgSize :=
          Nat.mul_lt_mul_of_pos_right hcount (by decide)
      _ ≤ 2 ^ 63 := by decide
  rw [withCapacity, if_pos hlt]

theorem invokeArgs_ok (buf : List UInt8) : invokeArgs buf = .ok (unpackedArgs buf) := by
  rw [invokeArgs, hostInvokeArgs_eq]
  split
  · rw [withCapacity_invoke]
    rfl
  · rfl

theorem invokeReply_contained (host : Host) (state : GuestState) (method : ℕ)
    (receiver : Option UInt64) (args : List InvokeArg) (outBuf outCap : BitVec 32) :
    Contained (asUsize outBuf, clamped outCap) state.guest
      (invokeReply host state method receiver args outBuf outCap).1.guest
      (invokeReply host state method receiver args outBuf outCap).2 := by
  let called := invokeMethod host.internals state.caller.process host.process method
    receiver args
  let after := state.setProcess (memoryAfter host.process state.caller.process called.1)
  have hguest : after.guest = state.guest := rfl
  rw [invokeReply, ← hguest]
  split
  · exact contained_same _ _ _
  · exact replyWithin_contained after outBuf outCap _ _ (Int.le_refl 0)

theorem safe_invoke (host : Host) (state : GuestState) (methodPtr instancePtr : BitVec 64)
    (argsBuf argsLen outBuf outCap : BitVec 32) :
    Safe host state (.invoke methodPtr instancePtr argsBuf argsLen outBuf outCap) := by
  rw [Safe, hostCall, hostInvoke]
  cases readGuest state.guest argsBuf argsLen with
  | none => exact ⟨state, -1, rfl, contained_same _ _ _⟩
  | some buf =>
      dsimp only
      rw [invokeArgs_ok]
      cases unpackedArgs buf with
      | error status => exact ⟨state, status, rfl, contained_same _ _ _⟩
      | ok args =>
          exact ⟨_, _, rfl, invokeReply_contained host state _ _ args outBuf outCap⟩

/-! ## Functions of a handler -/

/-- A context has at most four arguments. -/
theorem lt_of_hookArgRead {current : Option HandlerContext} {argIdx : ℕ}
    {bytes : List UInt8} (hread : hookArgRead current argIdx = .ok bytes) : argIdx < 4 := by
  cases current with
  | none => cases hread
  | some context =>
      rw [hookArgRead] at hread
      split at hread
      case h_1 arg harg =>
        exact Nat.lt_of_lt_of_le (List.getElem?_eq_some_iff.mp harg).1 context.2
      case h_2 => cases hread

theorem range_of_asUsize_lt {argIdx : BitVec 32} (hidx : asUsize argIdx < 4) :
    0 ≤ argIdx.toInt ∧ argIdx.toInt < 4 := by
  have hnonneg : 0 ≤ argIdx.toInt := by
    by_contra hneg
    have hle := le_asUsize_of_neg (Int.not_le.mp hneg)
    exact absurd (Nat.lt_of_le_of_lt hle hidx) (by decide)
  rw [asUsize_of_nonneg hnonneg, clamped, Int.toNat_lt hnonneg] at hidx
  exact ⟨hnonneg, hidx⟩

theorem safe_hookArg (host : Host) {state : GuestState} (hlinear : state.Linear)
    {argIdx outBuf outCap : BitVec 32} (hfits : (HostCall.hookArg argIdx outBuf outCap).Fits) :
    Safe host state (.hookArg argIdx outBuf outCap) := by
  cases hread : hookArgRead state.current (asUsize argIdx) with
  | error error =>
      have hcall : hostCall host state (.hookArg argIdx outBuf outCap) =
          .ok (state, error.code) := by
        rw [hostCall, hostHookArg, hread]
      exact safe_of_guest hcall rfl
  | ok bytes =>
      have hcall : hostCall host state (.hookArg argIdx outBuf outCap) =
          .ok (replyUnsigned state outBuf outCap bytes bytes.length) := by
        rw [hostCall, hostHookArg, hread]
      rcases hfits with hcap | hbuf | hidx
      · exact safe_of_contained hcall
          (replyUnsigned_contained state outBuf hcap bytes (Int.natCast_nonneg _))
      · exact safe_of_guest hcall
          (congrArg GuestState.guest (replyUnsigned_of_neg hlinear hbuf outCap bytes _))
      · exact absurd (range_of_asUsize_lt (lt_of_hookArgRead hread)) hidx

theorem safe_callOriginal (host : Host) {state : GuestState} (hlinear : state.Linear)
    {outBuf outCap : BitVec 32} (hfits : (HostCall.callOriginal outBuf outCap).Fits) :
    Safe host state (.callOriginal outBuf outCap) := by
  cases hcurrent : state.current with
  | none =>
      have hcall : hostCall host state (.callOriginal outBuf outCap) =
          .ok (state, (InvokeError.internalFailure "no current hook").code) := by
        rw [hostCall, hostCallOriginal, hcurrent]
      exact safe_of_guest hcall rfl
  | some context =>
      let called := context.callOriginal (host.game state.caller.process)
      let after : GuestState := { state with current := some called.1 }
      cases hbytes : called.2 with
      | error error =>
          have hcall : hostCall host state (.callOriginal outBuf outCap) =
              .ok (after, error.code) := by
            rw [hostCall, hostCallOriginal, hcurrent]
            dsimp only
            rw [hbytes]
          exact safe_of_guest hcall rfl
      | ok bytes =>
          have hcall : hostCall host state (.callOriginal outBuf outCap) =
              .ok (replyUnsigned after outBuf outCap bytes 0) := by
            rw [hostCall, hostCallOriginal, hcurrent]
            dsimp only
            rw [hbytes]
          rcases hfits with hcap | hbuf
          · exact safe_of_contained hcall
              (replyUnsigned_contained after outBuf hcap bytes (Int.le_refl 0))
          · have hafter : after.Linear := hlinear
            have hkept : (replyUnsigned after outBuf outCap bytes 0).1.guest = after.guest :=
              congrArg GuestState.guest (replyUnsigned_of_neg hafter hbuf outCap bytes 0)
            exact safe_of_guest hcall hkept

theorem decodeSlices_ok (bytes : List UInt8) : decodeSlices bytes = .ok () := by
  have hdecode : Returns (InvokeArg.decodeChecked bytes) (InvokeArg.decode bytes) :=
    decodeWithinChecked_returns (Nat.le_refl bytes.length)
  rw [decodeSlices, hdecode]

theorem safe_hookSetArg (host : Host) (state : GuestState) (argIdx valBuf : BitVec 32)
    {valLen : BitVec 32} (hlen : 0 ≤ valLen.toInt) :
    Safe host state (.hookSetArg argIdx valBuf valLen) := by
  have hkept : ∃ answer, hostHookSetArg host state argIdx valBuf valLen = .ok answer ∧
      answer.1.guest = state.guest := by
    rw [hostHookSetArg, vecZeroed_of_nonneg hlen]
    split
    · exact ⟨_, rfl, rfl⟩
    · simp only [decodeSlices_ok, bind, Except.bind, pure, Except.pure]
      split
      · exact ⟨_, rfl, rfl⟩
      · split
        · exact ⟨_, rfl, rfl⟩
        · split
          · exact ⟨_, rfl, rfl⟩
          · exact ⟨_, rfl, rfl⟩
  obtain ⟨answer, hcall, hguest⟩ := hkept
  exact safe_of_guest hcall hguest

theorem safe_hookSetReturn (host : Host) (state : GuestState) (valBuf : BitVec 32)
    {valLen : BitVec 32} (hlen : 0 ≤ valLen.toInt) :
    Safe host state (.hookSetReturn valBuf valLen) := by
  have hkept : ∃ answer, hostHookSetReturn state valBuf valLen = .ok answer ∧
      answer.1.guest = state.guest := by
    rw [hostHookSetReturn, vecZeroed_of_nonneg hlen]
    split
    · exact ⟨_, rfl, rfl⟩
    · simp only [decodeSlices_ok, bind, Except.bind, pure, Except.pure]
      split
      · exact ⟨_, rfl, rfl⟩
      · split
        · split
          · exact ⟨_, rfl, rfl⟩
          · exact ⟨_, rfl, rfl⟩
        · split
          · exact ⟨_, rfl, rfl⟩
          · exact ⟨_, rfl, rfl⟩
  obtain ⟨answer, hcall, hguest⟩ := hkept
  exact safe_of_guest hcall hguest

/-- Every function is safe for the arguments that fit it. -/
theorem safe_of_fits (host : Host) {state : GuestState} (hlinear : state.Linear)
    {call : HostCall} (hfits : call.Fits) : Safe host state call := by
  cases call with
  | log ptr len => exact safe_of_guest rfl (guest_hostLog state ptr len)
  | read addr ty len outPtr outCap =>
      exact safe_of_contained rfl (hostRead_contained host state addr ty len outPtr outCap)
  | scan patPtr patLen outPtr outCapCount =>
      exact safe_scan host state patPtr patLen outPtr outCapCount
  | regions outPtr outCapCount => exact safe_regions host state outPtr outCapCount
  | write addr ty inPtr inLen =>
      exact safe_of_guest rfl (guest_hostWrite host.backend state.caller addr ty inPtr inLen)
  | writeIf addr ty expPtr expLen newPtr newLen =>
      exact safe_of_guest rfl
        (guest_hostWriteIf host.backend state.caller addr ty expPtr expLen newPtr newLen)
  | writePermanent addr ty inPtr inLen =>
      exact safe_of_guest rfl
        (guest_hostWritePermanent host.backend state.caller addr ty inPtr inLen)
  | findClass | fieldInfo | staticField | findMethod =>
      exact safe_of_guest rfl (congrArg GuestState.guest (lookupByName_fst state _ _ _ _))
  | getField object klass namePtr nameLen outPtr outCap =>
      exact safe_of_contained rfl
        (hostGetField_contained host state object klass namePtr nameLen outPtr outCap)
  | listMethods klass outBuf outCapCount =>
      obtain ⟨answer, hcall, hcontained⟩ := replyHandles_ok state outBuf outCapCount
        (host.methodsOf (UInt64.ofBitVec klass))
      exact safe_of_contained hcall hcontained
  | listInstances klass outBuf outCapCount =>
      obtain ⟨answer, hcall, hcontained⟩ := replyHandles_ok state outBuf outCapCount
        (host.instances (UInt64.ofBitVec klass))
      exact safe_of_contained hcall hcontained
  | invoke methodPtr instancePtr argsBuf argsLen outBuf outCap =>
      exact safe_invoke host state methodPtr instancePtr argsBuf argsLen outBuf outCap
  | hookArg argIdx outBuf outCap => exact safe_hookArg host hlinear hfits
  | hookSetArg argIdx valBuf valLen => exact safe_hookSetArg host state argIdx valBuf hfits
  | callOriginal outBuf outCap => exact safe_callOriginal host hlinear hfits
  | hookSetReturn valBuf valLen => exact safe_hookSetReturn host state valBuf hfits

/-! ## Arguments that do not fit -/

/-- A linear memory of 4 GiB with nothing in it. -/
def Zeroed (data : List UInt8) : Prop :=
  data.length = 2 ^ 32 ∧ ∀ idx, idx < 2 ^ 32 → data[idx]? = some 0

theorem exists_zeroed : ∃ data, Zeroed data :=
  ⟨List.replicate (2 ^ 32) 0, List.length_replicate,
    fun _ hidx => List.getElem?_replicate_of_lt hidx⟩

/-- A process without regions and classes, with the hook of one method whose original
returns 1. -/
def sampleHost : Host where
  backend := ⟨fun _ _ => false, fun _ _ => false⟩
  internals := sampleInternals
  process :=
    { allocator := .above Cell 0
      heap := ∅
      stringNew := none
      runtimeInvoke := none
      exceptionGetMessage := none }
  hooks :=
    { memory := fun _ => 0
      pages := []
      slots := fun slot => if slot = 0 then
        some ⟨0x100, ⟨[.u8, .u8, .u8, .u8], .u8, 0x05, true⟩, 0, ⟨0, 0, 0, []⟩, 0, 0⟩
        else none
      reentry := fun _ => false }
  original := fun _ _ => (1, zeroFloat)
  regions := []
  findClass := fun _ => none
  fieldInfo := fun _ _ => none
  staticField := fun _ _ => none
  findMethod := fun _ _ _ => none
  methodsOf := fun _ => []
  instances := fun _ => []

/-- A handler of that method, called with 1 for each of its four parameters. -/
def sampleState (data : List UInt8) : GuestState where
  caller := ⟨⟨0, .new⟩, some data, fun _ => 0⟩
  logs := []
  current := some ⟨⟨⟨0x100, ⟨0, fun _ => 1, fun _ => zeroFloat, 0, 0, zeroFloat⟩,
    List.replicate 4 (.prim (.u8 1)), none, false⟩, 0⟩, Nat.le_of_eq List.length_replicate⟩

theorem sampleState_linear {data : List UInt8} (hlength : data.length ≤ 2 ^ 32) :
    (sampleState data).Linear := by
  intro other hother
  rw [← Option.some.inj hother]
  exact hlength

/-- A packed byte is copied although the capacity is negative. -/
theorem not_contained_replyUnsigned {state : GuestState} {data : List UInt8}
    (hdata : Zeroed data) (hguest : state.guest = some data) {outBuf outCap : BitVec 32}
    (hbuf : 0 ≤ outBuf.toInt) (hcap : outCap.toInt < 0) (status : ℤ) :
    ¬ Contained (asUsize outBuf, clamped outCap) (some data)
      (replyUnsigned state outBuf outCap [0, 1] status).1.guest
      (replyUnsigned state outBuf outCap [0, 1] status).2 := by
  have hroom : ¬ asUsize outCap < ([0, 1] : List UInt8).length := by
    have hle := le_asUsize_of_neg hcap
    exact Nat.not_lt.mpr (Nat.le_trans (by decide) hle)
  have hstart : asUsize outBuf < 2 ^ 31 := by
    rw [asUsize_of_nonneg hbuf]
    exact clamped_lt outBuf
  have hfits : asUsize outBuf + ([0, 1] : List UInt8).length ≤ data.length := by
    rw [hdata.1]
    exact Nat.le_trans (Nat.add_le_add_right (Nat.le_of_lt hstart) _) (by decide)
  obtain ⟨after, hcopy⟩ : ∃ after, copyIn data (asUsize outBuf) [0, 1] = some after := by
    rw [copyIn, if_pos hfits]
    exact ⟨_, rfl⟩
  rw [replyUnsigned, if_neg hroom, hguest]
  dsimp only
  rw [hcopy]
  rintro ⟨-, count, hcount, hrel⟩
  cases hrel with
  | some hsame =>
      have hnone : count = 0 := by
        have hzero : clamped outCap = 0 := Int.toNat_of_nonpos (Int.le_of_lt hcap)
        exact Nat.le_zero.mp (hzero ▸ hcount)
      have hwritten : after[asUsize outBuf + 1]? = some 1 :=
        getElem?_copyIn hcopy (Nat.lt_succ_self 1)
      have hkept : after[asUsize outBuf + 1]? = data[asUsize outBuf + 1]? := by
        apply hsame.getElem?_eq
        rw [hnone]
        exact Or.inr (Nat.le_add_right _ 1)
      have hzero : data[asUsize outBuf + 1]? = some 0 :=
        hdata.2 _ (Nat.lt_of_le_of_lt hstart (by decide))
      rw [hwritten, hzero] at hkept
      cases hkept

theorem not_safe_of_answer {host : Host} {state : GuestState} {call : HostCall}
    {answer : GuestState × ℤ} (hcall : hostCall host state call = .ok answer)
    (hcontained : ¬ Contained call.declared state.guest answer.1.guest answer.2) :
    ¬ Safe host state call := by
  rintro ⟨next, status, hother, hsafe⟩
  rw [hcall] at hother
  cases hother
  exact hcontained hsafe

theorem not_safe_of_fault {host : Host} {state : GuestState} {call : HostCall}
    {fault : Fault} (hcall : hostCall host state call = .error fault) :
    ¬ Safe host state call := by
  rintro ⟨next, status, hother, -⟩
  rw [hcall] at hother
  cases hother

theorem hookSetArg_fault (data : List UInt8) (argIdx valBuf : BitVec 32)
    {valLen : BitVec 32} (hlen : valLen.toInt < 0) :
    hostCall sampleHost (sampleState data) (.hookSetArg argIdx valBuf valLen) =
      .error (.capacityOverflow (asUsize valLen * 1)) := by
  have hguest : (sampleState data).guest = some data := rfl
  rw [hostCall, hostHookSetArg, hguest, vecZeroed_of_neg hlen]
  rfl

theorem hookSetReturn_fault (data : List UInt8) (valBuf : BitVec 32) {valLen : BitVec 32}
    (hlen : valLen.toInt < 0) :
    hostCall sampleHost (sampleState data) (.hookSetReturn valBuf valLen) =
      .error (.capacityOverflow (asUsize valLen * 1)) := by
  have hguest : (sampleState data).guest = some data := rfl
  rw [hostCall, hostHookSetReturn, hguest, vecZeroed_of_neg hlen]
  rfl

theorem hookArg_answer (data : List UInt8) {argIdx : BitVec 32}
    (hidx : 0 ≤ argIdx.toInt ∧ argIdx.toInt < 4) (outBuf outCap : BitVec 32) :
    hostCall sampleHost (sampleState data) (.hookArg argIdx outBuf outCap) =
      .ok (replyUnsigned (sampleState data) outBuf outCap [0, 1] 2) := by
  have hlt : asUsize argIdx < 4 := by
    rw [asUsize_of_nonneg hidx.1, clamped, Int.toNat_lt hidx.1]
    exact hidx.2
  have hread : hookArgRead (sampleState data).current (asUsize argIdx) = .ok [0, 1] := by
    have harg : (List.replicate 4 (InvokeArg.prim (.u8 1)))[asUsize argIdx]? =
        some (.prim (.u8 1)) := List.getElem?_replicate_of_lt hlt
    simp only [sampleState, hookArgRead, harg]
    rfl
  rw [hostCall, hostHookArg, hread]
  rfl

theorem callOriginal_answer (data : List UInt8) (outBuf outCap : BitVec 32) :
    ∃ state, state.guest = some data ∧
      hostCall sampleHost (sampleState data) (.callOriginal outBuf outCap) =
        .ok (replyUnsigned state outBuf outCap [0, 1] 0) :=
  ⟨_, rfl, rfl⟩

/-- Arguments that do not fit are unsafe in some process. -/
theorem fits_of_safe {call : HostCall}
    (hsafe : ∀ host state, state.Linear → Safe host state call) : call.Fits := by
  obtain ⟨data, hdata⟩ := exists_zeroed
  have hsample := hsafe sampleHost (sampleState data)
    (sampleState_linear (Nat.le_of_eq hdata.1))
  by_contra hmisfit
  cases call with
  | hookSetArg argIdx valBuf valLen =>
      have hlen := Int.not_le.mp hmisfit
      exact not_safe_of_fault (hookSetArg_fault data argIdx valBuf hlen) hsample
  | hookSetReturn valBuf valLen =>
      have hlen := Int.not_le.mp hmisfit
      exact not_safe_of_fault (hookSetReturn_fault data valBuf hlen) hsample
  | hookArg argIdx outBuf outCap =>
      obtain ⟨hcap, hrest⟩ := not_or.mp hmisfit
      obtain ⟨hbuf, hidx⟩ := not_or.mp hrest
      have hanswer := hookArg_answer data (not_not.mp hidx) outBuf outCap
      exact not_safe_of_answer hanswer (not_contained_replyUnsigned hdata rfl
        (Int.not_lt.mp hbuf) (Int.not_le.mp hcap) 2) hsample
  | callOriginal outBuf outCap =>
      obtain ⟨hcap, hbuf⟩ := not_or.mp hmisfit
      obtain ⟨state, hguest, hanswer⟩ := callOriginal_answer data outBuf outCap
      exact not_safe_of_answer hanswer (not_contained_replyUnsigned hdata hguest
        (Int.not_lt.mp hbuf) (Int.not_le.mp hcap) 0) hsample
  | log | read | scan | regions | write | writeIf | writePermanent | findClass | fieldInfo
  | getField | staticField | findMethod | listMethods | listInstances | invoke =>
      exact hmisfit trivial

/-- A host function with given arguments is safe in every process and for every guest
memory exactly if the arguments fit it: no negative length for `hook_set_arg` and
`hook_set_return`; for `hook_arg` and `call_original` no negative capacity, unless the
address is negative too or no argument has the index. -/
theorem safe_iff_fits (call : HostCall) :
    (∀ host state, state.Linear → Safe host state call) ↔ call.Fits := by
  constructor
  · intro hsafe
    exact fits_of_safe hsafe
  · intro hfits host state hlinear
    exact safe_of_fits host hlinear hfits

/-- `hook_set_return(0, -1)` unwinds with a capacity overflow. -/
theorem not_safe_negativeLength :
    hostCall sampleHost (sampleState []) (.hookSetReturn 0 (-1)) =
        .error (.capacityOverflow (2 ^ 64 - 1)) ∧
      ¬ ∀ call host state, GuestState.Linear state → Safe host state call := by
  have hfault : hostCall sampleHost (sampleState []) (.hookSetReturn 0 (-1)) =
      .error (.capacityOverflow (2 ^ 64 - 1)) := hookSetReturn_fault [] 0 (by decide)
  refine ⟨hfault, fun hsafe => not_safe_of_fault hfault ?_⟩
  exact hsafe _ _ _ (sampleState_linear (Nat.zero_le _))

end FrogAgent.GuestCalls
