import FrogAgent.Host.GuestBounds
import FrogAgent.Internals.InvokeTypes
import FrogAgent.Lib.Records

/-!
# What a script and the host hand each other

A script and the host functions share nothing but the bytes of guest memory.  The rows of
a listing read back as they are in the process, as many as were asked for, and what a
script packs for `il2cpp.invoke` is what the method is called with; its result reads back
as the value that was returned.
-/

namespace FrogAgent.GuestAbi

open FrogAgent.Buffer
open FrogAgent.ByteMemory
open FrogAgent.Error
open FrogAgent.GuestCalls
open FrogAgent.Invoke
open FrogAgent.LittleEndian
open FrogAgent.Marshal
open FrogAgent.MemHost
open FrogAgent.PackedArg
open FrogAgent.Records
open FrogAgent.Scan
open FrogAgent.Signature
open FrogAgent.Slice
open FrogAgent.TypedValue

/-! ## Replies as the guest reads them -/

/-- What stands in guest memory from an address on. -/
def standing (state : GuestState) (ptr : BitVec 32) : List UInt8 :=
  (state.guest.getD []).drop (asUsize ptr)

/-- There is room for `count` bytes from an address on. -/
def HasRoom (state : GuestState) (ptr : BitVec 32) (count : ℕ) : Prop :=
  ∃ data, state.guest = some data ∧ asUsize ptr + count ≤ data.length

section Reply

variable {state : GuestState} {ptr : BitVec 32} {bytes : List UInt8}

theorem writeGuest_of_room (hlinear : state.Linear) (hroom : HasRoom state ptr bytes.length) :
    ∃ data, writeGuest state.guest ptr bytes = some data ∧
      Option.Rel (SameOutside (asUsize ptr) bytes.length) state.guest (some data) ∧
      ∃ rest, data.drop (asUsize ptr) = bytes ++ rest := by
  obtain ⟨data, hguest, hfits⟩ := hroom
  have hlength : data.length ≤ 2 ^ 32 := hlinear data hguest
  have hsum : asUsize ptr + bytes.length < 2 ^ 64 :=
    Nat.lt_of_le_of_lt (hfits.trans hlength) (by decide)
  obtain ⟨after, hcopy⟩ : ∃ after, copyIn data (asUsize ptr) bytes = some after := by
    rw [copyIn, if_pos hfits]
    exact ⟨_, rfl⟩
  have hback := take_drop_copyIn hcopy
  refine ⟨after, ?_, ?_, (after.drop (asUsize ptr)).drop bytes.length, ?_⟩
  · rw [writeGuest, hguest, Option.bind_eq_bind, Option.bind_some, if_pos hsum, hcopy]
  · rw [hguest]
    exact .some (copyIn_sameOutside hcopy)
  · calc after.drop (asUsize ptr)
        = (after.drop (asUsize ptr)).take bytes.length ++
            (after.drop (asUsize ptr)).drop bytes.length := (List.take_append_drop _ _).symm
      _ = bytes ++ (after.drop (asUsize ptr)).drop bytes.length := by rw [hback]

theorem writeGuest_without_room (hroom : ¬ HasRoom state ptr bytes.length) :
    writeGuest state.guest ptr bytes = none := by
  rw [writeGuest]
  cases hguest : state.guest with
  | none => rfl
  | some data =>
      have hlarge : ¬ asUsize ptr + bytes.length ≤ data.length := by
        intro hfits
        exact hroom ⟨data, hguest, hfits⟩
      rw [Option.bind_eq_bind, Option.bind_some, copyIn, if_neg hlarge, ite_self]

/-- A reply stands where the guest asked for it, and nothing else changes. -/
theorem reply_of_room (hlinear : state.Linear) (hroom : HasRoom state ptr bytes.length)
    (failed status : ℤ) :
    ∃ data, reply state ptr bytes failed status = (state.setGuest data, status) ∧
      Option.Rel (SameOutside (asUsize ptr) bytes.length) state.guest (some data) ∧
      ∃ rest, standing (state.setGuest data) ptr = bytes ++ rest := by
  obtain ⟨data, hwrite, hsame, hrest⟩ := writeGuest_of_room hlinear hroom
  refine ⟨data, ?_, hsame, hrest⟩
  rw [reply, hwrite]

theorem reply_without_room (hroom : ¬ HasRoom state ptr bytes.length) (failed status : ℤ) :
    reply state ptr bytes failed status = (state, failed) := by
  rw [reply, writeGuest_without_room hroom]

end Reply

/-! ## Listings -/

/-- A listing: the buffer and the number of rows the guest asks for, the widths of the
fields of a row, and all the rows there are. -/
structure Listing where
  outBuf : BitVec 32
  cap : BitVec 32
  widths : List ℕ
  rows : List (List ℕ)

/-- Base, size and protection. -/
def regionRow (region : Region) : List ℕ :=
  [region.start, region.stop - region.start, region.protect.toNat]

/-- The addresses `mem.scan` looks for; the empty pattern has none. -/
def hits (host : Host) (state : GuestState) (pattern : List UInt8) : List ℕ :=
  if pattern = [] then [] else naiveSearch state.caller.process host.regions pattern

/-- What the four listing functions list. -/
def listingOf (host : Host) (state : GuestState) : HostCall → Option Listing
  | .scan patPtr patLen outPtr outCapCount =>
      (readGuest state.guest patPtr patLen).map fun pattern =>
        ⟨outPtr, outCapCount, [8], (hits host state pattern).map fun address => [address]⟩
  | .regions outPtr outCapCount =>
      some ⟨outPtr, outCapCount, [8, 8, 4], host.regions.map regionRow⟩
  | .listMethods klass outBuf outCapCount =>
      some ⟨outBuf, outCapCount, [8],
        (host.methodsOf (UInt64.ofBitVec klass)).map fun method => [method.toNat]⟩
  | .listInstances klass outBuf outCapCount =>
      some ⟨outBuf, outCapCount, [8],
        (host.instances (UInt64.ofBitVec klass)).map fun object => [object.toNat]⟩
  | _ => none

namespace Listing

/-- As many rows as the guest asked for. -/
def taken (listing : Listing) : List (List ℕ) := listing.rows.take (clamped listing.cap)

def bytes (listing : Listing) : List UInt8 := listing.taken.flatMap (encode listing.widths)

/-- The guest reads back the rows it asked for, and has all of them if they are fewer; if
they do not fit into its memory it gets an error and nothing happens. -/
def Delivered (listing : Listing) (state after : GuestState) (status : ℤ) : Prop :=
  let size := listing.taken.length * listing.widths.sum
  (HasRoom state listing.outBuf size ∧ status = listing.taken.length ∧
      table listing.widths listing.taken.length (standing after listing.outBuf) =
        listing.taken ∧
      (listing.taken.length < clamped listing.cap → listing.taken = listing.rows) ∧
      ∃ data, after = state.setGuest data ∧
        Option.Rel (SameOutside (asUsize listing.outBuf) size) state.guest (some data)) ∨
    (¬ HasRoom state listing.outBuf size ∧ status = Status.errBufTooSmall ∧ after = state)

theorem taken_eq_rows {listing : Listing}
    (hfewer : listing.taken.length < clamped listing.cap) : listing.taken = listing.rows := by
  rw [taken, List.length_take] at hfewer
  exact List.take_of_length_le (by omega)

/-- The common end of the listing functions. -/
theorem delivered_reply {listing : Listing} {state : GuestState} (hlinear : state.Linear)
    (hfits : ∀ row ∈ listing.rows, Fits listing.widths row) :
    let answer := reply state listing.outBuf listing.bytes Status.errBufTooSmall
      listing.taken.length
    listing.Delivered state answer.1 answer.2 := by
  have htaken : ∀ row ∈ listing.taken, Fits listing.widths row :=
    fun row hrow => hfits row (List.mem_of_mem_take hrow)
  have hsize : listing.bytes.length = listing.taken.length * listing.widths.sum :=
    length_flatMap_encode htaken
  by_cases hroom : HasRoom state listing.outBuf listing.bytes.length
  · obtain ⟨data, hreply, hsame, rest, hrest⟩ :=
      reply_of_room hlinear hroom Status.errBufTooSmall listing.taken.length
    left
    rw [← hsize, hreply]
    refine ⟨hroom, rfl, ?_, taken_eq_rows, data, rfl, hsame⟩
    rw [hrest]
    exact table_flatMap htaken rest
  · right
    rw [← hsize, reply_without_room hroom]
    exact ⟨hroom, rfl, rfl⟩

end Listing

/-- The bounds of a cached region are machine words. -/
def Words (host : Host) : Prop :=
  ∀ region ∈ host.regions, region.start < 2 ^ 64 ∧ region.stop < 2 ^ 64

theorem fits_word {value : ℕ} (hvalue : value < 2 ^ 64) : Fits [8] [value] :=
  .cons (by simpa using hvalue) .nil

theorem lt_of_mem_hits {host : Host} (hwords : Words host) {state : GuestState}
    {pattern : List UInt8} {address : ℕ} (hhit : address ∈ hits host state pattern) :
    address < 2 ^ 64 := by
  rw [hits] at hhit
  split at hhit
  · cases hhit
  case isFalse hpattern =>
    obtain ⟨region, hregion, hfound⟩ := List.mem_flatMap.mp hhit
    obtain ⟨-, hstop, -⟩ := (mem_regionHits hpattern).mp hfound
    have hbound := (hwords region hregion).2
    omega

theorem fits_rows {host : Host} (hwords : Words host) {state : GuestState} {call : HostCall}
    {listing : Listing} (hlisting : listingOf host state call = some listing) :
    ∀ row ∈ listing.rows, Fits listing.widths row := by
  cases call <;> simp only [listingOf, reduceCtorEq] at hlisting
  case scan patPtr patLen outPtr outCapCount =>
    obtain ⟨pattern, -, rfl⟩ := Option.map_eq_some_iff.mp hlisting
    simp only [List.forall_mem_map]
    exact fun address hhit => fits_word (lt_of_mem_hits hwords hhit)
  case regions outPtr outCapCount =>
    cases hlisting
    simp only [List.forall_mem_map]
    intro region hregion
    obtain ⟨hstart, hstop⟩ := hwords region hregion
    refine .cons (by simpa using hstart) (.cons ?_ (.cons ?_ .nil))
    · have hsize : region.stop - region.start < 2 ^ 64 :=
        Nat.lt_of_le_of_lt (Nat.sub_le _ _) hstop
      simpa using hsize
    · exact region.protect.toNat_lt
  case listMethods klass outBuf outCapCount =>
    cases hlisting
    simp only [List.forall_mem_map]
    exact fun method _ => fits_word method.toNat_lt
  case listInstances klass outBuf outCapCount =>
    cases hlisting
    simp only [List.forall_mem_map]
    exact fun object _ => fits_word object.toNat_lt

/-- The common end of the listing functions: as many items as were asked for, each with
the bytes of its row. -/
theorem replied_listing {Item : Type} (state : GuestState) (outBuf cap : BitVec 32)
    {size : ℕ} (hsize : size ≤ 2 ^ 8) {itemBytes : Item → List UInt8} {widths : List ℕ}
    {row : Item → List ℕ} (hrow : ∀ item, itemBytes item = encode widths (row item))
    {items taken : List Item} (htaken : taken = items.take (clamped cap)) :
    let listing : Listing := ⟨outBuf, cap, widths, items.map row⟩
    (do
      withCapacity taken.length size
      return reply state outBuf (taken.flatMap itemBytes) Status.errBufTooSmall
        taken.length : Outcome) =
      .ok (reply state outBuf listing.bytes Status.errBufTooSmall listing.taken.length) := by
  intro listing
  have hlength : taken.length ≤ clamped cap := by
    rw [htaken]
    exact List.length_take_le _ _
  have hbytes : taken.flatMap itemBytes = (taken.map row).flatMap (encode widths) := by
    rw [List.flatMap_map]
    congr 1
    funext item
    exact hrow item
  have hrows : listing.taken = taken.map row := by
    rw [htaken]
    exact List.map_take.symm
  rw [withCapacity_ok hlength hsize, hbytes, Listing.bytes, hrows, List.length_map]
  rfl

theorem encode_word (value : ℕ) : leBytes 8 value = encode [8] [value] :=
  (List.append_nil _).symm

theorem regionBytes_eq (region : Region) :
    regionBytes region = encode [8, 8, 4] (regionRow region) := by
  simp only [regionRow, encode, regionBytes, List.append_nil, List.append_assoc]

theorem replyHandles_eq (state : GuestState) (outBuf cap : BitVec 32)
    (handles : List UInt64) :
    let listing : Listing := ⟨outBuf, cap, [8], handles.map fun handle => [handle.toNat]⟩
    replyHandles state outBuf cap handles =
      .ok (reply state outBuf listing.bytes Status.errBufTooSmall listing.taken.length) := by
  rw [replyHandles, addressBytes, List.flatMap_map]
  exact replied_listing state outBuf cap (by decide) (fun handle => encode_word _) rfl

/-- A scan finds the addresses of its listing. -/
theorem aobScan_hits (host : Host) (state : GuestState) (pattern : List UInt8)
    (maxHits : ℕ) :
    Returns (aobScan state.caller.process host.regions pattern maxHits)
      (some ((hits host state pattern).take maxHits)) := by
  rw [hits]
  split
  case isTrue hempty =>
    rw [aobScan, if_pos (Or.inl hempty), List.take_nil]
    exact Returns.pure _
  case isFalse hpattern =>
    cases maxHits with
    | zero =>
        rw [aobScan, if_pos (Or.inr rfl), List.take_zero]
        exact Returns.pure _
    | succ maxHits => exact aobScan_eq _ _ hpattern (Nat.succ_le_succ (Nat.zero_le maxHits))

/-- Each listing function answers with the rows of its listing. -/
theorem hostCall_listing {host : Host} {state : GuestState} {call : HostCall}
    {listing : Listing} (hlisting : listingOf host state call = some listing) :
    hostCall host state call =
      .ok (reply state listing.outBuf listing.bytes Status.errBufTooSmall
        listing.taken.length) := by
  cases call <;> simp only [listingOf, reduceCtorEq] at hlisting
  case scan patPtr patLen outPtr outCapCount =>
    obtain ⟨pattern, hpattern, rfl⟩ := Option.map_eq_some_iff.mp hlisting
    have hscan := aobScan_hits host state pattern (clamped outCapCount)
    rw [Returns] at hscan
    simp only [hostCall, hostScan, hpattern, hscan, Option.getD_some]
    exact replied_listing state outPtr outCapCount (by decide) encode_word rfl
  case regions outPtr outCapCount =>
    cases hlisting
    exact replied_listing state outPtr outCapCount (by decide) regionBytes_eq rfl
  case listMethods klass outBuf outCapCount =>
    cases hlisting
    exact replyHandles_eq state outBuf outCapCount _
  case listInstances klass outBuf outCapCount =>
    cases hlisting
    exact replyHandles_eq state outBuf outCapCount _

/-- What a listing function hands a script reads back as the rows there are, as many as
the script asked for. -/
theorem listing_delivered {host : Host} (hwords : Words host) {state : GuestState}
    (hlinear : state.Linear) {call : HostCall} {listing : Listing}
    (hlisting : listingOf host state call = some listing) :
    ∃ after status, hostCall host state call = .ok (after, status) ∧
      listing.Delivered state after status :=
  ⟨_, _, hostCall_listing hlisting, Listing.delivered_reply hlinear (fits_rows hwords hlisting)⟩

/-- A process with two cached regions. -/
def sampleRegions : Host :=
  { sampleHost with regions := [⟨0x1000, 0x3000, 4⟩, ⟨0x8000, 0x9000, 2⟩] }

theorem listing_delivered_sample :
    ∃ after status,
      hostCall sampleRegions (sampleState (List.replicate 64 0)) (.regions 8 2) =
        .ok (after, status) ∧
      Listing.Delivered ⟨8, 2, [8, 8, 4], [[0x1000, 0x2000, 4], [0x8000, 0x1000, 2]]⟩
        (sampleState (List.replicate 64 0)) after status := by
  refine listing_delivered ?_ (sampleState_linear (by simp)) rfl
  intro region hregion
  simp only [sampleRegions, List.mem_cons, List.not_mem_nil, or_false] at hregion
  rcases hregion with rfl | rfl <;> decide

/-! ## Invocations -/

/-- What a script packs for `il2cpp.invoke`: the number of arguments, then the arguments. -/
def packedArgs (args : List InvokeArg) : List UInt8 :=
  lengthPrefix args.length ++ encodeElems args

/-- Packed arguments are unpacked again, unless one of them has no length of its own. -/
theorem decodeElems_encodeElems {elems : List InvokeArg} (hfits : fitsElems elems = true)
    (front tail : List UInt8) :
    decodeElems InvokeArg.decode (front ++ (encodeElems elems ++ tail)) elems.length
        front.length =
      bif framedElems elems then some (elems, front.length + (encodeElems elems).length)
      else none := by
  induction elems generalizing front with
  | nil => simp [decodeElems, framedElems, encodeElems]
  | cons elem elems ih =>
      rw [fitsElems, Bool.and_eq_true] at hfits
      have hfirst := decode_encode elem hfits.1 (encodeElems elems ++ tail)
      have hrest := ih hfits.2 (front ++ elem.encode)
      rw [List.append_assoc, List.length_append] at hrest
      rw [encodeElems, List.append_assoc, List.length_cons, decodeElems,
        List.drop_left' rfl, hfirst, framedElems]
      cases elem.framed with
      | false => rfl
      | true =>
          simp only [cond_true, Option.bind_eq_bind, Option.bind_some, hrest, Bool.true_and]
          cases framedElems elems with
          | false => rfl
          | true => simp [Nat.add_assoc]

theorem unpackedArgs_packedArgs {args : List InvokeArg} (hcount : fitsU32 args.length = true)
    (hfits : fitsElems args = true) (tail : List UInt8) :
    unpackedArgs (packedArgs args ++ tail) =
      bif framedElems args then .ok args else .error (-104) := by
  have hfour : (lengthPrefix args.length).length = 4 := length_leBytes 4 _
  have hlong : ¬ (packedArgs args ++ tail).length < 4 := by
    rw [packedArgs, List.length_append, List.length_append, hfour]
    omega
  have hlt : args.length < 256 ^ 4 := by
    simpa [fitsU32] using hcount
  have helems := decodeElems_encodeElems hfits (lengthPrefix args.length) tail
  rw [hfour] at helems
  rw [unpackedArgs, if_neg hlong, packedArgs, List.append_assoc, List.take_left' hfour,
    lengthPrefix, leValue_leBytes hlt, ← lengthPrefix, helems]
  cases framedElems args with
  | false => rfl
  | true => rfl

theorem fixedWidth_le_eight {ty : ValType} {width : ℕ} (hwidth : ty.fixedWidth = some width) :
    width ≤ 8 := by
  cases ty <;> cases hwidth <;> decide

/-- A method returns nothing or a number, so its result can be read back. -/
theorem invokeMethod_value {internals : Internals} {memory : Memory UInt8}
    {process : Invoke.Process} {method : ℕ} {receiver : Option UInt64}
    {args : List InvokeArg} {value : InvokeArg}
    (hvalue : (invokeMethod internals memory process method receiver args).2 = .ok value) :
    value.fits = true ∧ value.framed = true := by
  rw [invokeMethod] at hvalue
  cases hprepare : prepareCall internals memory process method receiver args with
  | error error =>
      rw [hprepare] at hvalue
      cases hvalue
  | ok prepared =>
      obtain ⟨runtimeInvoke, sig, call⟩ := prepared
      obtain ⟨-, -, hsig, -⟩ := prepareCall_ok_iff.mp hprepare
      obtain ⟨width, hwidth⟩ := Option.isSome_iff_exists.mp (fixedWidth_readSignature hsig).2
      rw [hprepare] at hvalue
      simp only [finishCall] at hvalue
      split at hvalue
      · cases hvalue
      · rw [unpackReturn] at hvalue
        split at hvalue
        · cases hvalue
          exact ⟨rfl, rfl⟩
        · dsimp only at hvalue
          split at hvalue
          case h_2 => cases hvalue
          case h_1 number hnumber =>
            cases hvalue
            have htype := (Value.encode_of_decode hwidth hnumber).1
            rw [← htype] at hwidth
            have hlength := Value.length_encode hwidth
            have hsmall : width ≤ 8 := fixedWidth_le_eight hwidth
            constructor
            · simp only [InvokeArg.fits, fitsU32, decide_eq_true_eq]
              omega
            · rw [InvokeArg.framed, Value.framed, hwidth]
              rfl

/-- What a script is told of the result of a method.  The result is there, or there was no
room for it, or the method did not return one; only in the first case does guest memory
change, and only inside the place of the result. -/
def Told (state after : GuestState) (outBuf outCap : BitVec 32) (status : ℤ) :
    Except InvokeError InvokeArg → Prop
  | .error error => status = error.code ∧ after.guest = state.guest
  | .ok value =>
      let size := value.encode.length
      (size ≤ clamped outCap ∧ HasRoom state outBuf size ∧ status = 0 ∧
          InvokeArg.decode (standing after outBuf) = some (value, size) ∧
          Option.Rel (SameOutside (asUsize outBuf) size) state.guest after.guest) ∨
        (clamped outCap < size ∧ status = Status.errBufTooSmall ∧
          after.guest = state.guest) ∨
        (size ≤ clamped outCap ∧ ¬ HasRoom state outBuf size ∧ status = -1 ∧
          after.guest = state.guest)

theorem told_replyWithin {state : GuestState} (hlinear : state.Linear)
    (outBuf outCap : BitVec 32) {value : InvokeArg} (hfits : value.fits = true)
    (hframed : value.framed = true) :
    let answer := replyWithin state outBuf outCap value.encode (-1) 0
    Told state answer.1 outBuf outCap answer.2 (.ok value) ∧
      answer.1.caller.process = state.caller.process := by
  intro answer
  by_cases hsmall : clamped outCap < value.encode.length
  · have hanswer : answer = (state, Status.errBufTooSmall) := if_pos hsmall
    rw [hanswer]
    exact ⟨Or.inr (Or.inl ⟨hsmall, rfl, rfl⟩), rfl⟩
  · have hanswer : answer = reply state outBuf value.encode (-1) 0 := if_neg hsmall
    have hsize := Nat.not_lt.mp hsmall
    by_cases hroom : HasRoom state outBuf value.encode.length
    · obtain ⟨data, hreply, hsame, rest, hrest⟩ := reply_of_room hlinear hroom (-1) 0
      rw [hanswer, hreply]
      refine ⟨Or.inl ⟨hsize, hroom, rfl, ?_, hsame⟩, rfl⟩
      rw [hrest, decode_encode value hfits, hframed, cond_true]
    · rw [hanswer, reply_without_room hroom]
      exact ⟨Or.inr (Or.inr ⟨hsize, hroom, rfl, rfl⟩), rfl⟩

theorem told_invokeReply {host : Host} {state : GuestState} (hlinear : state.Linear)
    (method : ℕ) (receiver : Option UInt64) (args : List InvokeArg)
    (outBuf outCap : BitVec 32) :
    let answer := invokeReply host state method receiver args outBuf outCap
    let called := invokeMethod host.internals state.caller.process host.process method
      receiver args
    Told state answer.1 outBuf outCap answer.2 called.2 ∧
      answer.1.caller.process = memoryAfter host.process state.caller.process called.1 := by
  intro answer called
  let ran := state.setProcess (memoryAfter host.process state.caller.process called.1)
  have hran : ran.Linear := hlinear
  cases hresult : called.2 with
  | error error =>
      have hanswer : answer = (ran, error.code) := by
        simp only [answer, invokeReply]
        rw [hresult]
      rw [hanswer]
      exact ⟨⟨rfl, rfl⟩, rfl⟩
  | ok value =>
      have hanswer : answer = replyWithin ran outBuf outCap value.encode (-1) 0 := by
        simp only [answer, invokeReply]
        rw [hresult]
      obtain ⟨hfits, hframed⟩ := invokeMethod_value hresult
      rw [hanswer]
      exact told_replyWithin hran outBuf outCap hfits hframed

/-- A method that a script invokes is called with the arguments the script packed, and
what it returns reads back as the value that was returned; arguments that cannot be
packed never reach a method. -/
theorem invoke_delivers {host : Host} {state : GuestState} (hlinear : state.Linear)
    {args : List InvokeArg} (hcount : fitsU32 args.length = true)
    (hfits : fitsElems args = true) (methodPtr instancePtr : BitVec 64)
    {argsBuf argsLen : BitVec 32} {tail : List UInt8}
    (hread : readGuest state.guest argsBuf argsLen = some (packedArgs args ++ tail))
    (outBuf outCap : BitVec 32) :
    let receiver := if instancePtr = 0 then none else some (UInt64.ofBitVec instancePtr)
    let called := invokeMethod host.internals state.caller.process host.process
      methodPtr.toNat receiver args
    ∃ after status,
      hostCall host state (.invoke methodPtr instancePtr argsBuf argsLen outBuf outCap) =
        .ok (after, status) ∧
      bif framedElems args then
        Told state after outBuf outCap status called.2 ∧
          after.caller.process = memoryAfter host.process state.caller.process called.1
      else status = -104 ∧ after = state := by
  intro receiver called
  have hunpacked := unpackedArgs_packedArgs hcount hfits tail
  cases hframed : framedElems args with
  | false =>
      rw [hframed, cond_false] at hunpacked
      refine ⟨state, -104, ?_, rfl, rfl⟩
      simp only [hostCall, hostInvoke, hread, invokeArgs_ok, hunpacked]
      rfl
  | true =>
      rw [hframed, cond_true] at hunpacked
      refine ⟨(invokeReply host state methodPtr.toNat receiver args outBuf outCap).1,
        (invokeReply host state methodPtr.toNat receiver args outBuf outCap).2, ?_, ?_⟩
      · simp only [hostCall, hostInvoke, hread, invokeArgs_ok, hunpacked]
        rfl
      · exact told_invokeReply hlinear methodPtr.toNat receiver args outBuf outCap

/-- A script with a packed number in its memory, in a process whose methods return null. -/
def sampleCaller : GuestState :=
  { sampleState (packedArgs [.prim (.i64 5)]) with
    caller := ⟨⟨0, .new⟩, some (packedArgs [.prim (.i64 5)]), sampleMethod 0x0A 0x08⟩ }

theorem invoke_delivers_sample :
    ∃ after status,
      hostCall { sampleHost with process := sampleProcess } sampleCaller
        (.invoke 0x100 0 0 13 8 4) = .ok (after, status) ∧
      Told sampleCaller after 8 4 status (.ok .null) ∧ after.caller.process = fun _ => 0 := by
  have hlinear : sampleCaller.Linear := by
    intro data hdata
    cases hdata
    decide
  have hcount : fitsU32 [InvokeArg.prim (.i64 5)].length = true := by decide
  have hfits : fitsElems [InvokeArg.prim (.i64 5)] = true := by decide
  have hread : readGuest sampleCaller.guest 0 13 =
      some (packedArgs [.prim (.i64 5)] ++ []) := rfl
  exact invoke_delivers hlinear hcount hfits 0x100 0 hread 8 4

end FrogAgent.GuestAbi
