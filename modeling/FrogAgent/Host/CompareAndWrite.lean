import FrogAgent.Host.GuestCalls
import FrogAgent.Host.JournalRevert

/-!
# Compare and write

`mem.write_if` reads the current value, compares it with the expected one and writes the
new one only if they match.  The comparison is the one of the Rust type: for the eight
integer types it is equality of bytes, but no NaN equals itself and the two zeros are
equal.
-/

namespace FrogAgent.CompareAndWrite

open FrogAgent.Buffer
open FrogAgent.ByteMemory
open FrogAgent.GuestCalls
open FrogAgent.JournalRevert
open FrogAgent.LittleEndian
open FrogAgent.MemHost
open FrogAgent.TypedValue

/-- A `mem.write_if` of a fixed-width type at a readable and writable address, with guest
buffers at least as long as the type. -/
structure Attempt where
  backend : Backend
  caller : Caller
  addr : BitVec 64
  ty : BitVec 32
  expPtr : BitVec 32
  expLen : BitVec 32
  newPtr : BitVec 32
  newLen : BitVec 32
  valType : ValType
  width : ℕ
  expBytes : List UInt8
  newBytes : List UInt8
  typeOf_ty : typeOf ty = some valType
  fixedWidth : valType.fixedWidth = some width
  readGuest_exp : readGuest caller.guest expPtr expLen = some expBytes
  readGuest_new : readGuest caller.guest newPtr newLen = some newBytes
  exp_long : width ≤ expBytes.length
  new_long : width ≤ newBytes.length
  readable : backend.readable addr.toNat width = true
  writable : backend.writable addr.toNat width = true

namespace Attempt

def run (attempt : Attempt) : Caller × ℤ :=
  hostWriteIf attempt.backend attempt.caller attempt.addr attempt.ty attempt.expPtr
    attempt.expLen attempt.newPtr attempt.newLen

/-- The bytes at the address. -/
def current (attempt : Attempt) : List UInt8 :=
  load attempt.caller.process attempt.addr.toNat attempt.width

def expected (attempt : Attempt) : List UInt8 := attempt.expBytes.take attempt.width

def written (attempt : Attempt) : Memory UInt8 :=
  store attempt.caller.process ⟨attempt.addr.toNat, attempt.newBytes.take attempt.width⟩

/-- Written and `OK` if the bytes are the expected ones, and otherwise `CHANGED` with
memory and journal untouched. -/
def ByteExact (attempt : Attempt) : Prop :=
  (attempt.current = attempt.expected →
    attempt.run.2 = Status.ok ∧ attempt.run.1.process = attempt.written) ∧
  (attempt.current ≠ attempt.expected → attempt.run = (attempt.caller, Status.changed))

/-- The guest has just read the same type at the same address into its expected
buffer. -/
def AfterRead (attempt : Attempt) : Prop :=
  ∃ (host : Host) (before after : GuestState) (len outCap : BitVec 32),
    host.backend = attempt.backend ∧ after.caller = attempt.caller ∧
    hostRead host before attempt.addr attempt.ty len attempt.expPtr outCap =
      (after, (attempt.width : ℤ))

/-- A byte-exact compare-and-write, which succeeds after a read. -/
def ComparesBytes (attempt : Attempt) : Prop :=
  attempt.ByteExact ∧ (attempt.AfterRead → attempt.run.2 = Status.ok)

end Attempt

/-! ## What the comparison of a type says about bytes -/

/-- The value of the first four bytes. -/
def f32Of (bytes : List UInt8) : F32 := ⟨BitVec.ofNat 32 (leValue (bytes.take 4))⟩

def f64Of (bytes : List UInt8) : F64 := ⟨BitVec.ofNat 64 (leValue (bytes.take 8))⟩

/-- The same NaN twice, or two zeros of different sign. -/
def Unlike {α : Type} (isNaN isZero : α → Bool) (current expected : α) : Prop :=
  (current = expected ∧ isNaN current = true) ∨
    (current ≠ expected ∧ isZero current = true ∧ isZero expected = true)

/-- The values of these bytes compare unlike the bytes. -/
def Misjudged (valType : ValType) (current expected : List UInt8) : Prop :=
  match valType with
  | .f32 => Unlike F32.isNaN F32.isZero (f32Of current) (f32Of expected)
  | .f64 => Unlike F64.isNaN F64.isZero (f64Of current) (f64Of expected)
  | _ => False

/-- The comparison of floating-point values differs from equality exactly where it is
unlike it. -/
theorem floatEq_iff {α : Type} {isNaN isZero : α → Bool} {current expected : α} {same : Bool}
    (hzero : ∀ value, isZero value = true → isNaN value = false)
    (hsame : same = true ↔ current = expected) :
    (((!isNaN current && !isNaN expected &&
        (same || (isZero current && isZero expected))) = true) ↔ current = expected) ↔
      ¬ Unlike isNaN isZero current expected := by
  by_cases hequal : current = expected
  case pos =>
    subst hequal
    have htrue : same = true := hsame.mpr rfl
    cases hnan : isNaN current <;> simp [Unlike, hnan, htrue]
  case neg =>
    have hfalse : same = false := by
      cases same
      · rfl
      · exact absurd (hsame.mp rfl) hequal
    cases hcurrent : isZero current with
    | false => simp [Unlike, hequal, hcurrent, hfalse]
    | true =>
        cases hexpected : isZero expected with
        | false => simp [Unlike, hequal, hexpected, hfalse]
        | true =>
            simp [Unlike, hequal, hcurrent, hexpected, hzero current hcurrent,
              hzero expected hexpected]

theorem extract_eq_zero {width low count : ℕ} {bits : BitVec width} (hcount : count ≤ low)
    (hzero : bits.extractLsb' 0 low = BitVec.zero low) :
    bits.extractLsb' 0 count = BitVec.zero count := by
  rw [← BitVec.extractLsb'_extractLsb'_of_le (by omega : 0 + count ≤ low), hzero]
  simp

theorem isNaN_of_isZero_f32 (value : F32) (hzero : value.isZero = true) :
    value.isNaN = false := by
  have hlow : value.bits.extractLsb' 0 31 = 0#31 := by simpa [F32.isZero] using hzero
  simp [F32.isNaN, extract_eq_zero (by decide : 23 ≤ 31) hlow]

theorem isNaN_of_isZero_f64 (value : F64) (hzero : value.isZero = true) :
    value.isNaN = false := by
  have hlow : value.bits.extractLsb' 0 63 = 0#63 := by simpa [F64.isZero] using hzero
  simp [F64.isNaN, extract_eq_zero (by decide : 52 ≤ 63) hlow]

theorem eq_f32_iff (current expected : F32) :
    (PartialEq.eq current expected = true ↔ current = expected) ↔
      ¬ Unlike F32.isNaN F32.isZero current expected := by
  apply floatEq_iff isNaN_of_isZero_f32
  rw [beq_iff_eq]
  exact ⟨fun hbits => congrArg F32.mk hbits, fun hequal => congrArg F32.bits hequal⟩

theorem eq_f64_iff (current expected : F64) :
    (PartialEq.eq current expected = true ↔ current = expected) ↔
      ¬ Unlike F64.isNaN F64.isZero current expected := by
  apply floatEq_iff isNaN_of_isZero_f64
  rw [beq_iff_eq]
  exact ⟨fun hbits => congrArg F64.mk hbits, fun hequal => congrArg F64.bits hequal⟩

/-! ## One type -/

/-- The decoder looks at no byte behind the width of its type. -/
def Prefixed (T : Type) [MemValue T] : Prop :=
  ∀ bytes, MemValue.fromLeBytesSpine (T := T) bytes =
    MemValue.fromLeBytesSpine (bytes.take (MemValue.width T))

theorem prefixed_numeric {T : Type} (valType : ValType) (width : ℕ)
    (ofBits : BitVec (8 * width) → T) (toBits : T → BitVec (8 * width))
    (hwidth : valType.fixedWidth = some width) (hpos : 0 < width)
    (hbits : ∀ bits, toBits (ofBits bits) = bits) :
    @Prefixed T (implMemValueNumeric valType width ofBits toBits hwidth hpos hbits) := by
  intro bytes
  change (if bytes.length < width then none
      else some (ofBits (BitVec.ofNat _ (leValue (bytes.take width))))) =
    if (bytes.take width).length < width then none
      else some (ofBits (BitVec.ofNat _ (leValue ((bytes.take width).take width))))
  have hshort : (bytes.take width).length < width ↔ bytes.length < width := by
    rw [List.length_take]
    omega
  rw [List.take_take, Nat.min_self]
  simp only [hshort]

section Typed

variable {T : Type} [MemValue T]

theorem exists_decoded {bytes : List UInt8} (hlong : MemValue.width T ≤ bytes.length) :
    ∃ value : T, MemValue.fromLeBytesSpine bytes = some value := by
  apply Option.isSome_iff_exists.mp
  rw [MemValue.fromLeBytesSpine_isSome]
  exact decide_eq_true hlong

/-- Two values are equal exactly when their bytes are. -/
theorem decoded_eq_iff (hprefixed : Prefixed T) {left right : List UInt8}
    {current expected : T} (hleft : MemValue.fromLeBytesSpine left = some current)
    (hright : MemValue.fromLeBytesSpine right = some expected) :
    current = expected ↔
      left.take (MemValue.width T) = right.take (MemValue.width T) := by
  constructor
  · intro hequal
    rw [← MemValue.toLeBytesBuf_fromLeBytesSpine left current hleft,
      ← MemValue.toLeBytesBuf_fromLeBytesSpine right expected hright, hequal]
  · intro hbytes
    rw [hprefixed] at hleft hright
    rw [hbytes, hright] at hleft
    exact (Option.some.inj hleft).symm

theorem journalledWrite_written {backend : Backend} (caller : Caller) {addr : BitVec 64}
    {bytes : List UInt8} {value : T} (hvalue : MemValue.fromLeBytesSpine bytes = some value)
    (hwritable : backend.writable addr.toNat (MemValue.width T) = true) :
    (journalledWrite backend caller addr value).2 = Status.ok ∧
      (journalledWrite backend caller addr value).1.process =
        store caller.process ⟨addr.toNat, bytes.take (MemValue.width T)⟩ := by
  rw [← length_toLeBytesBuf hvalue] at hwritable
  rw [← MemValue.toLeBytesBuf_fromLeBytesSpine bytes value hvalue]
  simp only [journalledWrite, apiWrite, rawWrite, hwritable, if_true, and_self]

theorem hostWriteIfTyped_eq [PartialEq T] {backend : Backend} (caller : Caller)
    {addr : BitVec 64} {expBytes newBytes : List UInt8} {current expected new : T}
    (hexpected : MemValue.fromLeBytesSpine expBytes = some expected)
    (hnew : MemValue.fromLeBytesSpine newBytes = some new)
    (hreadable : backend.readable addr.toNat (MemValue.width T) = true)
    (hcurrent : MemValue.fromLeBytesSpine
      (load caller.process addr.toNat (MemValue.width T)) = some current) :
    hostWriteIfTyped T backend caller addr expBytes newBytes =
      if PartialEq.eq current expected then journalledWrite backend caller addr new
      else (caller, Status.changed) := by
  simp only [hostWriteIfTyped, hexpected, hnew, apiRead, rawRead, hreadable, if_true,
    hcurrent]

/-- A typed attempt is byte-exact exactly when the comparison of its two values is
equality. -/
theorem byteExact_iff_agrees [PartialEq T] {attempt : Attempt} (hprefixed : Prefixed T)
    (hwidth : attempt.width = MemValue.width T)
    (hrun : attempt.run = hostWriteIfTyped T attempt.backend attempt.caller attempt.addr
      attempt.expBytes attempt.newBytes) :
    ∃ current expected : T,
      MemValue.fromLeBytesSpine attempt.current = some current ∧
      MemValue.fromLeBytesSpine attempt.expected = some expected ∧
      (attempt.ByteExact ↔
        (PartialEq.eq current expected = true ↔ current = expected)) := by
  have hlength : attempt.current.length = MemValue.width T := by
    rw [Attempt.current, length_load, hwidth]
  obtain ⟨current, hcurrent⟩ := exists_decoded (T := T) (Nat.le_of_eq hlength.symm)
  obtain ⟨expected, hexpected⟩ := exists_decoded (T := T) (hwidth ▸ attempt.exp_long)
  obtain ⟨new, hnew⟩ := exists_decoded (T := T) (hwidth ▸ attempt.new_long)
  have htaken : MemValue.fromLeBytesSpine attempt.expected = some expected := by
    rw [Attempt.expected, hwidth, ← hprefixed, hexpected]
  refine ⟨current, expected, hcurrent, htaken, ?_⟩
  have hbytes : attempt.current = attempt.expected ↔ current = expected := by
    rw [decoded_eq_iff hprefixed hcurrent htaken, ← hlength, List.take_length, hlength,
      Attempt.expected, hwidth, List.take_take, Nat.min_self]
  have hreadable := attempt.readable
  have hwritable := attempt.writable
  rw [hwidth] at hreadable hwritable
  have hload : attempt.current =
      load attempt.caller.process attempt.addr.toNat (MemValue.width T) := by
    rw [Attempt.current, hwidth]
  have hresult := hostWriteIfTyped_eq attempt.caller hexpected hnew hreadable
    (hload ▸ hcurrent)
  rw [← hrun] at hresult
  have hwritten := journalledWrite_written attempt.caller hnew hwritable
  rw [Attempt.ByteExact, ne_eq, hbytes, hresult, Attempt.written, hwidth]
  by_cases hequal : PartialEq.eq current expected = true
  case pos =>
    rw [if_pos hequal, ← hwritten.2]
    have hchanged : journalledWrite attempt.backend attempt.caller attempt.addr new ≠
        (attempt.caller, Status.changed) := by
      intro hsame
      have hstatus := congrArg Prod.snd hsame
      rw [hwritten.1] at hstatus
      exact absurd hstatus (by decide : Status.ok ≠ Status.changed)
    simp [hequal, hwritten.1, hchanged]
  case neg =>
    rw [if_neg hequal]
    have hstatus : Status.changed ≠ Status.ok := by decide
    simp [hequal, hstatus]

end Typed

/-! ## All types -/

theorem Attempt.run_eq (attempt : Attempt) :
    attempt.run = attempt.valType.dispatch
      (fun T _ _ => hostWriteIfTyped T attempt.backend attempt.caller attempt.addr
        attempt.expBytes attempt.newBytes)
      (attempt.caller, Status.errBadType) := by
  have htype := attempt.typeOf_ty
  rw [typeOf] at htype
  rw [Attempt.run, hostWriteIf, htype, attempt.readGuest_exp, attempt.readGuest_new]

/-- The eight integer types compare by equality. -/
theorem byteExact_of_lawful {T : Type} [MemValue T] [PartialEq T] {attempt : Attempt}
    (hprefixed : Prefixed T)
    (hlawful : ∀ left right : T, PartialEq.eq left right = true ↔ left = right)
    (hwidth : attempt.valType.fixedWidth = some (MemValue.width T))
    (hrun : attempt.run = hostWriteIfTyped T attempt.backend attempt.caller attempt.addr
      attempt.expBytes attempt.newBytes) : attempt.ByteExact := by
  have hsame : attempt.width = MemValue.width T := by
    rw [attempt.fixedWidth] at hwidth
    exact Option.some.inj hwidth
  obtain ⟨current, expected, -, -, hexact⟩ := byteExact_iff_agrees hprefixed hsame hrun
  exact hexact.mpr (hlawful current expected)

/-- The two floating-point types, whose values are their bits. -/
theorem byteExact_iff_of_float {T : Type} [MemValue T] [PartialEq T] {attempt : Attempt}
    {isNaN isZero : T → Bool} {valueOf : List UInt8 → T} (hprefixed : Prefixed T)
    (heq : ∀ left right : T, (PartialEq.eq left right = true ↔ left = right) ↔
      ¬ Unlike isNaN isZero left right)
    (hvalueOf : ∀ bytes value, MemValue.fromLeBytesSpine bytes = some value →
      value = valueOf bytes)
    (hwidth : attempt.valType.fixedWidth = some (MemValue.width T))
    (hrun : attempt.run = hostWriteIfTyped T attempt.backend attempt.caller attempt.addr
      attempt.expBytes attempt.newBytes) :
    attempt.ByteExact ↔
      ¬ Unlike isNaN isZero (valueOf attempt.current) (valueOf attempt.expected) := by
  have hsame : attempt.width = MemValue.width T := by
    rw [attempt.fixedWidth] at hwidth
    exact Option.some.inj hwidth
  obtain ⟨current, expected, hcurrent, hexpected, hexact⟩ :=
    byteExact_iff_agrees hprefixed hsame hrun
  rw [hexact, heq, hvalueOf _ _ hcurrent, hvalueOf _ _ hexpected]

theorem f32Of_eq (bytes : List UInt8) (value : F32)
    (hvalue : MemValue.fromLeBytesSpine bytes = some value) : value = f32Of bytes := by
  change (if bytes.length < 4 then none else some (f32Of bytes)) = some value at hvalue
  split at hvalue
  · contradiction
  · exact (Option.some.inj hvalue).symm

theorem f64Of_eq (bytes : List UInt8) (value : F64)
    (hvalue : MemValue.fromLeBytesSpine bytes = some value) : value = f64Of bytes := by
  change (if bytes.length < 8 then none else some (f64Of bytes)) = some value at hvalue
  split at hvalue
  · contradiction
  · exact (Option.some.inj hvalue).symm

theorem byteExact_iff (attempt : Attempt) :
    attempt.ByteExact ↔ ¬ Misjudged attempt.valType attempt.current attempt.expected := by
  have hrun := attempt.run_eq
  cases hty : attempt.valType <;> rw [hty] at hrun
  case f32 =>
    exact byteExact_iff_of_float (prefixed_numeric _ _ _ _ _ _ fun _ => rfl) eq_f32_iff f32Of_eq
      (by rw [hty]; rfl) hrun
  case f64 =>
    exact byteExact_iff_of_float (prefixed_numeric _ _ _ _ _ _ fun _ => rfl) eq_f64_iff f64Of_eq
      (by rw [hty]; rfl) hrun
  case bytes =>
    have hwidth := attempt.fixedWidth
    rw [hty] at hwidth
    contradiction
  case cstr =>
    have hwidth := attempt.fixedWidth
    rw [hty] at hwidth
    contradiction
  all_goals
    apply iff_of_true _ not_false
    exact byteExact_of_lawful (prefixed_numeric _ _ _ _ _ _ fun _ => rfl) (fun _ _ => beq_iff_eq)
      (by rw [hty]; rfl) hrun

/-! ## After a read -/

theorem apiRead_bytes {T : Type} [MemValue T] {backend : Backend} {memory : Memory UInt8}
    {addr : BitVec 64}
    (hreadable : backend.readable addr.toNat (MemValue.width T) = true) :
    (apiRead T backend memory addr).map MemValue.toLeBytesBuf =
      .ok (load memory addr.toNat (MemValue.width T)) := by
  have hlong : MemValue.width T ≤ (load memory addr.toNat (MemValue.width T)).length := by
    rw [length_load]
  obtain ⟨value, hvalue⟩ := exists_decoded hlong
  have hbytes := MemValue.toLeBytesBuf_fromLeBytesSpine _ value hvalue
  rw [List.take_of_length_le (by rw [length_load])] at hbytes
  simp only [apiRead, rawRead, hreadable, if_true, hvalue, Except.map, hbytes]

/-- A read of a fixed-width type at a readable address answers the bytes there. -/
theorem readAnswer_fixed {backend : Backend} {memory : Memory UInt8} {addr : BitVec 64}
    {valType : ValType} {width : ℕ} (len : BitVec 32)
    (hwidth : valType.fixedWidth = some width)
    (hreadable : backend.readable addr.toNat width = true) :
    readAnswer backend memory addr valType len = .ok (load memory addr.toNat width) := by
  cases valType
  case bytes => contradiction
  case cstr => contradiction
  all_goals
    cases hwidth
    exact apiRead_bytes hreadable

theorem hostRead_process (host : Host) (state : GuestState) (addr : BitVec 64)
    (ty len outPtr outCap : BitVec 32) :
    (hostRead host state addr ty len outPtr outCap).1.caller.process =
      state.caller.process := by
  rw [hostRead]
  split
  · rfl
  · split
    · rfl
    · rw [replyWithin]
      split
      · rfl
      · rw [reply]
        split <;> rfl

/-- Bytes that were copied to the guest are what it reads back from there. -/
theorem readGuest_writeGuest {guest : Option (List UInt8)} {after bytes back : List UInt8}
    {ptr count : BitVec 32} (hwrite : writeGuest guest ptr bytes = some after)
    (hread : readGuest (some after) ptr count = some back)
    (hlong : bytes.length ≤ back.length) : back.take bytes.length = bytes := by
  rw [writeGuest, Option.bind_eq_bind, Option.bind_eq_some_iff] at hwrite
  obtain ⟨data, -, hcopy⟩ := hwrite
  split at hcopy
  case isFalse => contradiction
  case isTrue =>
    simp only [readGuest, Option.bind_eq_bind, Option.bind_some,
      Option.ite_none_right_eq_some, Option.some.injEq] at hread
    obtain ⟨-, hback⟩ := hread
    have hcount : bytes.length ≤ (count.signExtend 64).toNat := by
      rw [← hback, List.length_take] at hlong
      omega
    rw [← hback, List.take_take, Nat.min_eq_left hcount]
    exact take_drop_copyIn hcopy

theorem Attempt.AfterRead.current_eq {attempt : Attempt} (hread : attempt.AfterRead) :
    attempt.current = attempt.expected := by
  obtain ⟨host, before, after, len, outCap, hbackend, hcaller, hresult⟩ := hread
  have hprocess := hostRead_process host before attempt.addr attempt.ty len attempt.expPtr
    outCap
  rw [hresult, hcaller] at hprocess
  have htype := attempt.typeOf_ty
  rw [typeOf] at htype
  have hanswer : readAnswer host.backend before.caller.process attempt.addr attempt.valType
      len = .ok attempt.current := by
    rw [hbackend, ← hprocess]
    exact readAnswer_fixed len attempt.fixedWidth attempt.readable
  have hnonneg : (attempt.width : ℤ) ≠ Status.errBufTooSmall := by
    have hsmall : Status.errBufTooSmall = -4 := rfl
    omega
  rw [hostRead, htype] at hresult
  simp only [hanswer, replyWithin] at hresult
  split at hresult
  case isTrue => exact absurd (congrArg Prod.snd hresult).symm hnonneg
  case isFalse =>
    rw [reply] at hresult
    split at hresult
    case h_2 => exact absurd (congrArg Prod.snd hresult).symm hnonneg
    case h_1 data hwrite =>
      have hguest : attempt.caller.guest = some data := by
        have hafter : before.setGuest data = after := congrArg Prod.fst hresult
        rw [← hcaller, ← hafter]
        rfl
      have hback := attempt.readGuest_exp
      rw [hguest] at hback
      have hlength : attempt.current.length = attempt.width := by
        rw [Attempt.current, length_load]
      have hlong := attempt.exp_long
      rw [← hlength] at hlong
      have hsame := readGuest_writeGuest hwrite hback hlong
      rw [hlength] at hsame
      exact hsame.symm

/-- `mem.write_if` compares bytes exactly when the current and the expected bytes are not
two floating-point values that compare unlike their bytes. -/
theorem comparesBytes_iff (attempt : Attempt) :
    attempt.ComparesBytes ↔
      ¬ Misjudged attempt.valType attempt.current attempt.expected := by
  constructor
  · intro hcompares
    exact (byteExact_iff attempt).mp hcompares.1
  · intro hjudged
    have hexact := (byteExact_iff attempt).mpr hjudged
    apply And.intro hexact
    intro hread
    exact (hexact.1 hread.current_eq).1

theorem fixedWidth_f32 : ValType.f32.fixedWidth = some 4 := rfl

/-- A quiet NaN at the address and in the guest buffer, to be replaced by zero. -/
def nanAttempt : Attempt where
  backend := flatBackend
  caller := ⟨⟨1, .new⟩, some [0, 0, 0xC0, 0x7F, 0, 0, 0, 0], fun address =>
    if address = 0x1002 then 0xC0 else if address = 0x1003 then 0x7F else 0⟩
  addr := 0x1000
  ty := 8
  expPtr := 0
  expLen := 4
  newPtr := 4
  newLen := 4
  valType := .f32
  width := 4
  expBytes := [0, 0, 0xC0, 0x7F]
  newBytes := [0, 0, 0, 0]
  typeOf_ty := rfl
  fixedWidth := fixedWidth_f32
  readGuest_exp := rfl
  readGuest_new := rfl
  exp_long := by decide
  new_long := by decide
  readable := rfl
  writable := rfl

/-- The bytes are the expected ones, and still the answer is `CHANGED`. -/
theorem not_comparesBytes_nan : ¬ nanAttempt.ComparesBytes := by
  intro hcompares
  have hok := (hcompares.1.1 (by decide)).1
  revert hok
  decide

end FrogAgent.CompareAndWrite
