import FrogAgent.Lib.LittleEndian

/-!
# Typed memory values

The value vocabulary of the `mem.*` interface: the closed set of value types
with their wire tags and widths (`mem_value.rs`), the status codes returned to
the guest, and the byte conversions of the ten fixed-width types
(`spine/value.rs`).  Floating-point values are their bit patterns; only the
comparison used by `mem.write_if` interprets them.
-/

namespace FrogAgent.TypedValue

open FrogAgent.LittleEndian

inductive ValType where
  | u8 | u16 | u32 | u64
  | i8 | i16 | i32 | i64
  | f32 | f64
  | bytes | cstr
  deriving DecidableEq, Repr

/-- Fixed byte width, or `none` for the two variable-length types. -/
def ValType.fixedWidth : ValType → Option ℕ
  | .u8 | .i8 => some 1
  | .u16 | .i16 => some 2
  | .u32 | .i32 | .f32 => some 4
  | .u64 | .i64 | .f64 => some 8
  | .bytes | .cstr => none

def ValType.fromTag (tag : UInt8) : Option ValType :=
  match tag.toNat with
  | 0 => some .u8 | 1 => some .u16 | 2 => some .u32 | 3 => some .u64
  | 4 => some .i8 | 5 => some .i16 | 6 => some .i32 | 7 => some .i64
  | 8 => some .f32 | 9 => some .f64
  | 10 => some .bytes | 11 => some .cstr
  | _ => none

/-- The wire tag, `self as u8`. -/
def ValType.tag : ValType → UInt8
  | .u8 => 0 | .u16 => 1 | .u32 => 2 | .u64 => 3
  | .i8 => 4 | .i16 => 5 | .i32 => 6 | .i64 => 7
  | .f32 => 8 | .f64 => 9
  | .bytes => 10 | .cstr => 11

namespace Status

def ok : ℤ := 0
def errUnreadable : ℤ := -1
def errUnwritable : ℤ := -2
def errBadType : ℤ := -3
def errBufTooSmall : ℤ := -4
def errDenied : ℤ := -5
def changed : ℤ := 1

end Status

/-- An IEEE-754 binary32 value as its bit pattern. -/
structure F32 where
  bits : BitVec 32
  deriving DecidableEq, Repr

/-- An IEEE-754 binary64 value as its bit pattern. -/
structure F64 where
  bits : BitVec 64
  deriving DecidableEq, Repr

def F32.isNaN (value : F32) : Bool :=
  value.bits.extractLsb' 23 8 == 0xFF#8 && value.bits.extractLsb' 0 23 != 0#23

def F64.isNaN (value : F64) : Bool :=
  value.bits.extractLsb' 52 11 == 0x7FF#11 && value.bits.extractLsb' 0 52 != 0#52

def F32.isZero (value : F32) : Bool := value.bits.extractLsb' 0 31 == 0#31

def F64.isZero (value : F64) : Bool := value.bits.extractLsb' 0 63 == 0#63

/-- Assemble a binary64 pattern from sign, exponent field and fraction. -/
def F64.pack (sign : BitVec 1) (exponent fraction : ℕ) : F64 :=
  ⟨sign ++ BitVec.ofNat 11 exponent ++ BitVec.ofNat 52 fraction⟩

/-- `value as f64`: exact, except that a NaN becomes quiet. -/
def F32.toF64 (value : F32) : F64 :=
  let sign := value.bits.extractLsb' 31 1
  let exponent := (value.bits.extractLsb' 23 8).toNat
  let fraction := (value.bits.extractLsb' 0 23).toNat
  if exponent = 0xFF then
    let quiet := if fraction = 0 then 0 else 2 ^ 51 ||| fraction <<< 29
    F64.pack sign 0x7FF quiet
  else if exponent = 0 then
    if fraction = 0 then F64.pack sign 0 0
    else
      -- A subnormal is `fraction * 2 ^ (-149)`; its leading bit becomes implicit.
      let leading := Nat.log2 fraction
      F64.pack sign (leading + 874) (fraction <<< (52 - leading))
  else F64.pack sign (exponent + 896) (fraction <<< 29)

/-- Division by `2 ^ shift`, rounding to nearest with ties to even. -/
def roundShift (value shift : ℕ) : ℕ :=
  let quotient := value >>> shift
  let twice := 2 * (value % 2 ^ shift)
  if 2 ^ shift < twice ∨ (twice = 2 ^ shift ∧ quotient % 2 = 1) then quotient + 1
  else quotient

/-- `value as f32`: round to nearest even, overflow to infinity. -/
def F64.toF32 (value : F64) : F32 :=
  let sign := value.bits.extractLsb' 63 1
  let exponent := (value.bits.extractLsb' 52 11).toNat
  let fraction := (value.bits.extractLsb' 0 52).toNat
  let magnitude :=
    if exponent = 0x7FF then
      if fraction = 0 then 0x7F800000
      else 0x7F800000 ||| 2 ^ 22 ||| fraction >>> 29
    else
      let significand := if exponent = 0 then fraction else 2 ^ 52 + fraction
      -- The last place of the result: binary32 has none below `2 ^ (-149)`.
      let scale := max exponent 1 - 897
      let shift := scale + 926 - max exponent 1
      min (scale <<< 23 + roundShift significand shift) 0x7F800000
  ⟨sign ++ BitVec.ofNat 31 magnitude⟩

/-- The comparison behind Rust's `PartialEq` bound. -/
class PartialEq (T : Type) where
  eq : T → T → Bool

instance : PartialEq UInt8 := ⟨fun left right => left == right⟩
instance : PartialEq UInt16 := ⟨fun left right => left == right⟩
instance : PartialEq UInt32 := ⟨fun left right => left == right⟩
instance : PartialEq UInt64 := ⟨fun left right => left == right⟩
instance : PartialEq Int8 := ⟨fun left right => left == right⟩
instance : PartialEq Int16 := ⟨fun left right => left == right⟩
instance : PartialEq Int32 := ⟨fun left right => left == right⟩
instance : PartialEq Int64 := ⟨fun left right => left == right⟩

/-- NaN equals nothing and the two zeros are equal. -/
instance : PartialEq F32 := ⟨fun left right =>
  !left.isNaN && !right.isNaN &&
    (left.bits == right.bits || (left.isZero && right.isZero))⟩

instance : PartialEq F64 := ⟨fun left right =>
  !left.isNaN && !right.isNaN &&
    (left.bits == right.bits || (left.isZero && right.isZero))⟩

/-- A value that can be read from and written to process memory.  The last
field records that a decoded value keeps the bytes it was decoded from. -/
class MemValue (T : Type) where
  valType : ValType
  width : ℕ
  fromLeBytesSpine : List UInt8 → Option T
  toLeBytesBuf : T → List UInt8
  fixedWidth_valType : valType.fixedWidth = some width
  width_pos : 0 < width
  fromLeBytesSpine_isSome : ∀ bytes,
    (fromLeBytesSpine bytes).isSome = decide (width ≤ bytes.length)
  toLeBytesBuf_fromLeBytesSpine : ∀ bytes value,
    fromLeBytesSpine bytes = some value → toLeBytesBuf value = bytes.take width

/-- The numeric implementation shared by all ten types: decode the first
`width` bytes, encode all bits. -/
@[reducible]
def implMemValueNumeric {T : Type} (valType : ValType) (width : ℕ)
    (ofBits : BitVec (8 * width) → T) (toBits : T → BitVec (8 * width))
    (hwidth : valType.fixedWidth = some width) (hpos : 0 < width)
    (hbits : ∀ bits, toBits (ofBits bits) = bits) : MemValue T where
  valType := valType
  width := width
  fromLeBytesSpine bytes :=
    if bytes.length < width then none
    else some (ofBits (BitVec.ofNat _ (leValue (bytes.take width))))
  toLeBytesBuf value := leBytes width (toBits value).toNat
  fixedWidth_valType := hwidth
  width_pos := hpos
  fromLeBytesSpine_isSome bytes := by
    by_cases hshort : bytes.length < width
    · simp [hshort]
    · simp [hshort, Nat.not_lt.mp hshort]
  toLeBytesBuf_fromLeBytesSpine bytes value hvalue := by
    split at hvalue
    · contradiction
    · rename_i hlong
      cases hvalue
      have hlength : (bytes.take width).length = width := by
        rw [List.length_take]
        omega
      have hfits : leValue (bytes.take width) < 2 ^ (8 * width) := by
        have hlt := leValue_lt (bytes.take width)
        rw [hlength] at hlt
        rwa [Nat.pow_mul]
      rw [hbits, BitVec.toNat_ofNat, Nat.mod_eq_of_lt hfits]
      have hround := leBytes_leValue (bytes.take width)
      rwa [hlength] at hround

instance : MemValue UInt8 :=
  implMemValueNumeric .u8 1 UInt8.ofBitVec UInt8.toBitVec rfl (by decide) fun _ => rfl
instance : MemValue UInt16 :=
  implMemValueNumeric .u16 2 UInt16.ofBitVec UInt16.toBitVec rfl (by decide) fun _ => rfl
instance : MemValue UInt32 :=
  implMemValueNumeric .u32 4 UInt32.ofBitVec UInt32.toBitVec rfl (by decide) fun _ => rfl
instance : MemValue UInt64 :=
  implMemValueNumeric .u64 8 UInt64.ofBitVec UInt64.toBitVec rfl (by decide) fun _ => rfl
instance : MemValue Int8 :=
  implMemValueNumeric .i8 1 Int8.ofBitVec Int8.toBitVec rfl (by decide) fun _ => rfl
instance : MemValue Int16 :=
  implMemValueNumeric .i16 2 Int16.ofBitVec Int16.toBitVec rfl (by decide) fun _ => rfl
instance : MemValue Int32 :=
  implMemValueNumeric .i32 4 Int32.ofBitVec Int32.toBitVec rfl (by decide) fun _ => rfl
instance : MemValue Int64 :=
  implMemValueNumeric .i64 8 Int64.ofBitVec Int64.toBitVec rfl (by decide) fun _ => rfl
instance : MemValue F32 :=
  implMemValueNumeric .f32 4 F32.mk F32.bits rfl (by decide) fun _ => rfl
instance : MemValue F64 :=
  implMemValueNumeric .f64 8 F64.mk F64.bits rfl (by decide) fun _ => rfl

/-- The ten-arm match with which `host_write`, `host_write_if` and
`host_write_permanent` select the Rust type of a value; `other` is the common
arm of the two variable-length types. -/
def ValType.dispatch {α : Type*} (ty : ValType)
    (fixed : (T : Type) → [MemValue T] → [PartialEq T] → α) (other : α) : α :=
  match ty with
  | .u8 => fixed UInt8
  | .u16 => fixed UInt16
  | .u32 => fixed UInt32
  | .u64 => fixed UInt64
  | .i8 => fixed Int8
  | .i16 => fixed Int16
  | .i32 => fixed Int32
  | .i64 => fixed Int64
  | .f32 => fixed F32
  | .f64 => fixed F64
  | .bytes | .cstr => other

end FrogAgent.TypedValue
