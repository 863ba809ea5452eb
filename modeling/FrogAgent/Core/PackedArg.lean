import FrogAgent.Core.TypedValue

/-!
# Packed arguments

`Value` of `mem_value.rs` and `InvokeArg` of `spine/invoke_arg.rs`: the values a
script exchanges with `il2cpp.invoke` and the hook host functions, with their
wire form `[tag, payload ...]`.
-/

namespace FrogAgent.PackedArg

open FrogAgent.LittleEndian
open FrogAgent.TypedValue

inductive Value where
  | u8 (value : UInt8)
  | u16 (value : UInt16)
  | u32 (value : UInt32)
  | u64 (value : UInt64)
  | i8 (value : Int8)
  | i16 (value : Int16)
  | i32 (value : Int32)
  | i64 (value : Int64)
  | f32 (value : F32)
  | f64 (value : F64)
  | bytes (value : List UInt8)
  | cstr (value : String)
  deriving DecidableEq

def Value.valType : Value → ValType
  | .u8 _ => .u8 | .u16 _ => .u16 | .u32 _ => .u32 | .u64 _ => .u64
  | .i8 _ => .i8 | .i16 _ => .i16 | .i32 _ => .i32 | .i64 _ => .i64
  | .f32 _ => .f32 | .f64 _ => .f64
  | .bytes _ => .bytes | .cstr _ => .cstr

def Value.encode : Value → List UInt8
  | .u8 value => MemValue.toLeBytesBuf value
  | .u16 value => MemValue.toLeBytesBuf value
  | .u32 value => MemValue.toLeBytesBuf value
  | .u64 value => MemValue.toLeBytesBuf value
  | .i8 value => MemValue.toLeBytesBuf value
  | .i16 value => MemValue.toLeBytesBuf value
  | .i32 value => MemValue.toLeBytesBuf value
  | .i64 value => MemValue.toLeBytesBuf value
  | .f32 value => MemValue.toLeBytesBuf value
  | .f64 value => MemValue.toLeBytesBuf value
  | .bytes value => value
  | .cstr value => value.toUTF8.toList

/-- The character `String::from_utf8_lossy` reads at the front of a non-empty
buffer, with its length; an ill-formed prefix becomes one replacement
character. -/
def lossyChar (first : UInt8) (rest : List UInt8) : ℕ × Char :=
  let replacement := Char.ofNat 0xFFFD
  let lead := first.toNat
  let next := fun idx => (rest.getD idx 0).toNat
  let tail := fun idx => next idx - 0x80
  let continues := fun idx => 0x80 ≤ next idx ∧ next idx ≤ 0xBF
  if lead < 0x80 then (1, Char.ofNat lead)
  else if 0xC2 ≤ lead ∧ lead ≤ 0xDF then
    if continues 0 then (2, Char.ofNat ((lead - 0xC0) * 64 + tail 0))
    else (1, replacement)
  else if 0xE0 ≤ lead ∧ lead ≤ 0xEF then
    -- Overlong forms and surrogates are ill-formed from the second byte on.
    let low := if lead = 0xE0 then 0xA0 else 0x80
    let high := if lead = 0xED then 0x9F else 0xBF
    if ¬ (low ≤ next 0 ∧ next 0 ≤ high) then (1, replacement)
    else if ¬ continues 1 then (2, replacement)
    else (3, Char.ofNat (((lead - 0xE0) * 64 + tail 0) * 64 + tail 1))
  else if 0xF0 ≤ lead ∧ lead ≤ 0xF4 then
    let low := if lead = 0xF0 then 0x90 else 0x80
    let high := if lead = 0xF4 then 0x8F else 0xBF
    if ¬ (low ≤ next 0 ∧ next 0 ≤ high) then (1, replacement)
    else if ¬ continues 1 then (2, replacement)
    else if ¬ continues 2 then (3, replacement)
    else
      (4, Char.ofNat
        ((((lead - 0xF0) * 64 + tail 0) * 64 + tail 1) * 64 + tail 2))
  else (1, replacement)

/-- Every character takes at least one byte, so `fuel` bytes need `fuel` steps. -/
def lossyChars : ℕ → List UInt8 → List Char
  | 0, _ | _, [] => []
  | fuel + 1, first :: rest =>
      let (length, char) := lossyChar first rest
      char :: lossyChars fuel (rest.drop (length - 1))

def fromUtf8Lossy (bytes : List UInt8) : String :=
  String.ofList (lossyChars bytes.length bytes)

def Value.decode (ty : ValType) (bytes : List UInt8) : Option Value :=
  if ty.fixedWidth.any fun width => bytes.length ≠ width then none
  else
    match ty with
    | .u8 => (MemValue.fromLeBytesSpine bytes).map .u8
    | .u16 => (MemValue.fromLeBytesSpine bytes).map .u16
    | .u32 => (MemValue.fromLeBytesSpine bytes).map .u32
    | .u64 => (MemValue.fromLeBytesSpine bytes).map .u64
    | .i8 => (MemValue.fromLeBytesSpine bytes).map .i8
    | .i16 => (MemValue.fromLeBytesSpine bytes).map .i16
    | .i32 => (MemValue.fromLeBytesSpine bytes).map .i32
    | .i64 => (MemValue.fromLeBytesSpine bytes).map .i64
    | .f32 => (MemValue.fromLeBytesSpine bytes).map .f32
    | .f64 => (MemValue.fromLeBytesSpine bytes).map .f64
    | .bytes => some (.bytes bytes)
    | .cstr => some (.cstr (fromUtf8Lossy (bytes.takeWhile (· ≠ 0))))

inductive InvokeArg where
  | prim (value : Value)
  | instance (handle : UInt64)
  | string (text : String)
  | struct (bytes : List UInt8)
  | array (elems : List InvokeArg)
  | null

namespace Tag

def «instance» : UInt8 := 12
def string : UInt8 := 13
def struct : UInt8 := 14
def array : UInt8 := 15
def null : UInt8 := 16

end Tag

/-- A length prefix, `(len as u32).to_le_bytes()`. -/
def lengthPrefix (length : ℕ) : List UInt8 := leBytes 4 length

mutual

def InvokeArg.encode : InvokeArg → List UInt8
  | .prim value => value.valType.tag :: value.encode
  | .instance handle => Tag.instance :: MemValue.toLeBytesBuf handle
  | .string text =>
      Tag.string :: (lengthPrefix text.toUTF8.size ++ text.toUTF8.toList)
  | .struct bytes => Tag.struct :: (lengthPrefix bytes.length ++ bytes)
  | .array elems => Tag.array :: (lengthPrefix elems.length ++ encodeElems elems)
  | .null => [Tag.null]

def encodeElems : List InvokeArg → List UInt8
  | [] => []
  | elem :: elems => elem.encode ++ encodeElems elems

end

/-- The element loop of an array: `consumed` bytes of the buffer are used up. -/
def decodeElems (decode : List UInt8 → Option (InvokeArg × ℕ))
    (bytes : List UInt8) : ℕ → ℕ → Option (List InvokeArg × ℕ)
  | 0, consumed => some ([], consumed)
  | count + 1, consumed => do
      let (elem, length) ← decode (bytes.drop consumed)
      let (elems, total) ← decodeElems decode bytes count (consumed + length)
      return (elem :: elems, total)

/-- The payload length behind a tag byte, if the buffer holds the prefix. -/
def readLength (bytes : List UInt8) : Option ℕ :=
  if bytes.length < 5 then none
  else some (leValue ((bytes.drop 1).take 4))

/-- An element starts at least five bytes into its array, so nesting uses up the
buffer and `fuel` bytes need no deeper recursion. -/
def decodeWithin : ℕ → List UInt8 → Option (InvokeArg × ℕ)
  | 0, _ | _, [] => none
  | fuel + 1, bytes@(tag :: payload) =>
      match ValType.fromTag tag with
      | some ty => do
          let width ← ty.fixedWidth
          if bytes.length < 1 + width then none
          else
            let value ← Value.decode ty (payload.take width)
            return (.prim value, 1 + width)
      | none =>
          if tag = Tag.instance then
            if bytes.length < 9 then none
            else (MemValue.fromLeBytesSpine (payload.take 8)).map fun handle =>
              (.instance handle, 9)
          else if tag = Tag.string then do
            let length ← readLength bytes
            if bytes.length < 5 + length then none
            else
              let text ← String.fromUTF8?
                ((bytes.drop 5).take length).toByteArray
              return (.string text, 5 + length)
          else if tag = Tag.struct then do
            let length ← readLength bytes
            if bytes.length < 5 + length then none
            else return (.struct ((bytes.drop 5).take length), 5 + length)
          else if tag = Tag.array then do
            let count ← readLength bytes
            let (elems, consumed) ← decodeElems (decodeWithin fuel) bytes count 5
            return (.array elems, consumed)
          else if tag = Tag.null then some (.null, 1)
          else none

def InvokeArg.decode (bytes : List UInt8) : Option (InvokeArg × ℕ) :=
  decodeWithin bytes.length bytes

end FrogAgent.PackedArg
