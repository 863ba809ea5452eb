import FrogAgent.Core.PackedArg
import FrogAgent.Lib.Text

/-!
# The packed-argument codec

What `InvokeArg::decode` accepts is the encoding of the value it returns, and it
returns every value that fits the length fields and whose primitives have a
fixed width, whatever bytes follow.  A `Bytes` or `Cstr` primitive is written
without the length its reader would need.
-/

namespace FrogAgent.PackedArg

open FrogAgent.LittleEndian
open FrogAgent.TypedValue

/-- The value's encoding has the width its tag announces. -/
def Value.framed (value : Value) : Bool := value.valType.fixedWidth.isSome

mutual

/-- No variable-length primitive at any depth. -/
def InvokeArg.framed : InvokeArg → Bool
  | .prim value => value.framed
  | .instance _ | .string _ | .struct _ | .null => true
  | .array elems => framedElems elems

def framedElems : List InvokeArg → Bool
  | [] => true
  | elem :: elems => elem.framed && framedElems elems

end

def fitsU32 (length : ℕ) : Bool := length < 2 ^ 32

mutual

/-- Every length and every element count is below `2 ^ 32`. -/
def InvokeArg.fits : InvokeArg → Bool
  | .prim value => fitsU32 value.encode.length
  | .instance _ | .null => true
  | .string text => fitsU32 text.toUTF8.size
  | .struct bytes => fitsU32 bytes.length
  | .array elems => fitsU32 elems.length && fitsElems elems

def fitsElems : List InvokeArg → Bool
  | [] => true
  | elem :: elems => elem.fits && fitsElems elems

end

theorem tag_of_fromTag {tag : UInt8} {ty : ValType}
    (hty : ValType.fromTag tag = some ty) : ty.tag = tag := by
  apply UInt8.toNat_inj.mp
  simp only [ValType.fromTag] at hty
  split at hty
  all_goals first | contradiction | (cases hty; simp_all [ValType.tag])

theorem fromTag_tag (ty : ValType) : ValType.fromTag ty.tag = some ty := by
  cases ty <;> rfl

/-- A numeric type whose values are no more than their bits reads back what it
wrote. -/
theorem fromLe_toLe {T : Type} {ty : ValType} {width : ℕ}
    {ofBits : BitVec (8 * width) → T} {toBits : T → BitVec (8 * width)}
    {hwidth : ty.fixedWidth = some width} {hpos : 0 < width}
    (hbits : ∀ bits, toBits (ofBits bits) = bits)
    (hvalues : ∀ value, ofBits (toBits value) = value) (value : T) :
    let numeric := implMemValueNumeric ty width ofBits toBits hwidth hpos hbits
    numeric.fromLeBytesSpine (numeric.toLeBytesBuf value) = some value := by
  have hlt : (toBits value).toNat < 256 ^ width := by
    have hbound := (toBits value).isLt
    rwa [Nat.pow_mul] at hbound
  change (if (leBytes width (toBits value).toNat).length < width then none
    else some (ofBits (BitVec.ofNat _
      (leValue ((leBytes width (toBits value).toNat).take width))))) = some value
  rw [length_leBytes, if_neg (Nat.lt_irrefl _), List.take_of_length_le (by simp),
    leValue_leBytes hlt, BitVec.ofNat_toNat, BitVec.setWidth_eq, hvalues]

theorem Value.length_encode {value : Value} {width : ℕ}
    (hwidth : value.valType.fixedWidth = some width) :
    value.encode.length = width := by
  cases value
  all_goals first | contradiction | skip
  all_goals
    cases hwidth
    exact length_leBytes _ _

theorem Value.decode_encode {value : Value} {width : ℕ}
    (hwidth : value.valType.fixedWidth = some width) :
    Value.decode value.valType value.encode = some value := by
  have hlength := Value.length_encode hwidth
  rw [Value.decode.eq_def, hwidth, if_neg (by simp [hlength])]
  cases value
  all_goals first | contradiction | skip
  all_goals
    exact congrArg (Option.map _) (fromLe_toLe (fun _ => rfl) (fun _ => rfl) _)

/-- Decoding a fixed-width type keeps the bytes. -/
theorem Value.encode_of_decode {ty : ValType} {bytes : List UInt8} {value : Value}
    {width : ℕ} (hwidth : ty.fixedWidth = some width)
    (hvalue : Value.decode ty bytes = some value) :
    value.valType = ty ∧ value.encode = bytes := by
  rw [Value.decode.eq_def, hwidth] at hvalue
  split at hvalue
  · contradiction
  · rename_i hlength
    have hlength : bytes.length = width := by simpa using hlength
    cases ty
    all_goals first | contradiction | skip
    all_goals
      cases hwidth
      obtain ⟨number, hnumber, rfl⟩ := Option.map_eq_some_iff.mp hvalue
      have hbytes := MemValue.toLeBytesBuf_fromLeBytesSpine _ _ hnumber
      exact ⟨rfl, hbytes.trans (List.take_of_length_le (Nat.le_of_eq hlength))⟩

theorem readLength_lengthPrefix {length : ℕ} (hfits : fitsU32 length = true)
    (tag : UInt8) (rest : List UInt8) :
    readLength (tag :: (lengthPrefix length ++ rest)) = some length := by
  have hwidth : (lengthPrefix length).length = 4 := length_leBytes 4 length
  have hlong : ¬ (tag :: (lengthPrefix length ++ rest)).length < 5 := by
    simp only [List.length_cons, List.length_append, hwidth]
    omega
  have hlt : length < 256 ^ 4 := by
    simpa [fitsU32] using hfits
  rw [readLength, if_neg hlong, List.drop_one, List.tail_cons,
    List.take_left' hwidth, lengthPrefix, leValue_leBytes hlt]

theorem readLength_eq_some {bytes : List UInt8} {length : ℕ}
    (hlength : readLength bytes = some length) :
    5 ≤ bytes.length ∧ fitsU32 length = true ∧
      lengthPrefix length = (bytes.drop 1).take 4 := by
  simp only [readLength] at hlength
  split at hlength
  · contradiction
  · rename_i hlong
    cases hlength
    have hfour : ((bytes.drop 1).take 4).length = 4 := by
      rw [List.length_take, List.length_drop]
      omega
    have hlt := leValue_lt ((bytes.drop 1).take 4)
    have hround := leBytes_leValue ((bytes.drop 1).take 4)
    rw [hfour] at hlt hround
    exact ⟨Nat.not_lt.mp hlong, by simpa [fitsU32] using hlt, hround⟩

/-- Tag and length prefix are the first five bytes of the buffer. -/
theorem take_of_readLength {tag : UInt8} {payload : List UInt8} {length : ℕ}
    (hlength : readLength (tag :: payload) = some length) (count : ℕ) :
    tag :: (lengthPrefix length ++ ((tag :: payload).drop 5).take count) =
      (tag :: payload).take (5 + count) := by
  have hfour : lengthPrefix length = payload.take 4 :=
    (readLength_eq_some hlength).2.2
  rw [hfour, List.take_add]
  rfl

/-- What an answer of the decoder promises: `length` bytes of the buffer are the
encoding of `arg`, and `arg` is a value the wire format can carry. -/
structure Canonical (bytes : List UInt8) (arg : InvokeArg) (length : ℕ) : Prop where
  pos : 1 ≤ length
  le_length : length ≤ bytes.length
  encode_eq : arg.encode = bytes.take length
  fits : arg.fits = true
  framed : arg.framed = true

/-- The same for the element loop, which has used up `consumed` bytes before. -/
structure CanonicalElems (bytes : List UInt8) (consumed : ℕ)
    (elems : List InvokeArg) (total : ℕ) : Prop where
  consumed_le : consumed ≤ total
  le_length : total ≤ bytes.length
  encode_eq : encodeElems elems = (bytes.drop consumed).take (total - consumed)
  fits : fitsElems elems = true
  framed : framedElems elems = true

theorem decodeElems_canonical {decode : List UInt8 → Option (InvokeArg × ℕ)}
    (hdecode : ∀ bytes arg length, decode bytes = some (arg, length) →
      Canonical bytes arg length)
    {bytes : List UInt8} {count consumed total : ℕ} {elems : List InvokeArg}
    (hconsumed : consumed ≤ bytes.length)
    (helems : decodeElems decode bytes count consumed = some (elems, total)) :
    elems.length = count ∧ CanonicalElems bytes consumed elems total := by
  induction count generalizing consumed elems with
  | zero =>
      cases helems
      exact ⟨rfl, Nat.le_refl _, hconsumed, by simp [encodeElems], rfl, rfl⟩
  | succ count ih =>
      simp only [decodeElems, Option.bind_eq_bind, Option.bind_eq_some_iff,
        Option.pure_def, Option.some.injEq, Prod.mk.injEq, Prod.exists] at helems
      obtain ⟨elem, length, helem, rest, total', hrest, rfl, rfl⟩ := helems
      have hfirst := hdecode _ _ _ helem
      have hlength := hfirst.le_length
      rw [List.length_drop] at hlength
      obtain ⟨hcount, hrest⟩ := ih (by omega) hrest
      refine ⟨congrArg (· + 1) hcount, ?_, hrest.le_length, ?_, ?_, ?_⟩
      · exact Nat.le_trans (Nat.le_add_right _ _) hrest.consumed_le
      · have hsplit : total' - consumed = length + (total' - (consumed + length)) := by
          have hle := hrest.consumed_le
          omega
        rw [encodeElems, hfirst.encode_eq, hrest.encode_eq, hsplit, List.take_add,
          List.drop_drop]
      · rw [fitsElems, hfirst.fits, hrest.fits]
        rfl
      · rw [framedElems, hfirst.framed, hrest.framed]
        rfl

theorem canonical_prim {ty : ValType} {tag : UInt8} {payload : List UInt8}
    {width : ℕ} {value : Value} (hty : ValType.fromTag tag = some ty)
    (hwidth : ty.fixedWidth = some width)
    (hlong : ¬ (tag :: payload).length < 1 + width)
    (hvalue : Value.decode ty (payload.take width) = some value) :
    Canonical (tag :: payload) (.prim value) (1 + width) := by
  obtain ⟨hvalType, hencode⟩ := Value.encode_of_decode hwidth hvalue
  have hsmall : width ≤ 8 := by
    cases ty <;> cases hwidth <;> decide
  refine ⟨Nat.le_add_right _ _, Nat.not_lt.mp hlong, ?_, ?_, ?_⟩
  · rw [InvokeArg.encode, hvalType, tag_of_fromTag hty, hencode, Nat.add_comm 1,
      List.take_succ_cons]
  · simp only [InvokeArg.fits, fitsU32, decide_eq_true_eq, hencode, List.length_take]
    omega
  · rw [InvokeArg.framed, Value.framed, hvalType, hwidth]
    rfl

theorem canonical_instance {payload : List UInt8} {handle : UInt64}
    (hlong : ¬ (Tag.instance :: payload).length < 9)
    (hhandle : MemValue.fromLeBytesSpine (payload.take 8) = some handle) :
    Canonical (Tag.instance :: payload) (.instance handle) 9 := by
  refine ⟨by decide, Nat.not_lt.mp hlong, ?_, rfl, rfl⟩
  have hbytes := MemValue.toLeBytesBuf_fromLeBytesSpine _ _ hhandle
  rw [InvokeArg.encode, hbytes, List.take_succ_cons, List.take_take]
  rfl

theorem canonical_string {payload : List UInt8} {length : ℕ} {text : String}
    (hlength : readLength (Tag.string :: payload) = some length)
    (hlong : ¬ (Tag.string :: payload).length < 5 + length)
    (htext : String.fromUTF8?
      (((Tag.string :: payload).drop 5).take length).toByteArray = some text) :
    Canonical (Tag.string :: payload) (.string text) (5 + length) := by
  have hutf8 := Text.utf8_of_fromUTF8 htext
  have hsize : text.toUTF8.size = length := by
    rw [← Text.length_toList, hutf8, List.length_take, List.length_drop]
    omega
  refine ⟨by omega, Nat.not_lt.mp hlong, ?_, ?_, rfl⟩
  · rw [InvokeArg.encode, hsize, hutf8]
    exact take_of_readLength hlength length
  · rw [InvokeArg.fits, hsize]
    exact (readLength_eq_some hlength).2.1

theorem canonical_struct {payload : List UInt8} {length : ℕ}
    (hlength : readLength (Tag.struct :: payload) = some length)
    (hlong : ¬ (Tag.struct :: payload).length < 5 + length) :
    Canonical (Tag.struct :: payload)
      (.struct (((Tag.struct :: payload).drop 5).take length)) (5 + length) := by
  have hsize : (((Tag.struct :: payload).drop 5).take length).length = length := by
    rw [List.length_take, List.length_drop]
    omega
  refine ⟨by omega, Nat.not_lt.mp hlong, ?_, ?_, rfl⟩
  · rw [InvokeArg.encode, hsize]
    exact take_of_readLength hlength length
  · rw [InvokeArg.fits, hsize]
    exact (readLength_eq_some hlength).2.1

theorem canonical_array {payload : List UInt8} {count total : ℕ}
    {elems : List InvokeArg}
    (hcount : readLength (Tag.array :: payload) = some count)
    (hsize : elems.length = count)
    (helems : CanonicalElems (Tag.array :: payload) 5 elems total) :
    Canonical (Tag.array :: payload) (.array elems) total := by
  have htotal := helems.consumed_le
  refine ⟨by omega, helems.le_length, ?_, ?_, helems.framed⟩
  · rw [InvokeArg.encode, hsize, helems.encode_eq, take_of_readLength hcount]
    congr 1
    omega
  · rw [InvokeArg.fits, hsize, (readLength_eq_some hcount).2.1, helems.fits]
    rfl

theorem decodeWithin_canonical {fuel : ℕ} {bytes : List UInt8} {arg : InvokeArg}
    {length : ℕ} (harg : decodeWithin fuel bytes = some (arg, length)) :
    Canonical bytes arg length := by
  induction fuel generalizing bytes arg length with
  | zero => simp [decodeWithin] at harg
  | succ fuel ih =>
      cases bytes with
      | nil => simp [decodeWithin] at harg
      | cons tag payload =>
          simp only [decodeWithin] at harg
          split at harg
          · rename_i ty hty
            simp only [Option.bind_eq_bind, Option.bind_eq_some_iff] at harg
            obtain ⟨width, hwidth, harg⟩ := harg
            split at harg
            · contradiction
            · rename_i hlong
              obtain ⟨value, hvalue, harg⟩ := Option.bind_eq_some_iff.mp harg
              cases harg
              exact canonical_prim hty hwidth hlong hvalue
          · split_ifs at harg with hinstance hshort hstring hstruct harray hnull
            · obtain ⟨handle, hhandle, heq⟩ := Option.map_eq_some_iff.mp harg
              cases heq
              cases hinstance
              exact canonical_instance hshort hhandle
            · cases hstring
              simp only [Option.bind_eq_bind, Option.bind_eq_some_iff] at harg
              obtain ⟨size, hsize, harg⟩ := harg
              split at harg
              · contradiction
              · rename_i hlong
                obtain ⟨text, htext, harg⟩ := Option.bind_eq_some_iff.mp harg
                cases harg
                exact canonical_string hsize hlong htext
            · cases hstruct
              simp only [Option.bind_eq_bind, Option.bind_eq_some_iff] at harg
              obtain ⟨size, hsize, harg⟩ := harg
              split at harg
              · contradiction
              · rename_i hlong
                cases harg
                exact canonical_struct hsize hlong
            · cases harray
              simp only [Option.bind_eq_bind, Option.bind_eq_some_iff] at harg
              obtain ⟨count, hcount, ⟨elems, total⟩, helems, harg⟩ := harg
              cases harg
              have hfive := (readLength_eq_some hcount).1
              obtain ⟨hsize, helems⟩ :=
                decodeElems_canonical (fun _ _ _ => ih) hfive helems
              exact canonical_array hcount hsize helems
            · cases hnull
              cases harg
              exact ⟨Nat.le_refl _, by simp, rfl, rfl, rfl⟩

theorem decodeWithin_prim (value : Value) (fuel : ℕ) (tail : List UInt8) :
    decodeWithin (fuel + 1) (value.valType.tag :: (value.encode ++ tail)) =
      bif value.framed then some (.prim value, 1 + value.encode.length) else none := by
  cases hwidth : value.valType.fixedWidth with
  | none => simp [decodeWithin, fromTag_tag, Value.framed, hwidth]
  | some width =>
      have hlength := Value.length_encode hwidth
      have hlong : ¬ (value.valType.tag :: (value.encode ++ tail)).length < 1 + width := by
        simp only [List.length_cons, List.length_append, hlength]
        omega
      simp only [decodeWithin, fromTag_tag, Value.framed, hwidth, Option.bind_eq_bind,
        Option.bind_some, if_neg hlong, List.take_left' hlength,
        Value.decode_encode hwidth, hlength]
      rfl

theorem decodeWithin_instance (handle : UInt64) (fuel : ℕ) (tail : List UInt8) :
    decodeWithin (fuel + 1)
      (Tag.instance :: (MemValue.toLeBytesBuf handle ++ tail)) =
        some (.instance handle, 9) := by
  have hlength : (MemValue.toLeBytesBuf handle).length = 8 := length_leBytes _ _
  have hlong : ¬ (Tag.instance :: (MemValue.toLeBytesBuf handle ++ tail)).length < 9 := by
    simp only [List.length_cons, List.length_append, hlength]
    omega
  have hread : MemValue.fromLeBytesSpine (MemValue.toLeBytesBuf handle) = some handle :=
    fromLe_toLe (fun _ => rfl) (fun _ => rfl) handle
  simp only [decodeWithin, if_neg hlong, List.take_left' hlength, hread]
  rfl

theorem decodeWithin_string {text : String} (hfits : fitsU32 text.toUTF8.size = true)
    (fuel : ℕ) (tail : List UInt8) :
    decodeWithin (fuel + 1) (Tag.string ::
      (lengthPrefix text.toUTF8.size ++ (text.toUTF8.toList ++ tail))) =
        some (.string text, 5 + text.toUTF8.size) := by
  have hfour : (lengthPrefix text.toUTF8.size).length = 4 := length_leBytes _ _
  have hsize := Text.length_toList text.toUTF8
  have hlong : ¬ (Tag.string :: (lengthPrefix text.toUTF8.size ++
      (text.toUTF8.toList ++ tail))).length < 5 + text.toUTF8.size := by
    simp only [List.length_cons, List.length_append, hfour, hsize]
    omega
  have hdrop : (Tag.string :: (lengthPrefix text.toUTF8.size ++
      (text.toUTF8.toList ++ tail))).drop 5 = text.toUTF8.toList ++ tail := by
    rw [List.drop_succ_cons, List.drop_left' hfour]
  simp only [decodeWithin, readLength_lengthPrefix hfits, Option.bind_eq_bind,
    Option.bind_some, if_neg hlong, hdrop, List.take_left' hsize, Text.fromUTF8_utf8]
  rfl

theorem decodeWithin_struct {bytes : List UInt8} (hfits : fitsU32 bytes.length = true)
    (fuel : ℕ) (tail : List UInt8) :
    decodeWithin (fuel + 1)
      (Tag.struct :: (lengthPrefix bytes.length ++ (bytes ++ tail))) =
        some (.struct bytes, 5 + bytes.length) := by
  have hfour : (lengthPrefix bytes.length).length = 4 := length_leBytes _ _
  have hlong : ¬ (Tag.struct ::
      (lengthPrefix bytes.length ++ (bytes ++ tail))).length < 5 + bytes.length := by
    simp only [List.length_cons, List.length_append, hfour]
    omega
  have hdrop : (Tag.struct :: (lengthPrefix bytes.length ++ (bytes ++ tail))).drop 5 =
      bytes ++ tail := by
    rw [List.drop_succ_cons, List.drop_left' hfour]
  simp only [decodeWithin, readLength_lengthPrefix hfits, Option.bind_eq_bind,
    Option.bind_some, if_neg hlong, hdrop, List.take_left' rfl]
  rfl

theorem decodeWithin_array {count : ℕ} (hfits : fitsU32 count = true) (fuel : ℕ)
    (rest : List UInt8) :
    decodeWithin (fuel + 1) (Tag.array :: (lengthPrefix count ++ rest)) =
      (decodeElems (decodeWithin fuel) (Tag.array :: (lengthPrefix count ++ rest))
        count 5).map fun result => (.array result.1, result.2) := by
  simp only [decodeWithin, readLength_lengthPrefix hfits, Option.bind_eq_bind,
    Option.bind_some]
  cases decodeElems (decodeWithin fuel) (Tag.array :: (lengthPrefix count ++ rest))
    count 5 with
  | none => rfl
  | some result => rfl

mutual

/-- The decoder undoes the encoder exactly on the values without variable-length
primitives, whatever follows them; on the others it answers `None`. -/
theorem decodeWithin_encode (arg : InvokeArg) (hfits : arg.fits = true) (fuel : ℕ)
    (tail : List UInt8) (hfuel : (arg.encode ++ tail).length ≤ fuel) :
    decodeWithin fuel (arg.encode ++ tail) =
      bif arg.framed then some (arg, arg.encode.length) else none := by
  cases fuel with
  | zero => cases arg <;> simp [InvokeArg.encode] at hfuel
  | succ fuel =>
      cases arg with
      | prim value =>
          simp only [InvokeArg.encode, InvokeArg.framed, List.cons_append]
          rw [decodeWithin_prim, List.length_cons, Nat.add_comm]
      | «instance» handle =>
          simp only [InvokeArg.encode, InvokeArg.framed, List.cons_append]
          exact decodeWithin_instance handle fuel tail
      | string text =>
          simp only [InvokeArg.encode, InvokeArg.framed, List.cons_append,
            List.append_assoc]
          rw [decodeWithin_string hfits]
          simp [lengthPrefix, Text.length_toList]
          omega
      | struct bytes =>
          simp only [InvokeArg.encode, InvokeArg.framed, List.cons_append,
            List.append_assoc]
          rw [decodeWithin_struct hfits]
          simp [lengthPrefix]
          omega
      | null => rfl
      | array elems =>
          simp only [InvokeArg.fits, Bool.and_eq_true] at hfits
          simp only [InvokeArg.encode, List.length_append, List.length_cons] at hfuel
          have helems := decodeElems_encode elems hfits.2 fuel
            (Tag.array :: lengthPrefix elems.length) tail (by
              rw [List.length_append]
              omega)
          simp only [InvokeArg.encode, InvokeArg.framed, List.cons_append,
            List.append_assoc] at helems ⊢
          have hfive : (Tag.array :: lengthPrefix elems.length).length = 5 :=
            congrArg (· + 1) (length_leBytes _ _)
          rw [hfive] at helems
          rw [decodeWithin_array hfits.1, helems]
          cases framedElems elems with
          | false => rfl
          | true =>
              simp [lengthPrefix]
              omega

theorem decodeElems_encode (elems : List InvokeArg) (hfits : fitsElems elems = true)
    (fuel : ℕ) (front tail : List UInt8)
    (hfuel : (encodeElems elems ++ tail).length ≤ fuel) :
    decodeElems (decodeWithin fuel) (front ++ (encodeElems elems ++ tail))
        elems.length front.length =
      bif framedElems elems then
        some (elems, front.length + (encodeElems elems).length)
      else none := by
  cases elems with
  | nil => simp [decodeElems, framedElems, encodeElems]
  | cons elem elems =>
      simp only [fitsElems, Bool.and_eq_true] at hfits
      simp only [encodeElems, List.append_assoc] at hfuel ⊢
      have hfirst := decodeWithin_encode elem hfits.1 fuel
        (encodeElems elems ++ tail) hfuel
      have hrest := decodeElems_encode elems hfits.2 fuel (front ++ elem.encode) tail (by
        rw [List.length_append] at hfuel
        omega)
      simp only [List.append_assoc, List.length_append] at hrest
      simp only [List.length_cons, decodeElems, List.drop_left' rfl, hfirst,
        framedElems]
      cases elem.framed with
      | false => rfl
      | true =>
          simp only [cond_true, Option.bind_eq_bind, Option.bind_some, hrest]
          cases framedElems elems with
          | false => rfl
          | true => simp [Nat.add_assoc]

end

theorem decode_canonical {bytes : List UInt8} {arg : InvokeArg} {length : ℕ}
    (harg : InvokeArg.decode bytes = some (arg, length)) :
    Canonical bytes arg length :=
  decodeWithin_canonical harg

theorem decode_encode (arg : InvokeArg) (hfits : arg.fits = true)
    (tail : List UInt8) :
    InvokeArg.decode (arg.encode ++ tail) =
      bif arg.framed then some (arg, arg.encode.length) else none :=
  decodeWithin_encode arg hfits _ tail (Nat.le_refl _)

/-- The bytes behind an accepted value do not influence the answer. -/
theorem decode_append {bytes : List UInt8} {arg : InvokeArg} {length : ℕ}
    (harg : InvokeArg.decode bytes = some (arg, length)) (tail : List UInt8) :
    InvokeArg.decode (bytes ++ tail) = some (arg, length) := by
  have hcanonical := decode_canonical harg
  have hlength : arg.encode.length = length := by
    rw [hcanonical.encode_eq, List.length_take, Nat.min_eq_left hcanonical.le_length]
  calc InvokeArg.decode (bytes ++ tail)
      = InvokeArg.decode (arg.encode ++ (bytes.drop length ++ tail)) := by
        rw [hcanonical.encode_eq, ← List.append_assoc, List.take_append_drop]
    _ = some (arg, arg.encode.length) := by
        rw [decode_encode arg hcanonical.fits, hcanonical.framed, cond_true]
    _ = some (arg, length) := by rw [hlength]

/-- Decoding undoes encoding exactly when no `Bytes` or `Cstr` primitive occurs
in the value: these two are written without a length and are never read back. -/
theorem decode_encode_iff_framed (arg : InvokeArg) (hfits : arg.fits = true) :
    (∀ tail, InvokeArg.decode (arg.encode ++ tail) =
      some (arg, arg.encode.length)) ↔ arg.framed = true := by
  simp only [decode_encode arg hfits]
  cases arg.framed with
  | true => simp
  | false => simp

theorem decode_encode_array :
    InvokeArg.decode ((InvokeArg.array [.null, .struct [7]]).encode ++ [13]) =
      some (.array [.null, .struct [7]], 12) :=
  (decode_encode_iff_framed (.array [.null, .struct [7]]) (by decide)).mpr
    (by decide) [13]

theorem not_decode_encode_bytes :
    ¬ ∀ arg : InvokeArg, arg.fits = true → ∀ tail,
      InvokeArg.decode (arg.encode ++ tail) = some (arg, arg.encode.length) := by
  intro hround
  have hbytes := hround (.prim (.bytes [7])) (by decide) []
  have hnone : InvokeArg.decode
      ((InvokeArg.prim (.bytes [7])).encode ++ []) = none := rfl
  rw [hnone] at hbytes
  contradiction

end FrogAgent.PackedArg
