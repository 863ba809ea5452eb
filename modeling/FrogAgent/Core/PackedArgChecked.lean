import FrogAgent.Core.Error
import FrogAgent.Core.PackedArgCodec
import FrogAgent.Lib.Slice
import Mathlib.Tactic.IntervalCases

/-!
# Packed arguments from the guest

`InvokeArg::decode` as the source writes it, with every index and slice checked,
and the argument loop of `host_invoke` over a buffer the guest controls.  No
buffer makes either of them panic.
-/

namespace FrogAgent.PackedArg

open FrogAgent.Error
open FrogAgent.LittleEndian
open FrogAgent.Slice
open FrogAgent.TypedValue

/-- `T::from_le_bytes` of bytes already taken from the buffer. -/
def readLe (T : Type) [MemValue T] (front : Checked (List UInt8)) : Checked T := do
  let bytes ← front
  lift (MemValue.fromLeBytesSpine bytes)

/-- `[bytes[0]]` -/
def firstByte (bytes : List UInt8) : Checked (List UInt8) := do
  let byte ← index bytes 0
  return [byte]

/-- `[bytes[0], bytes[1]]` -/
def firstTwo (bytes : List UInt8) : Checked (List UInt8) := do
  let low ← index bytes 0
  let high ← index bytes 1
  return [low, high]

def Value.decodeChecked (ty : ValType) (bytes : List UInt8) : Checked Value :=
  if ty.fixedWidth.any fun width => bytes.length ≠ width then failure
  else
    match ty with
    | .u8 => return .u8 (← readLe UInt8 (firstByte bytes))
    | .i8 => return .i8 (← readLe Int8 (firstByte bytes))
    | .u16 => return .u16 (← readLe UInt16 (firstTwo bytes))
    | .i16 => return .i16 (← readLe Int16 (firstTwo bytes))
    | .u32 => return .u32 (← readLe UInt32 (range bytes 0 4))
    | .i32 => return .i32 (← readLe Int32 (range bytes 0 4))
    | .f32 => return .f32 (← readLe F32 (range bytes 0 4))
    | .u64 => return .u64 (← readLe UInt64 (range bytes 0 8))
    | .i64 => return .i64 (← readLe Int64 (range bytes 0 8))
    | .f64 => return .f64 (← readLe F64 (range bytes 0 8))
    | .bytes => return .bytes bytes
    | .cstr => do
        let stop := bytes.findIdx (· == 0)
        let text ← range bytes 0 stop
        return .cstr (fromUtf8Lossy text)

/-- `u32::from_le_bytes([bytes[at], bytes[at + 1], …]) as usize` -/
def readU32 (bytes : List UInt8) (start : ℕ) : Checked ℕ := do
  let byte0 ← index bytes start
  let byte1 ← index bytes (start + 1)
  let byte2 ← index bytes (start + 2)
  let byte3 ← index bytes (start + 3)
  return leValue [byte0, byte1, byte2, byte3]

def decodeElemsChecked (decode : List UInt8 → Checked (InvokeArg × ℕ))
    (bytes : List UInt8) : ℕ → ℕ → Checked (List InvokeArg × ℕ)
  | 0, consumed => return ([], consumed)
  | count + 1, consumed => do
      let rest ← rangeFrom bytes consumed
      let (elem, length) ← decode rest
      let (elems, total) ← decodeElemsChecked decode bytes count (consumed + length)
      return (elem :: elems, total)

/-- One call of the decoder; `fuel` bounds the nesting, and running out of it is
a panic of its own. -/
def decodeWithinChecked : ℕ → List UInt8 → Checked (InvokeArg × ℕ)
  | _, [] => failure
  | 0, _ => fault .depth
  | fuel + 1, bytes => do
      let tag ← index bytes 0
      if tag ≤ 11 then
        let ty ← lift (ValType.fromTag tag)
        let width ← lift ty.fixedWidth
        if bytes.length < 1 + width then failure
        else
          let payload ← range bytes 1 (1 + width)
          let value ← Value.decodeChecked ty payload
          return (.prim value, 1 + width)
      else if tag = Tag.instance then
        if bytes.length < 9 then failure
        else
          let handle ← readLe UInt64 (range bytes 1 9)
          return (.instance handle, 9)
      else if tag = Tag.string then
        if bytes.length < 5 then failure
        else
          let length ← readU32 bytes 1
          if bytes.length < 5 + length then failure
          else
            let text ← range bytes 5 (5 + length)
            let text ← lift (String.fromUTF8? text.toByteArray)
            return (.string text, 5 + length)
      else if tag = Tag.struct then
        if bytes.length < 5 then failure
        else
          let length ← readU32 bytes 1
          if bytes.length < 5 + length then failure
          else
            let payload ← range bytes 5 (5 + length)
            return (.struct payload, 5 + length)
      else if tag = Tag.array then
        if bytes.length < 5 then failure
        else
          let count ← readU32 bytes 1
          let (elems, consumed) ←
            decodeElemsChecked (decodeWithinChecked fuel) bytes count 5
          return (.array elems, consumed)
      else if tag = Tag.null then return (.null, 1)
      else failure

def InvokeArg.decodeChecked (bytes : List UInt8) : Checked (InvokeArg × ℕ) :=
  decodeWithinChecked bytes.length bytes

/-- The part of `host_invoke` that unpacks the guest's argument buffer: a status
code, or the arguments handed to `invoke_method`. -/
def hostInvokeArgs (buf : List UInt8) : Except Panic (Except ℤ (List InvokeArg)) :=
  if buf.length < 4 then .ok (.error Status.errBadType)
  else do
    match ← (readU32 buf 0).run with
    | none => .ok (.error Status.errBadType)
    | some argCount =>
        match ← (decodeElemsChecked InvokeArg.decodeChecked buf argCount 4).run with
        | some (args, _) => .ok (.ok args)
        | none => .ok (.error (InvokeError.marshalFailed 0 "").code)

theorem fromTag_isSome {tag : UInt8} (htag : tag ≤ 11) :
    ∃ ty, ValType.fromTag tag = some ty := by
  have hle : tag.toNat ≤ 11 := UInt8.le_iff_toNat_le.mp htag
  simp only [ValType.fromTag]
  generalize tag.toNat = number at hle
  interval_cases number
  all_goals exact ⟨_, rfl⟩

theorem fromTag_eq_none {tag : UInt8} (htag : ¬ tag ≤ 11) :
    ValType.fromTag tag = none := by
  have hlt : ¬ tag.toNat ≤ 11 := fun hle => htag (UInt8.le_iff_toNat_le.mpr hle)
  simp only [ValType.fromTag]
  split
  all_goals first | rfl | omega

theorem returns_readLe {T : Type} [MemValue T] {front : Checked (List UInt8)}
    {bytes : List UInt8} (hfront : Returns front (some bytes)) :
    Returns (readLe T front) (MemValue.fromLeBytesSpine bytes) :=
  hfront.step (Returns.lift _)

theorem returns_firstByte {bytes : List UInt8} (hlength : bytes.length = 1) :
    Returns (firstByte bytes) (some bytes) := by
  match bytes, hlength with
  | [byte], _ => rfl

theorem returns_firstTwo {bytes : List UInt8} (hlength : bytes.length = 2) :
    Returns (firstTwo bytes) (some bytes) := by
  match bytes, hlength with
  | [low, high], _ => rfl

theorem returns_front {bytes : List UInt8} {width : ℕ} (hlength : bytes.length = width) :
    Returns (range bytes 0 width) (some bytes) := by
  have hrange := returns_range (Nat.zero_le width) (Nat.le_of_eq hlength.symm)
  rwa [List.drop_zero, Nat.sub_zero, List.take_of_length_le (Nat.le_of_eq hlength)] at hrange

theorem Value.decodeChecked_returns (ty : ValType) (bytes : List UInt8) :
    Returns (Value.decodeChecked ty bytes) (Value.decode ty bytes) := by
  rw [Value.decodeChecked.eq_def, Value.decode.eq_def]
  apply Returns.unless
  intro hwidth
  cases ty
  case bytes => exact Returns.pure _
  case cstr =>
    have hle : bytes.findIdx (· == 0) ≤ bytes.length := List.findIdx_le_length
    have hfront : bytes.takeWhile (· ≠ 0) = bytes.take (bytes.findIdx (· == 0)) := by
      rw [List.takeWhile_eq_take_findIdx_not]
      congr 2
      funext byte
      simp [beq_eq_decide]
    have hrange := returns_range (Nat.zero_le _) hle
    rw [List.drop_zero, Nat.sub_zero, ← hfront] at hrange
    exact hrange.step (Returns.pure _)
  all_goals have hlength := by simpa [ValType.fixedWidth] using hwidth
  case u8 | i8 => exact (returns_readLe (returns_firstByte hlength)).map _
  case u16 | i16 => exact (returns_readLe (returns_firstTwo hlength)).map _
  all_goals exact (returns_readLe (returns_front hlength)).map _

theorem returns_readU32 {bytes : List UInt8} {start : ℕ}
    (hlength : start + 4 ≤ bytes.length) :
    Returns (readU32 bytes start) (some (leValue ((bytes.drop start).take 4))) := by
  have htake : (bytes.drop start).take 4 =
      [bytes[start], bytes[start + 1], bytes[start + 2], bytes[start + 3]] := by
    rw [List.drop_eq_getElem_cons, List.drop_eq_getElem_cons,
      List.drop_eq_getElem_cons, List.drop_eq_getElem_cons]
    rfl
  rw [htake]
  apply (returns_index _).step
  apply (returns_index _).step
  apply (returns_index _).step
  apply (returns_index _).step
  exact Returns.pure _

/-- The element loop asks for no slice past the end of the buffer, because every
element it decodes stays inside its rest. -/
theorem decodeElemsChecked_returns
    {check : List UInt8 → Checked (InvokeArg × ℕ)}
    {decode : List UInt8 → Option (InvokeArg × ℕ)}
    (hdecode : ∀ bytes arg length, decode bytes = some (arg, length) →
      Canonical bytes arg length)
    {bytes : List UInt8} (count : ℕ) {consumed : ℕ} (hconsumed : consumed ≤ bytes.length)
    (hcheck : ∀ start, consumed ≤ start →
      Returns (check (bytes.drop start)) (decode (bytes.drop start))) :
    Returns (decodeElemsChecked check bytes count consumed)
      (decodeElems decode bytes count consumed) := by
  induction count generalizing consumed with
  | zero => exact Returns.pure _
  | succ count ih =>
      apply (returns_rangeFrom hconsumed).step
      apply (hcheck consumed (Nat.le_refl _)).bind
      intro answer hanswer
      have hlength := (hdecode _ _ _ hanswer).le_length
      rw [List.length_drop] at hlength
      have hrest : Returns
          (decodeElemsChecked check bytes count (consumed + answer.2))
          (decodeElems decode bytes count (consumed + answer.2)) := by
        apply ih (by omega)
        intro start hstart
        exact hcheck start (by omega)
      exact hrest.bind fun result _ => Returns.pure _

/-- Reading the length prefix behind the tag, guarded as the source guards it. -/
theorem returns_length {β : Type} {bytes : List UInt8} {rest : ℕ → Checked β}
    {result : ℕ → Option β}
    (hrest : ∀ length, readLength bytes = some length →
      Returns (rest length) (result length)) :
    Returns (if bytes.length < 5 then failure else readU32 bytes 1 >>= rest)
      ((readLength bytes).bind result) := by
  by_cases hshort : bytes.length < 5
  · rw [if_pos hshort, readLength, if_pos hshort]
    exact Returns.failure
  · have hlength : readLength bytes = some (leValue ((bytes.drop 1).take 4)) := by
      rw [readLength, if_neg hshort]
    rw [if_neg hshort, hlength]
    exact (returns_readU32 (by omega)).step (hrest _ hlength)

/-- The payload of `length` bytes behind the prefix. -/
theorem returns_payload {bytes : List UInt8} {length : ℕ}
    (hlong : ¬ bytes.length < 5 + length) :
    Returns (range bytes 5 (5 + length)) (some ((bytes.drop 5).take length)) := by
  have hrange := returns_range (Nat.le_add_right 5 length) (Nat.not_lt.mp hlong)
  rwa [Nat.add_sub_cancel_left] at hrange

theorem decodeWithinChecked_returns {fuel : ℕ} {bytes : List UInt8}
    (hfuel : bytes.length ≤ fuel) :
    Returns (decodeWithinChecked fuel bytes) (decodeWithin fuel bytes) := by
  induction fuel generalizing bytes with
  | zero =>
      have hnil : bytes = [] := List.length_eq_zero_iff.mp (Nat.le_zero.mp hfuel)
      rw [hnil]
      exact Returns.failure
  | succ fuel ih =>
      cases bytes with
      | nil => exact Returns.failure
      | cons tag payload =>
          have htag : Returns (index (tag :: payload) 0) (some tag) := rfl
          apply htag.step
          simp only [decodeWithin]
          by_cases hprim : tag ≤ 11
          · obtain ⟨ty, hty⟩ := fromTag_isSome hprim
            simp only [if_pos hprim, hty]
            apply (Returns.lift (some ty)).step
            apply (Returns.lift ty.fixedWidth).bind
            intro width hwidth
            apply Returns.unless
            intro hlong
            have hrange := returns_range (Nat.le_add_right 1 width) (Nat.not_lt.mp hlong)
            rw [Nat.add_sub_cancel_left] at hrange
            apply hrange.step
            exact (Value.decodeChecked_returns ty _).bind fun _ _ => Returns.pure _
          · simp only [if_neg hprim, fromTag_eq_none hprim]
            apply Returns.ite
            · intro _
              apply Returns.unless
              intro hlong
              have hrange := returns_range (by decide : 1 ≤ 9) (Nat.not_lt.mp hlong)
              exact (returns_readLe hrange).map _
            intro _
            apply Returns.ite
            · intro _
              apply returns_length
              intro length hlength
              apply Returns.unless
              intro hlong
              apply (returns_payload hlong).step
              apply (Returns.lift _).bind
              exact fun text _ => Returns.pure _
            intro _
            apply Returns.ite
            · intro _
              apply returns_length
              intro length hlength
              apply Returns.unless
              intro hlong
              exact (returns_payload hlong).step (Returns.pure _)
            intro _
            apply Returns.ite
            · intro _
              apply returns_length
              intro count hcount
              have hfive := (readLength_eq_some hcount).1
              have helems : Returns
                  (decodeElemsChecked (decodeWithinChecked fuel) (tag :: payload) count 5)
                  (decodeElems (decodeWithin fuel) (tag :: payload) count 5) := by
                apply decodeElemsChecked_returns (fun _ _ _ => decodeWithin_canonical)
                  count hfive
                intro start hstart
                apply ih
                rw [List.length_drop]
                omega
              exact helems.bind fun _ _ => Returns.pure _
            intro _
            apply Returns.ite
            · intro _
              exact Returns.pure _
            · intro _
              exact Returns.failure

/-- The arguments `host_invoke` unpacks, without the checks. -/
def unpackedArgs (buf : List UInt8) : Except ℤ (List InvokeArg) :=
  if buf.length < 4 then .error Status.errBadType
  else
    match decodeElems InvokeArg.decode buf (leValue (buf.take 4)) 4 with
    | some (args, _) => .ok args
    | none => .error (InvokeError.marshalFailed 0 "").code

theorem hostInvokeArgs_eq (buf : List UInt8) :
    hostInvokeArgs buf = .ok (unpackedArgs buf) := by
  by_cases hshort : buf.length < 4
  · rw [hostInvokeArgs, unpackedArgs, if_pos hshort, if_pos hshort]
  · have hcount : Returns (readU32 buf 0) (some (leValue (buf.take 4))) :=
      returns_readU32 (by omega)
    have hargs : Returns
        (decodeElemsChecked InvokeArg.decodeChecked buf (leValue (buf.take 4)) 4)
        (decodeElems InvokeArg.decode buf (leValue (buf.take 4)) 4) := by
      apply decodeElemsChecked_returns (fun _ _ _ => decode_canonical) _ (by omega)
      intro start _
      exact decodeWithinChecked_returns (Nat.le_refl _)
    rw [Returns] at hcount hargs
    rw [hostInvokeArgs, unpackedArgs, if_neg hshort, if_neg hshort, hcount]
    simp only [bind, Except.bind, hargs]
    cases decodeElems InvokeArg.decode buf (leValue (buf.take 4)) 4 with
    | none => rfl
    | some result => rfl

/-- For every guest buffer the decoder ends without a panic, what it accepts is
the encoding of its answer, and later bytes change nothing; the argument loop of
`host_invoke` therefore never slices past the end of the buffer. -/
theorem decode_canonical_and_safe (bytes : List UInt8) :
    Returns (InvokeArg.decodeChecked bytes) (InvokeArg.decode bytes) ∧
    (∀ arg length, InvokeArg.decode bytes = some (arg, length) →
      1 ≤ length ∧ length ≤ bytes.length ∧ arg.encode = bytes.take length ∧
      ∀ tail, InvokeArg.decode (bytes ++ tail) = some (arg, length)) ∧
    hostInvokeArgs bytes = .ok (unpackedArgs bytes) := by
  refine ⟨decodeWithinChecked_returns (Nat.le_refl _), ?_, hostInvokeArgs_eq bytes⟩
  intro arg length harg
  have hcanonical := decode_canonical harg
  exact ⟨hcanonical.pos, hcanonical.le_length, hcanonical.encode_eq,
    decode_append harg⟩

theorem decode_nested_array_prefix :
    InvokeArg.decode ([15, 1, 0, 0, 0, 15, 0, 0, 0, 0] ++ [13]) =
      some (.array [.array []], 10) := by
  have harray : InvokeArg.decode [15, 1, 0, 0, 0, 15, 0, 0, 0, 0] =
      some (.array [.array []], 10) := rfl
  exact ((decode_canonical_and_safe [15, 1, 0, 0, 0, 15, 0, 0, 0, 0]).2.1
    (.array [.array []]) 10 harray).2.2.2 [13]

end FrogAgent.PackedArg
