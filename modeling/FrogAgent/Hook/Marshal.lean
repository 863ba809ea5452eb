import FrogAgent.Core.PackedArg
import FrogAgent.Hook.Signature

/-!
# Register arguments of a hooked call

`RegArgs` and the hook side of `internals/marshal.rs`: captured registers become
packed arguments for the handler, and what the handler sets goes back into the
registers or the return slots.  A signature is always read again from the
`MethodInfo`; the register file is passed along, because a failed write-back
leaves the arguments before the failing one written.
-/

namespace FrogAgent.Marshal

open FrogAgent.ByteMemory
open FrogAgent.Error
open FrogAgent.PackedArg
open FrogAgent.Signature
open FrogAgent.TypedValue

structure RegArgs where
  methodId : UInt64
  intArgs : Fin 4 → UInt64
  floatArgs : Fin 4 → F64
  stackArgs : UInt64
  retInt : UInt64
  retFloat : F64

/-- The number `0.0`. -/
def zeroFloat : F64 := ⟨0⟩

def RegArgs.setInt (regs : RegArgs) (slot : Fin 4) (word : UInt64) : RegArgs :=
  { regs with intArgs := Function.update regs.intArgs slot word }

def RegArgs.setFloat (regs : RegArgs) (slot : Fin 4) (value : F64) : RegArgs :=
  { regs with floatArgs := Function.update regs.floatArgs slot value }

def RegArgs.setReturn (regs : RegArgs) (result : UInt64 × F64) : RegArgs :=
  { regs with retInt := result.1, retFloat := result.2 }

def readOneArgFromRegs (ty : ValType) (physicalSlot : ℕ) (regs : RegArgs) :
    Except InvokeError InvokeArg :=
  if hslot : physicalSlot < 4 then
    let word := regs.intArgs ⟨physicalSlot, hslot⟩
    let float := regs.floatArgs ⟨physicalSlot, hslot⟩
    match ty with
    | .u8 => .ok (.prim (.u8 word.toUInt8))
    | .u16 => .ok (.prim (.u16 word.toUInt16))
    | .u32 => .ok (.prim (.u32 word.toUInt32))
    | .u64 => .ok (.prim (.u64 word))
    | .i8 => .ok (.prim (.i8 word.toUInt8.toInt8))
    | .i16 => .ok (.prim (.i16 word.toUInt16.toInt16))
    | .i32 => .ok (.prim (.i32 word.toUInt32.toInt32))
    | .i64 => .ok (.prim (.i64 word.toInt64))
    | .f32 => .ok (.prim (.f32 float.toF32))
    | .f64 => .ok (.prim (.f64 float))
    | .bytes | .cstr => .error (.marshalFailed (UInt8.ofNat physicalSlot)
        "variable-length arg types not directly readable from regs")
  else
    .error (.marshalFailed (UInt8.ofNat physicalSlot)
      "args beyond slot 4 are not captured by RegArgs in v1")

/-- The first physical slot of a declared argument: `this` takes slot 0. -/
def regOffset (sig : MethodSignature) : ℕ := if sig.isStatic then 0 else 1

def regargsToArgs (internals : Internals) (memory : Memory UInt8) (method : ℕ)
    (regs : RegArgs) : Except InvokeError (List InvokeArg) := do
  let sig ← readSignature internals memory method
  (sig.paramTypes.zipIdx (regOffset sig)).mapM fun (ty, physical) =>
    readOneArgFromRegs ty physical regs

def argAsValue (arg : InvokeArg) (expected : ValType) (idx : ℕ) :
    Except InvokeError Value :=
  match arg with
  | .prim value =>
      if value.valType = expected then .ok value
      else .error (.argTypeMismatch (UInt8.ofNat idx) expected value.valType)
  | _ => .error (.marshalFailed (UInt8.ofNat idx)
      "hook arg writeback only supports primitives in v1")

def writeOneArgToRegs (ty : ValType) (value : Value) (physicalSlot : ℕ)
    (regs : RegArgs) : Except InvokeError RegArgs :=
  if hslot : physicalSlot < 4 then
    let slot : Fin 4 := ⟨physicalSlot, hslot⟩
    match ty, value with
    | .u8, .u8 number => .ok (regs.setInt slot number.toUInt64)
    | .u16, .u16 number => .ok (regs.setInt slot number.toUInt64)
    | .u32, .u32 number => .ok (regs.setInt slot number.toUInt64)
    | .u64, .u64 number => .ok (regs.setInt slot number)
    | .i8, .i8 number => .ok (regs.setInt slot number.toInt64.toUInt64)
    | .i16, .i16 number => .ok (regs.setInt slot number.toInt64.toUInt64)
    | .i32, .i32 number => .ok (regs.setInt slot number.toInt64.toUInt64)
    | .i64, .i64 number => .ok (regs.setInt slot number.toUInt64)
    | .f32, .f32 number => .ok (regs.setFloat slot number.toF64)
    | .f64, .f64 number => .ok (regs.setFloat slot number)
    | _, _ => .error (.argTypeMismatch (UInt8.ofNat physicalSlot) ty ty)
  else
    .error (.marshalFailed (UInt8.ofNat physicalSlot)
      "args beyond slot 4 cannot be written via RegArgs in v1")

/-- The loop of `args_to_regargs`, which stops at the first error. -/
def writeArgs : List (ValType × InvokeArg) → ℕ → RegArgs →
    RegArgs × Except InvokeError Unit
  | [], _, regs => (regs, .ok ())
  | (ty, arg) :: args, physical, regs =>
      match argAsValue arg ty physical with
      | .error error => (regs, .error error)
      | .ok value =>
          match writeOneArgToRegs ty value physical regs with
          | .error error => (regs, .error error)
          | .ok written => writeArgs args (physical + 1) written

def argsToRegargs (internals : Internals) (memory : Memory UInt8) (method : ℕ)
    (args : List InvokeArg) (regs : RegArgs) :
    RegArgs × Except InvokeError Unit :=
  match readSignature internals memory method with
  | .error error => (regs, .error error)
  | .ok sig =>
      if args.length ≠ sig.paramTypes.length then
        (regs, .error (.argCountMismatch (UInt8.ofNat sig.paramTypes.length)
          (UInt8.ofNat args.length)))
      else writeArgs (sig.paramTypes.zip args) (regOffset sig) regs

/-- Both return slots are cleared first, also when the value is then rejected. -/
def packReturnIntoRegargs (returnType : ValType) (value : InvokeArg)
    (regs : RegArgs) : RegArgs × Except InvokeError Unit :=
  let cleared := regs.setReturn (0, zeroFloat)
  let word := fun result => (regs.setReturn (result, zeroFloat), Except.ok ())
  let float := fun result => (regs.setReturn (0, result), Except.ok ())
  match value with
  | .null => (cleared, .ok ())
  | .prim value =>
      match returnType, value with
      | .u8, .u8 number => word number.toUInt64
      | .u16, .u16 number => word number.toUInt64
      | .u32, .u32 number => word number.toUInt64
      | .u64, .u64 number => word number
      | .i8, .i8 number => word number.toInt64.toUInt64
      | .i16, .i16 number => word number.toInt64.toUInt64
      | .i32, .i32 number => word number.toInt64.toUInt64
      | .i64, .i64 number => word number.toUInt64
      | .f32, .f32 number => float number.toF64
      | .f64, .f64 number => float number
      | _, _ =>
          (cleared, .error (.argTypeMismatch 0 returnType value.valType))
  | _ => (cleared, .error (.marshalFailed 0
      "hook return only supports primitives in v1"))

/-- The packed result `call_original` hands to the script. -/
def originalReturn (returnType : ValType) (regs : RegArgs) :
    Except InvokeError InvokeArg :=
  match returnType with
  | .u8 => .ok (.prim (.u8 regs.retInt.toUInt8))
  | .u16 => .ok (.prim (.u16 regs.retInt.toUInt16))
  | .u32 => .ok (.prim (.u32 regs.retInt.toUInt32))
  | .u64 => .ok (.prim (.u64 regs.retInt))
  | .i8 => .ok (.prim (.i8 regs.retInt.toUInt8.toInt8))
  | .i16 => .ok (.prim (.i16 regs.retInt.toUInt16.toInt16))
  | .i32 => .ok (.prim (.i32 regs.retInt.toUInt32.toInt32))
  | .i64 => .ok (.prim (.i64 regs.retInt.toInt64))
  | .f32 => .ok (.prim (.f32 regs.retFloat.toF32))
  | .f64 => .ok (.prim (.f64 regs.retFloat))
  | .bytes | .cstr => .error (.marshalFailed 0
      "var-len returns not supported in v1")

/-! ## What the conversions touch -/

/-- Writing an argument back commutes with setting the return slots. -/
theorem writeOneArgToRegs_setReturn (ty : ValType) (value : Value)
    (physicalSlot : ℕ) (regs : RegArgs) (result : UInt64 × F64) :
    writeOneArgToRegs ty value physicalSlot (regs.setReturn result) =
      (writeOneArgToRegs ty value physicalSlot regs).map
        (·.setReturn result) := by
  unfold writeOneArgToRegs
  split
  · dsimp only
    split <;> rfl
  · rfl

theorem writeArgs_setReturn (args : List (ValType × InvokeArg)) (physical : ℕ)
    (regs : RegArgs) (result : UInt64 × F64) :
    writeArgs args physical (regs.setReturn result) =
      ((writeArgs args physical regs).1.setReturn result,
        (writeArgs args physical regs).2) := by
  induction args generalizing physical regs with
  | nil => rfl
  | cons head args ih =>
      obtain ⟨ty, arg⟩ := head
      simp only [writeArgs, writeOneArgToRegs_setReturn]
      cases argAsValue arg ty physical with
      | error error => rfl
      | ok value =>
          dsimp only
          cases writeOneArgToRegs ty value physical regs with
          | error error => rfl
          | ok written => exact ih (physical + 1) written

theorem argsToRegargs_setReturn (internals : Internals) (memory : Memory UInt8)
    (method : ℕ) (args : List InvokeArg) (regs : RegArgs)
    (result : UInt64 × F64) :
    argsToRegargs internals memory method args (regs.setReturn result) =
      ((argsToRegargs internals memory method args regs).1.setReturn result,
        (argsToRegargs internals memory method args regs).2) := by
  unfold argsToRegargs
  split
  · rfl
  · split
    · rfl
    · exact writeArgs_setReturn _ _ _ _

end FrogAgent.Marshal
