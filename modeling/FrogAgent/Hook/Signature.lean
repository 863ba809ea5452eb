import FrogAgent.Core.Error
import FrogAgent.Lib.ByteMemory

/-!
# Method signatures read from memory

`read_signature` of `internals/marshal.rs` walks a `MethodInfo` through the
probed offsets, with every read validated by the region cache.
-/

namespace FrogAgent.Signature

open FrogAgent.ByteMemory
open FrogAgent.Error
open FrogAgent.LittleEndian
open FrogAgent.TypedValue

/-- The offsets of `Il2CppConfig` that signatures and hooks use. -/
structure Config where
  methodPointerOff : ℕ
  methodReturnTypeOff : ℕ
  methodParametersOff : ℕ
  methodFlagsOff : ℕ
  methodParamCountOff : ℕ
  paramInfoSize : ℕ
  paramInfoTypeOff : ℕ
  typeDiscrimReadAt : ℕ
  discrimShift : ℕ
  deriving DecidableEq

/-- What the internals see of the process: the resolved context, if the worker
has stored one, and the ranges `cache::validate_read` accepts. -/
structure Internals where
  ctx : Option Config
  readable : ℕ → ℕ → Bool

/-- Address arithmetic on `usize`, as compiled without overflow checks. -/
def wrap (address : ℕ) : ℕ := address % 2 ^ 64

/-- The validated reads `read_u8`, `read_u32` and `read_u64` at their widths. -/
def cacheRead (internals : Internals) (memory : Memory UInt8)
    (width address : ℕ) : Option ℕ :=
  if internals.readable (wrap address) width then
    some (leValue (load memory (wrap address) width))
  else none

structure MethodSignature where
  paramTypes : List ValType
  returnType : ValType
  returnTc : UInt8
  isStatic : Bool
  deriving DecidableEq

def methodAttributeStatic : ℕ := 0x10

/-- Map an `Il2CppType` discriminator to the value type it reads as: numeric
primitives exactly, `void` to nothing, all else to a pointer-sized word. -/
def valtypeFromTc (tc : UInt8) : Option ValType :=
  match tc.toNat with
  | 0x02 => some .u8
  | 0x03 => some .u16
  | 0x04 => some .i8
  | 0x05 => some .u8
  | 0x06 => some .i16
  | 0x07 => some .u16
  | 0x08 => some .i32
  | 0x09 => some .u32
  | 0x0A => some .i64
  | 0x0B => some .u64
  | 0x0C => some .f32
  | 0x0D => some .f64
  | 0x01 => none
  | _ => some .u64

/-- The type code stored in the `Il2CppType` at `typePtr`; unreadable memory
counts as zero. -/
def readTypeCode (internals : Internals) (cfg : Config)
    (memory : Memory UInt8) (typePtr : ℕ) : UInt8 :=
  let chunk := (cacheRead internals memory 8
    (typePtr + cfg.typeDiscrimReadAt)).getD 0
  UInt8.ofNat (chunk >>> cfg.discrimShift)

def readParamType (internals : Internals) (cfg : Config)
    (memory : Memory UInt8) (paramsPtr idx : ℕ) : ValType :=
  let info := paramsPtr + idx * cfg.paramInfoSize
  let typePtr := (cacheRead internals memory 8
    (info + cfg.paramInfoTypeOff)).getD 0
  (valtypeFromTc (readTypeCode internals cfg memory typePtr)).getD .u64

def readSignature (internals : Internals) (memory : Memory UInt8)
    (method : ℕ) : Except InvokeError MethodSignature := do
  let cfg ← match internals.ctx with
    | some cfg => pure cfg
    | none => throw (.internalFailure "internals ctx not initialized")
  let flags ← match cacheRead internals memory 4
      (method + cfg.methodFlagsOff) with
    | some flags => pure flags
    | none => throw .notFound
  let paramCount ← match cacheRead internals memory 1
      (method + cfg.methodParamCountOff) with
    | some count => pure count
    | none => throw .notFound
  let paramsPtr ← match cacheRead internals memory 8
      (method + cfg.methodParametersOff) with
    | some ptr => pure ptr
    | none => throw .notFound
  let retTypePtr := (cacheRead internals memory 8
    (method + cfg.methodReturnTypeOff)).getD 0
  let retTc := readTypeCode internals cfg memory retTypePtr
  return {
    paramTypes := (List.range paramCount).map
      (readParamType internals cfg memory paramsPtr)
    returnType := (valtypeFromTc retTc).getD .u64
    returnTc := retTc
    isStatic := flags &&& methodAttributeStatic ≠ 0 }

/-- A signature can be read where its words can; its types are those of the parameters. -/
theorem readSignature_of_reads {internals : Internals} {cfg : Signature.Config}
    {memory : Memory UInt8} {method flags count params : ℕ}
    (hctx : internals.ctx = some cfg)
    (hflags : cacheRead internals memory 4 (method + cfg.methodFlagsOff) = some flags)
    (hcount : cacheRead internals memory 1 (method + cfg.methodParamCountOff) = some count)
    (hparams : cacheRead internals memory 8 (method + cfg.methodParametersOff) =
      some params) :
    ∃ sig, readSignature internals memory method = .ok sig ∧
      sig.paramTypes = (List.range count).map (readParamType internals cfg memory params) := by
  unfold readSignature
  simp only [hctx, hflags, hcount, hparams, pure_bind]
  exact ⟨_, rfl, rfl⟩

/-- The types of a signature that was read all come from type codes. -/
theorem readSignature_types {internals : Internals} {memory : Memory UInt8}
    {method : ℕ} {sig : MethodSignature}
    (hsig : readSignature internals memory method = .ok sig) :
    (∀ ty ∈ sig.paramTypes, ∃ tc, ty = (valtypeFromTc tc).getD .u64) ∧
      sig.returnType = (valtypeFromTc sig.returnTc).getD .u64 := by
  unfold readSignature at hsig
  cases hctx : internals.ctx with
  | none =>
      simp only [hctx] at hsig
      cases hsig
  | some cfg =>
      simp only [hctx, pure_bind] at hsig
      cases hflags : cacheRead internals memory 4 (method + cfg.methodFlagsOff) with
      | none =>
          simp only [hflags] at hsig
          cases hsig
      | some flags =>
          simp only [hflags] at hsig
          cases hcount : cacheRead internals memory 1
              (method + cfg.methodParamCountOff) with
          | none =>
              simp only [hcount] at hsig
              cases hsig
          | some count =>
              simp only [hcount] at hsig
              cases hparams : cacheRead internals memory 8
                  (method + cfg.methodParametersOff) with
              | none =>
                  simp only [hparams] at hsig
                  cases hsig
              | some params =>
                  simp only [hparams] at hsig
                  cases hsig
                  refine ⟨?_, rfl⟩
                  intro ty hty
                  obtain ⟨idx, -, rfl⟩ := List.mem_map.mp hty
                  exact ⟨_, rfl⟩

end FrogAgent.Signature
