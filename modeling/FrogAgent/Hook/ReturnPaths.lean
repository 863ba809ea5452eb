import FrogAgent.Core.PackedArgCodec
import FrogAgent.Hook.RegisterConvention

/-!
# The two ways a result reaches a script

`il2cpp.invoke` receives what `il2cpp_runtime_invoke` returns, a box for a value
type and the object itself for a reference, and decodes it with `unpack_return`.
A hook handler that calls the original gets its result from the return
registers.  For one run of a method the two should report the same argument.
-/

namespace FrogAgent.Marshal

open FrogAgent.ByteMemory
open FrogAgent.Error
open FrogAgent.LittleEndian
open FrogAgent.PackedArg
open FrogAgent.Signature
open FrogAgent.TypedValue

/-- The type codes `0x02..=0x0D`, from `Boolean` to `Double`. -/
def isPrimitive (tc : UInt8) : Bool := 0x02 ≤ tc && tc ≤ 0x0D

/-- Strings, classes, arrays, objects and one-dimensional arrays. -/
def isReference (tc : UInt8) : Bool :=
  tc = 0x0E || tc = 0x12 || tc = 0x14 || tc = 0x1C || tc = 0x1D

def isValueType (returnTc : UInt8) : Bool := isPrimitive returnTc || returnTc = 0x11

/-- `Il2CppObject` starts with its class and monitor pointers. -/
def objectHeader : ℕ := 0x10

/-- A null result is `null`; a box is read behind its header, and whatever is not
a value type is read at the returned address itself. -/
def unpackReturn (returnType : ValType) (returnTc : UInt8) (memory : Memory UInt8)
    (retPtr : UInt64) : Except InvokeError InvokeArg :=
  if retPtr = 0 then .ok .null
  else
    let valuePtr := bif isValueType returnTc then wrap (retPtr.toNat + objectHeader)
      else retPtr.toNat
    let width := returnType.fixedWidth.getD 8
    match Value.decode returnType (load memory valuePtr width) with
    | some value => .ok (.prim value)
    | none => .error (.internalFailure "return decode failed")

/-- What one run of the method leaves behind: the runtime boxes the bytes of a
primitive result, and returns a reference as the pointer in `rax`. -/
def SameRun (sig : MethodSignature) (memory : Memory UInt8) (retPtr : UInt64)
    (regs : RegArgs) : Prop :=
  bif isPrimitive sig.returnTc then
    retPtr ≠ 0 ∧
      load memory (wrap (retPtr.toNat + objectHeader))
        (sig.returnType.fixedWidth.getD 8) = regs.returnBytes sig.returnType
  else retPtr = regs.retInt

/-- Both paths report the same argument for every result of the method. -/
def ReturnPathsAgree (sig : MethodSignature) : Prop :=
  ∀ memory retPtr regs, SameRun sig memory retPtr regs →
    unpackReturn sig.returnType sig.returnTc memory retPtr =
      originalReturn sig.returnType regs

theorem isReference_cases {tc : UInt8} (htc : isReference tc = true) :
    isPrimitive tc = false ∧ isValueType tc = false ∧ valtypeFromTc tc = some .u64 := by
  simp only [isReference, Bool.or_eq_true, decide_eq_true_eq] at htc
  rcases htc with (((rfl | rfl) | rfl) | rfl) | rfl <;> exact ⟨rfl, rfl, rfl⟩

theorem valtypeFromTc_eq_single {tc : UInt8} (htc : valtypeFromTc tc = some .f32) :
    tc = 0x0C := by
  unfold valtypeFromTc at htc
  split at htc
  case h_11 hcode => exact UInt8.toNat_inj.mp hcode
  all_goals cases htc

/-- The box of a primitive decodes to the value the registers hold. -/
theorem unpackReturn_primitive {sig : MethodSignature} {memory : Memory UInt8}
    {retPtr : UInt64} {regs : RegArgs} (htc : isPrimitive sig.returnTc = true)
    (hreturn : Carried sig.returnType) (hrun : SameRun sig memory retPtr regs) :
    unpackReturn sig.returnType sig.returnTc memory retPtr =
      originalReturn sig.returnType regs := by
  obtain ⟨value, hvalue, htype, hbytes⟩ := returnRead_exact hreturn regs
  obtain ⟨width, hwidth⟩ := Option.isSome_iff_exists.mp hreturn.1
  simp only [SameRun, htc, cond_true] at hrun
  have hdecode : Value.decode sig.returnType value.encode = some value := by
    rw [← htype] at hwidth ⊢
    exact Value.decode_encode hwidth
  simp only [unpackReturn, if_neg hrun.1, isValueType, htc, Bool.true_or, cond_true]
  rw [hrun.2, hbytes, hdecode, hvalue]

/-- What is decoded from a box has the bytes of the register. -/
theorem returnBytes_of_unpackReturn {sig : MethodSignature} {memory : Memory UInt8}
    {retPtr : UInt64} {regs : RegArgs} {value : Value}
    (htc : isPrimitive sig.returnTc = true)
    (hfixed : sig.returnType.fixedWidth.isSome = true)
    (hrun : SameRun sig memory retPtr regs)
    (hvalue : unpackReturn sig.returnType sig.returnTc memory retPtr =
      .ok (.prim value)) :
    regs.returnBytes sig.returnType = value.encode := by
  obtain ⟨width, hwidth⟩ := Option.isSome_iff_exists.mp hfixed
  simp only [SameRun, htc, cond_true] at hrun
  simp only [unpackReturn, if_neg hrun.1, isValueType, htc, Bool.true_or, cond_true,
    hrun.2] at hvalue
  cases hdecode : Value.decode sig.returnType (regs.returnBytes sig.returnType) with
  | none =>
      simp only [hdecode] at hvalue
      cases hvalue
  | some decoded =>
      simp only [hdecode] at hvalue
      cases hvalue
      exact (Value.encode_of_decode hwidth hdecode).2.symm

/-- A non-null reference is followed: the script gets the first word of the
object, its class pointer. -/
theorem unpackReturn_reference {returnTc : UInt8} (htc : isReference returnTc = true)
    (memory : Memory UInt8) {retPtr : UInt64} (hptr : retPtr ≠ 0) :
    unpackReturn .u64 returnTc memory retPtr =
      .ok (.prim (.u64 (UInt64.ofNat (leValue (load memory retPtr.toNat 8))))) := by
  let word := leValue (load memory retPtr.toNat 8)
  have hword : word < 2 ^ 64 := by
    have hlt := leValue_lt (load memory retPtr.toNat 8)
    rwa [length_load] at hlt
  have hencode : (Value.u64 (UInt64.ofNat word)).encode = load memory retPtr.toNat 8 := by
    calc (Value.u64 (UInt64.ofNat word)).encode
        = leBytes 8 (UInt64.ofNat word).toNat := rfl
      _ = leBytes 8 word := by rw [UInt64.toNat_ofNat_of_lt' hword]
      _ = load memory retPtr.toNat 8 := by
          have hround := leBytes_leValue (load memory retPtr.toNat 8)
          rwa [length_load] at hround
  have hdecode : Value.decode .u64 (load memory retPtr.toNat 8) =
      some (.u64 (UInt64.ofNat word)) := by
    rw [← hencode]
    exact Value.decode_encode rfl
  simp only [unpackReturn, if_neg hptr, (isReference_cases htc).2.1, cond_false]
  have hwidth : ValType.u64.fixedWidth.getD 8 = 8 := rfl
  rw [hwidth, hdecode]

/-- On a reference the two paths agree only for an object that starts with its own
address; a null reference is `null` on one path and the number zero on the other. -/
theorem reference_agrees_iff {sig : MethodSignature}
    (htc : isReference sig.returnTc = true)
    (hreturn : sig.returnType = (valtypeFromTc sig.returnTc).getD .u64)
    {memory : Memory UInt8} {retPtr : UInt64} {regs : RegArgs}
    (hrun : SameRun sig memory retPtr regs) :
    unpackReturn sig.returnType sig.returnTc memory retPtr =
        originalReturn sig.returnType regs ↔
      retPtr ≠ 0 ∧ UInt64.ofNat (leValue (load memory retPtr.toNat 8)) = retPtr := by
  obtain ⟨hprimitive, -, htype⟩ := isReference_cases htc
  rw [htype, Option.getD_some] at hreturn
  simp only [SameRun, hprimitive, cond_false] at hrun
  have horiginal : originalReturn .u64 regs = .ok (.prim (.u64 retPtr)) := by
    rw [hrun]
    rfl
  rw [hreturn, horiginal]
  by_cases hptr : retPtr = 0
  · rw [unpackReturn, if_pos hptr]
    simp [hptr]
  · rw [unpackReturn_reference htc memory hptr]
    simp [hptr]

/-- Registers after a run that left the given words in `rax` and `xmm0`. -/
def returned (retInt : UInt64) (retFloat : F64) : RegArgs :=
  ⟨0, fun _ => 0, fun _ => zeroFloat, 0, retInt, retFloat⟩

/-- A box at `0x1000` whose value is the single-precision number one. -/
def boxedOne : Memory UInt8 :=
  store (fun _ => 0) ⟨0x1010, leBytes 4 0x3F800000⟩

/-- Both paths report every result of a method alike exactly when its result is a
primitive other than `Single`. -/
theorem returnPathsAgree_iff {internals : Internals} {memory : Memory UInt8}
    {method : ℕ} {sig : MethodSignature}
    (hsig : readSignature internals memory method = .ok sig)
    (htc : isPrimitive sig.returnTc = true ∨ isReference sig.returnTc = true) :
    ReturnPathsAgree sig ↔ isPrimitive sig.returnTc = true ∧ sig.returnTc ≠ 0x0C := by
  have hreturn := (readSignature_types hsig).2
  constructor
  · intro hagree
    rcases htc with hprimitive | hreference
    · refine ⟨hprimitive, ?_⟩
      intro hsingle
      have htype : sig.returnType = .f32 := by
        rw [hreturn, hsingle]
        rfl
      have hrun : SameRun sig boxedOne 0x1000 (returned 0 ⟨0x3F800000⟩) := by
        simp only [SameRun, hprimitive, cond_true, htype]
        decide +kernel
      have hsame : unpackReturn sig.returnType sig.returnTc boxedOne 0x1000 =
          .ok (.prim (.f32 (F64.toF32 ⟨0x3F800000⟩))) := by
        rw [hagree _ _ _ hrun, htype]
        rfl
      have hbytes := returnBytes_of_unpackReturn hprimitive
        (fixedWidth_readSignature hsig).2 hrun hsame
      rw [htype] at hbytes
      exact registerBytes_single _ hbytes
    · -- An object of zeros does not start with its own address.
      have hrun : SameRun sig (fun _ => 0) 0x1000 (returned 0x1000 zeroFloat) := by
        simp only [SameRun, (isReference_cases hreference).1, cond_false]
        rfl
      have hobject := (reference_agrees_iff hreference hreturn hrun).mp (hagree _ _ _ hrun)
      exact absurd hobject.2 (by decide +kernel)
  · rintro ⟨hprimitive, hsingle⟩ heap retPtr regs hrun
    apply unpackReturn_primitive hprimitive _ hrun
    refine ⟨(fixedWidth_readSignature hsig).2, ?_⟩
    intro hf32
    apply hsingle
    apply valtypeFromTc_eq_single
    rw [hf32] at hreturn
    cases hcode : valtypeFromTc sig.returnTc with
    | none =>
        rw [hcode] at hreturn
        cases hreturn
    | some ty =>
        rw [hcode] at hreturn
        exact congrArg some hreturn.symm

theorem returnPathsAgree_int32 :
    ReturnPathsAgree ⟨[.f64], .i32, 0x08, true⟩ := by
  have hsig : readSignature sampleInternals (sampleMethod 0x0D 0x08) 0x100 =
      .ok ⟨[.f64], .i32, 0x08, true⟩ := rfl
  exact (returnPathsAgree_iff hsig (Or.inl rfl)).mpr (by decide)

/-- The signature of a method that returns a string. -/
def stringSignature : MethodSignature := ⟨[.f64], .u64, 0x0E, true⟩

/-- A method that returned the string object at `0x1000`, whose class pointer is
`0x7000`: `invoke` reports the class, the original call the string. -/
theorem not_returnPathsAgree_string :
    ¬ ∀ internals memory method sig,
      readSignature internals memory method = .ok sig →
      isPrimitive sig.returnTc = true ∨ isReference sig.returnTc = true →
      ReturnPathsAgree sig := by
  intro hagree
  have hrun : SameRun stringSignature (store (fun _ => 0) ⟨0x1000, leBytes 8 0x7000⟩)
      0x1000 (returned 0x1000 zeroFloat) := rfl
  have hstring := hagree sampleInternals (sampleMethod 0x0D 0x0E) 0x100
    stringSignature rfl (Or.inr rfl) _ _ _ hrun
  have hobject := (reference_agrees_iff rfl rfl hrun).mp hstring
  exact absurd hobject.2 (by decide +kernel)

end FrogAgent.Marshal
