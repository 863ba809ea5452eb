import FrogAgent.Hook.Marshal

/-!
# The register convention of the marshaller

A Win64 callee reads an integer parameter from the low bytes of its integer
register and a floating-point parameter from the low four or eight bytes of its
XMM register; results travel the same way.  `RegArgs` holds these registers as
the shim stores and reloads them, the XMM registers as their raw low 64 bits.
The four conversion tables of `marshal.rs` and `call_original_now` keep to this
convention for every type but `f32`, which they convert numerically.
-/

namespace FrogAgent.Marshal

open FrogAgent.ByteMemory
open FrogAgent.Error
open FrogAgent.LittleEndian
open FrogAgent.PackedArg
open FrogAgent.Signature
open FrogAgent.TypedValue

/-- The bytes a callee or a caller takes from the two registers of a slot. -/
def registerBytes (ty : ValType) (word : UInt64) (xmm : F64) : List UInt8 :=
  match ty with
  | .u8 | .i8 => leBytes 1 word.toNat
  | .u16 | .i16 => leBytes 2 word.toNat
  | .u32 | .i32 => leBytes 4 word.toNat
  | .u64 | .i64 | .bytes | .cstr => leBytes 8 word.toNat
  | .f32 => leBytes 4 xmm.bits.toNat
  | .f64 => leBytes 8 xmm.bits.toNat

/-- The bytes of the parameter in a physical slot. -/
def RegArgs.argBytes (regs : RegArgs) (ty : ValType) (physicalSlot : ℕ) :
    Option (List UInt8) :=
  if hslot : physicalSlot < 4 then
    some (registerBytes ty (regs.intArgs ⟨physicalSlot, hslot⟩)
      (regs.floatArgs ⟨physicalSlot, hslot⟩))
  else none

def RegArgs.returnBytes (regs : RegArgs) (ty : ValType) : List UInt8 :=
  registerBytes ty regs.retInt regs.retFloat

/-- From `physicalSlot` on, the registers hold exactly the bytes of the packed
arguments, each of its declared type. -/
def RegArgs.Carries (regs : RegArgs) :
    ℕ → List ValType → List InvokeArg → Prop
  | _, [], [] => True
  | physicalSlot, ty :: types, .prim value :: args =>
      value.valType = ty ∧ regs.argBytes ty physicalSlot = some value.encode ∧
        regs.Carries (physicalSlot + 1) types args
  | _, _, _ => False

/-- The handler's view of the parameters has exactly the callee's bytes, and the
callee finds the same bytes after the view is written back unchanged. -/
def ArgumentsExact (internals : Internals) (memory : Memory UInt8) (method : ℕ)
    (sig : MethodSignature) (regs : RegArgs) : Prop :=
  ∃ args, regargsToArgs internals memory method regs = .ok args ∧
    regs.Carries (regOffset sig) sig.paramTypes args ∧
    ∃ written, argsToRegargs internals memory method args regs = (written, .ok ()) ∧
      written.Carries (regOffset sig) sig.paramTypes args

/-- The result read after the original has the bytes it left in the registers. -/
def ReturnReadExact (returnType : ValType) (regs : RegArgs) : Prop :=
  ∃ value, originalReturn returnType regs = .ok (.prim value) ∧
    value.valType = returnType ∧ regs.returnBytes returnType = value.encode

/-- A result the handler sets reaches the caller with its own bytes. -/
def ReturnPackedExact (returnType : ValType) (regs : RegArgs) : Prop :=
  ∀ value : Value, value.valType = returnType →
    ∃ packed, packReturnIntoRegargs returnType (.prim value) regs = (packed, .ok ()) ∧
      packed.returnBytes returnType = value.encode

/-- All four conversions follow the convention for every register contents. -/
def RegistersExact (internals : Internals) (memory : Memory UInt8) (method : ℕ)
    (sig : MethodSignature) : Prop :=
  ∀ regs, ArgumentsExact internals memory method sig regs ∧
    ReturnReadExact sig.returnType regs ∧ ReturnPackedExact sig.returnType regs

/-- No parameter and no result of single precision. -/
def NoSingle (sig : MethodSignature) : Prop :=
  ValType.f32 ∉ sig.paramTypes ∧ sig.returnType ≠ .f32

instance (sig : MethodSignature) : Decidable (NoSingle sig) :=
  inferInstanceAs (Decidable (_ ∧ _))

/-- The types the conversions treat bit by bit. -/
def Carried (ty : ValType) : Prop := ty.fixedWidth.isSome ∧ ty ≠ .f32

/-- Narrowing a register keeps its low bytes. -/
theorem leBytes_narrow {width : ℕ} (number : ℕ) :
    leBytes width number = leBytes width (number % 2 ^ (8 * width)) := by
  apply leBytes_congr
  rw [Nat.pow_mul]
  exact (Nat.mod_mod _ _).symm

/-- Sign extension to the whole register keeps the low bytes. -/
theorem leBytes_signExtend {width : ℕ} (hwidth : width ≤ 8)
    (bits : BitVec (8 * width)) :
    leBytes width (bits.signExtend 64).toNat = leBytes width bits.toNat := by
  apply leBytes_congr
  have hsplit : 2 ^ 64 = 2 ^ (8 * width) * 2 ^ (64 - 8 * width) := by
    rw [← Nat.pow_add]
    congr 1
    omega
  have hfits : bits.toNat < 2 ^ 64 :=
    Nat.lt_of_lt_of_le bits.isLt (Nat.pow_le_pow_right (by decide) (by omega))
  have hbase : 256 ^ width = 2 ^ (8 * width) := (Nat.pow_mul 2 8 width).symm
  have hgap : 2 ^ 64 - 2 ^ (8 * width) =
      2 ^ (8 * width) * (2 ^ (64 - 8 * width) - 1) := by
    rw [Nat.mul_sub, ← hsplit, Nat.mul_one]
  rw [BitVec.toNat_signExtend, BitVec.toNat_setWidth, Nat.mod_eq_of_lt hfits, hbase]
  split
  · rw [hgap, Nat.add_mul_mod_self_left]
  · rfl

theorem readOneArg_exact {ty : ValType} (hty : Carried ty) {physicalSlot : ℕ}
    (hslot : physicalSlot < 4) (regs : RegArgs) :
    ∃ value, readOneArgFromRegs ty physicalSlot regs = .ok (.prim value) ∧
      value.valType = ty ∧ regs.argBytes ty physicalSlot = some value.encode := by
  simp only [readOneArgFromRegs, RegArgs.argBytes, dif_pos hslot]
  cases ty
  case f32 => exact absurd rfl hty.2
  case bytes | cstr => exact absurd hty.1 Bool.false_ne_true
  case u64 | i64 | f64 => exact ⟨_, rfl, rfl, rfl⟩
  all_goals exact ⟨_, rfl, rfl, congrArg some (leBytes_narrow _)⟩

theorem returnRead_exact {ty : ValType} (hty : Carried ty) (regs : RegArgs) :
    ReturnReadExact ty regs := by
  cases ty
  case f32 => exact absurd rfl hty.2
  case bytes | cstr => exact absurd hty.1 Bool.false_ne_true
  case u64 | i64 | f64 => exact ⟨_, rfl, rfl, rfl⟩
  all_goals exact ⟨_, rfl, rfl, leBytes_narrow _⟩

theorem returnPacked_exact {ty : ValType} (hty : Carried ty) (regs : RegArgs) :
    ReturnPackedExact ty regs := by
  intro value hvalue
  cases hvalue
  cases value
  case f32 => exact absurd rfl hty.2
  case bytes | cstr => exact absurd hty.1 Bool.false_ne_true
  case i8 | i16 | i32 => exact ⟨_, rfl, leBytes_signExtend (by decide) _⟩
  all_goals exact ⟨_, rfl, rfl⟩

/-- One argument written back: its own slot carries its bytes, and no other slot
changes. -/
theorem writeOneArg_exact {value : Value} (hty : Carried value.valType)
    {physicalSlot : ℕ} (hslot : physicalSlot < 4) (regs : RegArgs) :
    ∃ written, writeOneArgToRegs value.valType value physicalSlot regs = .ok written ∧
      written.argBytes value.valType physicalSlot = some value.encode ∧
      ∀ ty other, other ≠ physicalSlot →
        written.argBytes ty other = regs.argBytes ty other := by
  have hint : ∀ word ty other, other ≠ physicalSlot →
      (regs.setInt ⟨physicalSlot, hslot⟩ word).argBytes ty other =
        regs.argBytes ty other := by
    intro word ty other hother
    simp only [RegArgs.argBytes, RegArgs.setInt]
    split
    · rw [Function.update_of_ne (by simpa using hother)]
    · rfl
  have hfloat : ∀ xmm ty other, other ≠ physicalSlot →
      (regs.setFloat ⟨physicalSlot, hslot⟩ xmm).argBytes ty other =
        regs.argBytes ty other := by
    intro xmm ty other hother
    simp only [RegArgs.argBytes, RegArgs.setFloat]
    split
    · rw [Function.update_of_ne (by simpa using hother)]
    · rfl
  simp only [writeOneArgToRegs, dif_pos hslot]
  cases value
  case f32 => exact absurd rfl hty.2
  case bytes | cstr => exact absurd hty.1 Bool.false_ne_true
  case f64 =>
    refine ⟨_, rfl, ?_, hfloat _⟩
    simp only [RegArgs.argBytes, RegArgs.setFloat, dif_pos hslot, Function.update_self]
    rfl
  case i8 | i16 | i32 =>
    refine ⟨_, rfl, ?_, hint _⟩
    simp only [RegArgs.argBytes, RegArgs.setInt, dif_pos hslot, Function.update_self]
    exact congrArg some (leBytes_signExtend (by decide) _)
  all_goals
    refine ⟨_, rfl, ?_, hint _⟩
    simp only [RegArgs.argBytes, RegArgs.setInt, dif_pos hslot, Function.update_self]
    rfl

theorem RegArgs.Carries.length_eq {regs : RegArgs} {physicalSlot : ℕ} {types : List ValType}
    {args : List InvokeArg} (hargs : regs.Carries physicalSlot types args) :
    args.length = types.length := by
  induction types generalizing physicalSlot args with
  | nil =>
      cases args with
      | nil => rfl
      | cons arg args => exact hargs.elim
  | cons ty types ih =>
      match args, hargs with
      | .prim _ :: args, hargs => exact congrArg (· + 1) (ih hargs.2.2)

/-- Registers that agree from a slot on carry the same arguments there. -/
theorem RegArgs.Carries.congr {regs others : RegArgs} {physicalSlot : ℕ}
    {types : List ValType} {args : List InvokeArg}
    (hargs : regs.Carries physicalSlot types args)
    (hsame : ∀ ty slot, physicalSlot ≤ slot →
      others.argBytes ty slot = regs.argBytes ty slot) :
    others.Carries physicalSlot types args := by
  induction types generalizing physicalSlot args with
  | nil =>
      cases args with
      | nil => trivial
      | cons arg args => exact hargs.elim
  | cons ty types ih =>
      match args, hargs with
      | .prim _ :: args, hargs =>
          refine ⟨hargs.1, (hsame _ _ (Nat.le_refl _)).trans hargs.2.1, ?_⟩
          exact ih hargs.2.2 fun ty slot hslot => hsame ty slot (by omega)

theorem readArgs_exact {types : List ValType} (htypes : ∀ ty ∈ types, Carried ty)
    {physicalSlot : ℕ} (hslots : physicalSlot + types.length ≤ 4) (regs : RegArgs) :
    ∃ args, ((types.zipIdx physicalSlot).mapM fun (ty, physical) =>
        readOneArgFromRegs ty physical regs) = .ok args ∧
      regs.Carries physicalSlot types args := by
  induction types generalizing physicalSlot with
  | nil => exact ⟨[], rfl, trivial⟩
  | cons ty types ih =>
      rw [List.length_cons] at hslots
      obtain ⟨value, hread, hvalue, hbytes⟩ :=
        readOneArg_exact (htypes ty List.mem_cons_self)
          (by omega : physicalSlot < 4) regs
      obtain ⟨args, hargs, hcarries⟩ :=
        ih (fun other hother => htypes other (List.mem_cons_of_mem _ hother))
          (by omega : physicalSlot + 1 + types.length ≤ 4)
      refine ⟨.prim value :: args, ?_, hvalue, hbytes, hcarries⟩
      rw [List.zipIdx_cons, List.mapM_cons, hargs]
      simp only [hread]
      rfl

theorem writeArgs_exact {types : List ValType} (htypes : ∀ ty ∈ types, Carried ty)
    {args : List InvokeArg} {physicalSlot : ℕ}
    (hslots : physicalSlot + types.length ≤ 4) {regs : RegArgs}
    (hargs : regs.Carries physicalSlot types args) :
    ∃ written, writeArgs (types.zip args) physicalSlot regs = (written, .ok ()) ∧
      written.Carries physicalSlot types args ∧
      ∀ ty slot, slot < physicalSlot →
        written.argBytes ty slot = regs.argBytes ty slot := by
  induction types generalizing physicalSlot args regs with
  | nil =>
      cases args with
      | nil => exact ⟨regs, rfl, trivial, fun _ _ _ => rfl⟩
      | cons arg args => exact hargs.elim
  | cons ty types ih =>
      match args, hargs with
      | .prim value :: args, hargs =>
          obtain ⟨rfl, hbytes, hrest⟩ := hargs
          rw [List.length_cons] at hslots
          obtain ⟨middle, hwrite, hown, hother⟩ :=
            writeOneArg_exact (htypes _ List.mem_cons_self)
              (by omega : physicalSlot < 4) regs
          have hmiddle : middle.Carries (physicalSlot + 1) types args :=
            hrest.congr fun ty slot hslot => hother ty slot (by omega)
          obtain ⟨written, hwritten, hcarries, hbelow⟩ :=
            ih (fun other hmem => htypes other (List.mem_cons_of_mem _ hmem))
              (by omega) hmiddle
          refine ⟨written, ?_, ⟨rfl, ?_, hcarries⟩, ?_⟩
          · simp only [List.zip_cons_cons, writeArgs, argAsValue, if_true, hwrite]
            exact hwritten
          · rw [hbelow _ _ (Nat.lt_succ_self _), hown]
          · intro ty slot hslot
            rw [hbelow _ _ (Nat.lt_succ_of_lt hslot), hother _ _ (Nat.ne_of_lt hslot)]

theorem fixedWidth_valtypeFromTc (tc : UInt8) :
    ((valtypeFromTc tc).getD .u64).fixedWidth.isSome = true := by
  simp only [valtypeFromTc]
  split <;> rfl

/-- Every type of a signature that was read from memory has a fixed width. -/
theorem fixedWidth_readSignature {internals : Internals} {memory : Memory UInt8}
    {method : ℕ} {sig : MethodSignature}
    (hsig : readSignature internals memory method = .ok sig) :
    (∀ ty ∈ sig.paramTypes, ty.fixedWidth.isSome = true) ∧
      sig.returnType.fixedWidth.isSome = true := by
  obtain ⟨hparams, hreturn⟩ := readSignature_types hsig
  constructor
  · intro ty hty
    obtain ⟨tc, rfl⟩ := hparams ty hty
    exact fixedWidth_valtypeFromTc tc
  · rw [hreturn]
    exact fixedWidth_valtypeFromTc _

theorem argumentsExact_of_carried {internals : Internals} {memory : Memory UInt8}
    {method : ℕ} {sig : MethodSignature}
    (hsig : readSignature internals memory method = .ok sig)
    (hslots : regOffset sig + sig.paramTypes.length ≤ 4)
    (htypes : ∀ ty ∈ sig.paramTypes, Carried ty) (regs : RegArgs) :
    ArgumentsExact internals memory method sig regs := by
  obtain ⟨args, hread, hargs⟩ := readArgs_exact htypes hslots regs
  obtain ⟨written, hwrite, hwritten, -⟩ := writeArgs_exact htypes hslots hargs
  refine ⟨args, ?_, hargs, written, ?_, hwritten⟩
  · rw [regargsToArgs, hsig]
    exact hread
  · rw [argsToRegargs, hsig]
    exact (if_neg (not_not_intro hargs.length_eq)).trans hwrite

/-- Registers whose XMM parts hold the single-precision number one. -/
def singleOnes : RegArgs :=
  ⟨0, fun _ => 0, fun _ => ⟨0x3F800000⟩, 0, 0, ⟨0x3F800000⟩⟩

/-- Taken as a double, the pattern of a single-precision one is almost zero. -/
theorem registerBytes_single (word : UInt64) :
    registerBytes .f32 word ⟨0x3F800000⟩ ≠
      (Value.f32 (F64.toF32 ⟨0x3F800000⟩)).encode := by
  change leBytes 4 0x3F800000 ≠ leBytes 4 (F64.toF32 ⟨0x3F800000⟩).bits.toNat
  decide +kernel

theorem single_not_exact {physicalSlot : ℕ} {value : Value}
    (hread : readOneArgFromRegs .f32 physicalSlot singleOnes = .ok (.prim value)) :
    singleOnes.argBytes .f32 physicalSlot ≠ some value.encode := by
  by_cases hslot : physicalSlot < 4
  · simp only [readOneArgFromRegs, dif_pos hslot] at hread
    cases hread
    simp only [RegArgs.argBytes, dif_pos hslot]
    exact fun hbytes => registerBytes_single _ (Option.some.inj hbytes)
  · simp only [readOneArgFromRegs, dif_neg hslot] at hread
    cases hread

theorem not_carries_single {types : List ValType} (hsingle : ValType.f32 ∈ types)
    {args : List InvokeArg} {physicalSlot : ℕ}
    (hargs : ((types.zipIdx physicalSlot).mapM fun (ty, physical) =>
      readOneArgFromRegs ty physical singleOnes) = .ok args) :
    ¬ singleOnes.Carries physicalSlot types args := by
  induction types generalizing physicalSlot args with
  | nil => cases hsingle
  | cons ty types ih =>
      intro hcarries
      match args, hcarries with
      | .prim value :: args, hcarries =>
          obtain ⟨-, hbytes, hrest⟩ := hcarries
          simp only [List.zipIdx_cons, List.mapM_cons, bind, Except.bind] at hargs
          cases hread : readOneArgFromRegs ty physicalSlot singleOnes with
          | error error =>
              simp only [hread] at hargs
              cases hargs
          | ok first =>
              cases hmore : (types.zipIdx (physicalSlot + 1)).mapM fun (ty, physical) =>
                  readOneArgFromRegs ty physical singleOnes with
              | error error =>
                  simp only [hread, hmore] at hargs
                  cases hargs
              | ok more =>
                  simp only [hread, hmore] at hargs
                  cases hargs
                  cases hsingle with
                  | head => exact single_not_exact hread hbytes
                  | tail _ hsingle => exact ih hsingle hmore hrest

/-- All conversions keep to the convention exactly when neither a parameter nor
the result is of single precision. -/
theorem registersExact_iff_noSingle {internals : Internals} {memory : Memory UInt8}
    {method : ℕ} {sig : MethodSignature}
    (hsig : readSignature internals memory method = .ok sig)
    (hslots : regOffset sig + sig.paramTypes.length ≤ 4) :
    RegistersExact internals memory method sig ↔ NoSingle sig := by
  obtain ⟨hparams, hreturn⟩ := fixedWidth_readSignature hsig
  constructor
  · intro hexact
    obtain ⟨⟨args, hread, hcarries, -⟩, ⟨value, hvalue, -, hbytes⟩, -⟩ :=
      hexact singleOnes
    constructor
    · intro hsingle
      rw [regargsToArgs, hsig] at hread
      exact not_carries_single hsingle hread hcarries
    · intro hsingle
      rw [hsingle] at hvalue hbytes
      cases hvalue
      exact registerBytes_single _ hbytes
  · intro hnone regs
    have htypes : ∀ ty ∈ sig.paramTypes, Carried ty := by
      intro ty hty
      exact ⟨hparams ty hty, ne_of_mem_of_not_mem hty hnone.1⟩
    have hcarried : Carried sig.returnType := ⟨hreturn, hnone.2⟩
    exact ⟨argumentsExact_of_carried hsig hslots htypes regs,
      returnRead_exact hcarried regs, returnPacked_exact hcarried regs⟩

/-- A static method at `0x100` with one parameter and a result of the type codes
`param` and `result`. -/
def sampleMethod (param result : UInt8) : Memory UInt8 := fun address =>
  if address = 0x14C then 0x10
  else if address = 0x152 then 1
  else if address = 0x131 then 2
  else if address = 0x129 then 4
  else if address = 0x201 then 3
  else if address = 0x30A then param
  else if address = 0x40A then result
  else 0

def sampleInternals : Internals where
  ctx := some ⟨0x08, 0x28, 0x30, 0x4C, 0x52, 0x18, 0, 8, 16⟩
  readable := fun _ _ => true

theorem registersExact_double :
    RegistersExact sampleInternals (sampleMethod 0x0D 0x08) 0x100
      ⟨[.f64], .i32, 0x08, true⟩ := by
  apply (registersExact_iff_noSingle rfl (by decide)).mpr
  decide

theorem not_registersExact_single :
    ¬ ∀ internals memory method sig,
      readSignature internals memory method = .ok sig →
      regOffset sig + sig.paramTypes.length ≤ 4 →
      RegistersExact internals memory method sig := by
  intro hexact
  have hsample := hexact sampleInternals (sampleMethod 0x0C 0x08) 0x100
    ⟨[.f32], .i32, 0x08, true⟩ rfl (by decide) singleOnes
  obtain ⟨args, hread, hcarries, -⟩ := hsample.1
  have hsig : readSignature sampleInternals (sampleMethod 0x0C 0x08) 0x100 =
      .ok ⟨[.f32], .i32, 0x08, true⟩ := rfl
  have hsingle : ValType.f32 ∈ [ValType.f32] := List.mem_cons_self
  rw [regargsToArgs, hsig] at hread
  apply not_carries_single hsingle _ hcarries
  exact hread

end FrogAgent.Marshal
