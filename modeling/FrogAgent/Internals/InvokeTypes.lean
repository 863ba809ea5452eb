import FrogAgent.Hook.ArgWriteback
import FrogAgent.Internals.Invoke

/-!
# Argument types

A hook handler cannot put a value of another type into a register: `args_to_regargs`
compares every primitive with the declared parameter type and answers
`ArgTypeMismatch`.  `invoke_method` reads the same signature and checks only the number
of the arguments; it has no way to answer a mismatch.
-/

namespace FrogAgent.Invoke

open FrogAgent.ArgWriteback
open FrogAgent.BlockHeap
open FrogAgent.ByteMemory
open FrogAgent.Error
open FrogAgent.Marshal
open FrogAgent.PackedArg
open FrogAgent.Signature
open FrogAgent.TypedValue

/-- Every primitive argument has the type declared at its index. -/
def TypesMatch (types : List ValType) (args : List InvokeArg) : Prop :=
  ∀ (idx : ℕ) (ty : ValType) (value : Value), types[idx]? = some ty →
    args[idx]? = some (.prim value) → value.valType = ty

/-- The error with the status -102. -/
def IsTypeMismatch (error : InvokeError) : Prop :=
  ∃ idx expected got, error = .argTypeMismatch idx expected got

/-- `invoke_method` checks its arguments against the signature. -/
structure ChecksTypes (internals : Internals) (memory : Memory UInt8)
    (process : Process) (method : ℕ) (receiver : Option UInt64) (args : List InvokeArg)
    (sig : MethodSignature) : Prop where
  /-- The runtime is only called with arguments that fit. -/
  fits : (invokeMethod internals memory process method receiver args).1.isSome →
    args.length = sig.paramTypes.length ∧ TypesMatch sig.paramTypes args
  /-- A value of another type is answered without a call. -/
  rejects : args.length = sig.paramTypes.length → ¬ TypesMatch sig.paramTypes args →
    (invokeMethod internals memory process method receiver args).1 = none ∧
      ∃ error, (invokeMethod internals memory process method receiver args).2 =
        .error error ∧ IsTypeMismatch error
  /-- A mismatch on the hook side is one here. -/
  agrees : ∀ regs error, IsTypeMismatch error →
    (argsToRegargs internals memory method args regs).2 = .error error →
      (invokeMethod internals memory process method receiver args).2 = .error error

/-! ## The errors of an invocation -/

theorem pack_error {internals : Internals} {process : Process} {context : InvokeContext}
    {idx : UInt8} {arg : InvokeArg} {error : InvokeError}
    (hpack : context.pack internals process idx arg = .error error) :
    ¬ IsTypeMismatch error := by
  cases arg with
  | prim | «instance» | struct | null => cases hpack
  | array elems =>
      cases hpack
      simp [IsTypeMismatch]
  | string text =>
      rcases pack_string internals process context idx text with
        ⟨_, -, -, hok⟩ | ⟨reason, herror⟩ | ⟨reason, herror⟩
      · rw [hok] at hpack
        cases hpack
      · rw [herror] at hpack
        cases hpack
        simp [IsTypeMismatch]
      · rw [herror] at hpack
        cases hpack
        simp [IsTypeMismatch]

theorem packArgs_error {internals : Internals} {process : Process}
    {context : InvokeContext} {idx : ℕ} {args : List InvokeArg} {error : InvokeError}
    (hpacked : packArgs internals process idx context args = .error error) :
    ¬ IsTypeMismatch error := by
  induction args generalizing idx context with
  | nil => cases hpacked
  | cons arg args ih =>
      cases hpack : context.pack internals process (UInt8.ofNat idx) arg with
      | error found =>
          rw [packArgs, hpack] at hpacked
          cases hpacked
          exact pack_error hpack
      | ok next =>
          rw [packArgs, hpack] at hpacked
          exact ih hpacked

theorem thisPtr_error {sig : MethodSignature} {receiver : Option UInt64}
    {error : InvokeError} (hthis : thisPtr sig receiver = .error error) :
    ¬ IsTypeMismatch error := by
  cases receiver with
  | none =>
      rw [thisPtr] at hthis
      split at hthis
      · cases hthis
      · cases hthis
        simp [IsTypeMismatch]
  | some handle =>
      rw [thisPtr] at hthis
      split at hthis
      · cases hthis
      · cases hthis

theorem prepareCall_error {internals : Internals} {memory : Memory UInt8}
    {process : Process} {method : ℕ} {receiver : Option UInt64} {args : List InvokeArg}
    {sig : MethodSignature} (hsig : readSignature internals memory method = .ok sig)
    {error : InvokeError}
    (hprepare : prepareCall internals memory process method receiver args =
      .error error) : ¬ IsTypeMismatch error := by
  rw [prepareCall] at hprepare
  rw [hsig] at hprepare
  cases hctx : internals.ctx with
  | none =>
      rw [hctx] at hprepare
      cases hprepare
      simp [IsTypeMismatch]
  | some cfg =>
  cases hinvoke : process.runtimeInvoke with
  | none =>
      rw [hctx, hinvoke] at hprepare
      cases hprepare
      simp [IsTypeMismatch]
  | some entry =>
      simp only [hctx, hinvoke, bind, Except.bind, pure, Except.pure,
        Option.isNone_some, Bool.false_eq_true, if_false] at hprepare
      split at hprepare
      · cases hprepare
        simp [IsTypeMismatch]
      cases hthis : thisPtr sig receiver with
      | error found =>
          rw [hthis] at hprepare
          cases hprepare
          exact thisPtr_error hthis
      | ok this =>
      cases hpacked : packed internals process args with
      | error found =>
          rw [hthis, hpacked] at hprepare
          cases hprepare
          exact packArgs_error hpacked
      | ok context =>
          rw [hthis, hpacked] at hprepare
          cases hprepare

theorem finishCall_error {internals : Internals} {process : Process}
    {sig : MethodSignature} {outcome : RuntimeOutcome} {error : InvokeError}
    (hfinish : finishCall internals process sig outcome = .error error) :
    ¬ IsTypeMismatch error := by
  rw [finishCall] at hfinish
  split at hfinish
  · cases hfinish
    simp [IsTypeMismatch]
  · rw [unpackReturn] at hfinish
    split at hfinish
    · cases hfinish
    dsimp only at hfinish
    split at hfinish
    · cases hfinish
    · cases hfinish
      simp [IsTypeMismatch]

/-- No invocation answers a type mismatch. -/
theorem invokeMethod_error {internals : Internals} {memory : Memory UInt8}
    {process : Process} {method : ℕ} {receiver : Option UInt64} {args : List InvokeArg}
    {sig : MethodSignature} (hsig : readSignature internals memory method = .ok sig)
    {error : InvokeError}
    (hinvoke : (invokeMethod internals memory process method receiver args).2 =
      .error error) : ¬ IsTypeMismatch error := by
  rw [invokeMethod] at hinvoke
  cases hprepare : prepareCall internals memory process method receiver args with
  | error found =>
      rw [hprepare] at hinvoke
      cases hinvoke
      exact prepareCall_error hsig hprepare
  | ok prepared =>
      rw [hprepare] at hinvoke
      exact finishCall_error hinvoke

/-! ## The hook side -/

/-- Values of the declared types are never answered with a mismatch. -/
theorem writeArgs_error {pairs : List (ValType × InvokeArg)}
    (hwidth : ∀ ty arg, (ty, arg) ∈ pairs → ty.fixedWidth.isSome = true)
    (hmatch : ∀ ty value, (ty, InvokeArg.prim value) ∈ pairs → value.valType = ty)
    {physical : ℕ} {regs : RegArgs} {error : InvokeError}
    (hwrite : (writeArgs pairs physical regs).2 = .error error) :
    ¬ IsTypeMismatch error := by
  induction pairs generalizing physical regs with
  | nil => cases hwrite
  | cons pair pairs ih =>
      obtain ⟨ty, arg⟩ := pair
      cases arg with
      | prim value =>
          have hty := hmatch ty value List.mem_cons_self
          have hfixed := hwidth ty _ List.mem_cons_self
          by_cases hslot : physical < 4
          · rw [writeArgs_writable hslot hfixed hty] at hwrite
            exact ih (fun other arg hmem => hwidth other arg (List.mem_cons_of_mem _ hmem))
              (fun other arg hmem => hmatch other arg (List.mem_cons_of_mem _ hmem)) hwrite
          · rw [writeArgs, argAsValue, if_pos hty] at hwrite
            dsimp only at hwrite
            rw [writeOneArgToRegs, dif_neg hslot] at hwrite
            cases hwrite
            simp [IsTypeMismatch]
      | «instance» | string | struct | array | null =>
          cases hwrite
          simp [IsTypeMismatch]

theorem argsToRegargs_error {internals : Internals} {memory : Memory UInt8} {method : ℕ}
    {sig : MethodSignature} (hsig : readSignature internals memory method = .ok sig)
    {args : List InvokeArg}
    (hmatch : args.length = sig.paramTypes.length → TypesMatch sig.paramTypes args)
    {regs : RegArgs} {error : InvokeError}
    (hwrite : (argsToRegargs internals memory method args regs).2 = .error error) :
    ¬ IsTypeMismatch error := by
  rw [argsToRegargs, hsig] at hwrite
  dsimp only at hwrite
  by_cases hlength : args.length = sig.paramTypes.length
  · rw [if_neg (not_not.mpr hlength)] at hwrite
    apply writeArgs_error _ _ hwrite
    · intro ty arg hmem
      exact (fixedWidth_readSignature hsig).1 ty (List.of_mem_zip hmem).1
    · intro ty value hmem
      obtain ⟨idx, hidx⟩ := List.getElem?_of_mem hmem
      obtain ⟨hty, harg⟩ := List.getElem?_zip_eq_some.mp hidx
      exact hmatch hlength idx ty value hty harg
  · rw [if_pos hlength] at hwrite
    cases hwrite
    simp [IsTypeMismatch]

/-- The arguments of a readable signature are checked as they should exactly if there
is nothing to find: they are too few or too many, or every primitive has its declared
type. -/
theorem checksTypes_iff {internals : Internals} {memory : Memory UInt8} {method : ℕ}
    {sig : MethodSignature} (hsig : readSignature internals memory method = .ok sig)
    (process : Process) (receiver : Option UInt64) (args : List InvokeArg) :
    ChecksTypes internals memory process method receiver args sig ↔
      (args.length = sig.paramTypes.length → TypesMatch sig.paramTypes args) := by
  constructor
  · intro hchecks hlength
    by_contra hmismatch
    obtain ⟨-, error, herror, hkind⟩ := hchecks.rejects hlength hmismatch
    exact invokeMethod_error hsig herror hkind
  · intro hmatch
    refine ⟨fun hreached => ?_, fun hlength hmismatch => absurd (hmatch hlength) hmismatch,
      fun regs error hkind hwrite => absurd hkind (argsToRegargs_error hsig hmatch hwrite)⟩
    obtain ⟨call, hcall⟩ := Option.isSome_iff_exists.mp hreached
    obtain ⟨_, found, hprepared⟩ := invokeMethod_call_iff.mp hcall
    obtain ⟨-, -, hfound, hlength, -⟩ := prepareCall_ok_iff.mp hprepared
    rw [hsig] at hfound
    cases hfound
    exact ⟨hlength, hmatch hlength⟩

/-- A process with the runtime's entry point, where every call returns null. -/
def sampleProcess : Process where
  allocator := .above Cell 0x1000
  heap := ∅
  stringNew := none
  runtimeInvoke := some fun _ => ⟨0, 0, fun _ => 0⟩
  exceptionGetMessage := none

theorem checksTypes_sampleNumber :
    readSignature sampleInternals (sampleMethod 0x0A 0x08) 0x100 =
        .ok ⟨[.i64], .i32, 0x08, true⟩ ∧
      ChecksTypes sampleInternals (sampleMethod 0x0A 0x08) sampleProcess 0x100 none
        [.prim (.i64 5)] ⟨[.i64], .i32, 0x08, true⟩ := by
  refine ⟨rfl, (checksTypes_iff rfl sampleProcess none _).mpr ?_⟩
  intro _ idx ty value hty harg
  match idx with
  | 0 =>
      cases hty
      cases harg
      rfl
  | idx + 1 => cases hty

/-- A method that takes an `i64`, called with one byte: the runtime is called, where a
hook handler would get a type mismatch. -/
theorem not_checksTypes_sampleByte :
    readSignature sampleInternals (sampleMethod 0x0A 0x08) 0x100 =
        .ok ⟨[.i64], .i32, 0x08, true⟩ ∧
      (argsToRegargs sampleInternals (sampleMethod 0x0A 0x08) 0x100 [.prim (.u8 5)]
        sampleContext.regs).2 = .error (.argTypeMismatch 0 .i64 .u8) ∧
      ¬ ChecksTypes sampleInternals (sampleMethod 0x0A 0x08) sampleProcess 0x100 none
        [.prim (.u8 5)] ⟨[.i64], .i32, 0x08, true⟩ := by
  refine ⟨rfl, rfl, fun hchecks => ?_⟩
  have hmatch := (hchecks.fits rfl).2 0 .i64 (.u8 5) rfl rfl
  cases hmatch

end FrogAgent.Invoke
