import FrogAgent.Hook.HandlerCalls
import FrogAgent.Hook.RegisterConvention

/-!
# Failed argument writes

`hook_arg_write` stores the decoded argument in the context and then lets
`args_to_regargs` write all arguments back to their registers, one after the other,
until one of them is rejected.  Nothing is undone on an error.  This file describes
how far the write-back gets and what it has changed by then.
-/

namespace FrogAgent.ArgWriteback

open FrogAgent.ByteMemory
open FrogAgent.Error
open FrogAgent.HandlerCalls
open FrogAgent.Marshal
open FrogAgent.PackedArg
open FrogAgent.Signature
open FrogAgent.Slots
open FrogAgent.TypedValue

/-! ## Registers -/

/-- The registers after a value of a fixed width was written to a slot. -/
def putValue (regs : RegArgs) (slot : Fin 4) : Value → RegArgs
  | .u8 number => regs.setInt slot number.toUInt64
  | .u16 number => regs.setInt slot number.toUInt64
  | .u32 number => regs.setInt slot number.toUInt64
  | .u64 number => regs.setInt slot number
  | .i8 number => regs.setInt slot number.toInt64.toUInt64
  | .i16 number => regs.setInt slot number.toInt64.toUInt64
  | .i32 number => regs.setInt slot number.toInt64.toUInt64
  | .i64 number => regs.setInt slot number.toUInt64
  | .f32 number => regs.setFloat slot number.toF64
  | .f64 number => regs.setFloat slot number
  | .bytes _ | .cstr _ => regs

/-- The slot holds the value the way the write-back stores it: an integer extended
to the whole register, a single widened to a double. -/
def HoldsValue (regs : RegArgs) (slot : Fin 4) : Value → Prop
  | .u8 number => regs.intArgs slot = number.toUInt64
  | .u16 number => regs.intArgs slot = number.toUInt64
  | .u32 number => regs.intArgs slot = number.toUInt64
  | .u64 number => regs.intArgs slot = number
  | .i8 number => regs.intArgs slot = number.toInt64.toUInt64
  | .i16 number => regs.intArgs slot = number.toInt64.toUInt64
  | .i32 number => regs.intArgs slot = number.toInt64.toUInt64
  | .i64 number => regs.intArgs slot = number.toUInt64
  | .f32 number => regs.floatArgs slot = number.toF64
  | .f64 number => regs.floatArgs slot = number
  | .bytes _ | .cstr _ => True

theorem setInt_eq_self_iff (regs : RegArgs) (slot : Fin 4) (word : UInt64) :
    regs.setInt slot word = regs ↔ regs.intArgs slot = word := by
  constructor
  · intro hsame
    rw [← hsame]
    exact Function.update_self slot word regs.intArgs
  · intro hword
    rw [RegArgs.setInt, ← hword, Function.update_eq_self]

theorem setFloat_eq_self_iff (regs : RegArgs) (slot : Fin 4) (number : F64) :
    regs.setFloat slot number = regs ↔ regs.floatArgs slot = number := by
  constructor
  · intro hsame
    rw [← hsame]
    exact Function.update_self slot number regs.floatArgs
  · intro hnumber
    rw [RegArgs.setFloat, ← hnumber, Function.update_eq_self]

theorem put_eq_self_iff (regs : RegArgs) (slot : Fin 4) (value : Value) :
    putValue regs slot value = regs ↔ HoldsValue regs slot value := by
  cases value with
  | u8 | u16 | u32 | u64 | i8 | i16 | i32 | i64 => exact setInt_eq_self_iff regs slot _
  | f32 | f64 => exact setFloat_eq_self_iff regs slot _
  | bytes | cstr => exact iff_of_true rfl trivial

/-- Two register files agree at a slot. -/
def SameSlot (left right : RegArgs) (slot : Fin 4) : Prop :=
  left.intArgs slot = right.intArgs slot ∧ left.floatArgs slot = right.floatArgs slot

theorem put_sameSlot (regs : RegArgs) {slot other : Fin 4} (hne : other ≠ slot)
    (value : Value) : SameSlot (putValue regs slot value) regs other := by
  cases value with
  | u8 | u16 | u32 | u64 | i8 | i16 | i32 | i64 =>
      exact ⟨Function.update_of_ne hne _ regs.intArgs, rfl⟩
  | f32 | f64 => exact ⟨rfl, Function.update_of_ne hne _ regs.floatArgs⟩
  | bytes | cstr => exact ⟨rfl, rfl⟩

/-- A write that leaves its own slot as it was leaves everything as it was. -/
theorem holdsValue_of_sameSlot {regs : RegArgs} {slot : Fin 4} {value : Value}
    (hsame : SameSlot (putValue regs slot value) regs slot) :
    HoldsValue regs slot value := by
  cases value with
  | u8 | u16 | u32 | u64 | i8 | i16 | i32 | i64 =>
      exact hsame.1.symm.trans (Function.update_self slot _ regs.intArgs)
  | f32 | f64 => exact hsame.2.symm.trans (Function.update_self slot _ regs.floatArgs)
  | bytes | cstr => exact trivial

/-! ## The write-back -/

/-- What `args_to_regargs` writes: a primitive of the declared type, of a fixed
width, in one of the four register slots. -/
def Writable (ty : ValType) (arg : InvokeArg) (physical : ℕ) : Prop :=
  physical < 4 ∧ ty.fixedWidth.isSome = true ∧
    ∃ value, arg = .prim value ∧ value.valType = ty

def AllWritable : List (ValType × InvokeArg) → ℕ → Prop
  | [], _ => True
  | (ty, arg) :: args, physical =>
      Writable ty arg physical ∧ AllWritable args (physical + 1)

/-- The argument is in its register already. -/
def HoldsArg (regs : RegArgs) (arg : InvokeArg) (physical : ℕ) : Prop :=
  ∀ (hslot : physical < 4) (value : Value), arg = .prim value →
    HoldsValue regs ⟨physical, hslot⟩ value

/-- Every argument before the first one that cannot be written is in its register
already. -/
def Settled (regs : RegArgs) : List (ValType × InvokeArg) → ℕ → Prop
  | [], _ => True
  | (ty, arg) :: args, physical => Writable ty arg physical →
      HoldsArg regs arg physical ∧ Settled regs args (physical + 1)

theorem writeOneArgToRegs_put {value : Value}
    (hwidth : value.valType.fixedWidth.isSome = true) {physical : ℕ}
    (hslot : physical < 4) (regs : RegArgs) :
    writeOneArgToRegs value.valType value physical regs =
      .ok (putValue regs ⟨physical, hslot⟩ value) := by
  rw [writeOneArgToRegs, dif_pos hslot]
  cases value with
  | u8 | u16 | u32 | u64 | i8 | i16 | i32 | i64 | f32 | f64 => rfl
  | bytes | cstr => exact absurd hwidth Bool.false_ne_true

theorem writeArgs_writable {ty : ValType} {value : Value} {physical : ℕ}
    (hslot : physical < 4) (hwidth : ty.fixedWidth.isSome = true)
    (hty : value.valType = ty) (args : List (ValType × InvokeArg)) (regs : RegArgs) :
    writeArgs ((ty, .prim value) :: args) physical regs =
      writeArgs args (physical + 1) (putValue regs ⟨physical, hslot⟩ value) := by
  subst hty
  rw [writeArgs, argAsValue, if_pos rfl]
  dsimp only
  rw [writeOneArgToRegs_put hwidth hslot]

theorem writeOneArgToRegs_error {value : Value} {physical : ℕ} (regs : RegArgs)
    (hrejected : ¬ (physical < 4 ∧ value.valType.fixedWidth.isSome = true)) :
    ∃ error, writeOneArgToRegs value.valType value physical regs = .error error := by
  rw [writeOneArgToRegs]
  by_cases hslot : physical < 4
  · rw [dif_pos hslot]
    cases value with
    | u8 | u16 | u32 | u64 | i8 | i16 | i32 | i64 | f32 | f64 =>
        exact absurd ⟨hslot, rfl⟩ hrejected
    | bytes | cstr => exact ⟨_, rfl⟩
  · rw [dif_neg hslot]
    exact ⟨_, rfl⟩

/-- The loop stops at an argument that cannot be written. -/
theorem writeArgs_rejected {ty : ValType} {arg : InvokeArg} {physical : ℕ}
    (hrejected : ¬ Writable ty arg physical) (args : List (ValType × InvokeArg))
    (regs : RegArgs) :
    ∃ error, writeArgs ((ty, arg) :: args) physical regs = (regs, .error error) := by
  cases arg with
  | prim value =>
      rw [writeArgs, argAsValue]
      by_cases hty : value.valType = ty
      · subst hty
        have hone : ¬ (physical < 4 ∧ value.valType.fixedWidth.isSome = true) :=
          fun hfits => hrejected ⟨hfits.1, hfits.2, value, rfl, rfl⟩
        obtain ⟨error, herror⟩ := writeOneArgToRegs_error regs hone
        rw [if_pos rfl]
        dsimp only
        rw [herror]
        exact ⟨error, rfl⟩
      · rw [if_neg hty]
        exact ⟨_, rfl⟩
  | «instance» | string | struct | array | null => exact ⟨_, rfl⟩

theorem writeArgs_ok_iff (args : List (ValType × InvokeArg)) (physical : ℕ)
    (regs : RegArgs) :
    (writeArgs args physical regs).2 = .ok () ↔ AllWritable args physical := by
  induction args generalizing physical regs with
  | nil => exact iff_of_true rfl trivial
  | cons head args ih =>
      obtain ⟨ty, arg⟩ := head
      by_cases hwritable : Writable ty arg physical
      · obtain ⟨hslot, hwidth, value, rfl, hty⟩ := id hwritable
        rw [writeArgs_writable hslot hwidth hty, ih, AllWritable]
        exact (and_iff_right hwritable).symm
      · obtain ⟨error, herror⟩ := writeArgs_rejected hwritable args regs
        rw [herror]
        exact iff_of_false nofun fun hall => hwritable hall.1

/-- The slots below the first argument are not touched. -/
theorem writeArgs_sameSlot (args : List (ValType × InvokeArg)) {physical : ℕ}
    (regs : RegArgs) {slot : Fin 4} (hbelow : slot.val < physical) :
    SameSlot (writeArgs args physical regs).1 regs slot := by
  induction args generalizing physical regs with
  | nil => exact ⟨rfl, rfl⟩
  | cons head args ih =>
      obtain ⟨ty, arg⟩ := head
      by_cases hwritable : Writable ty arg physical
      · obtain ⟨hslot, hwidth, value, rfl, hty⟩ := hwritable
        have hne : slot ≠ ⟨physical, hslot⟩ :=
          fun hequal => absurd (congrArg Fin.val hequal) (Nat.ne_of_lt hbelow)
        obtain ⟨hint, hfloat⟩ := ih (putValue regs ⟨physical, hslot⟩ value)
          (Nat.lt_succ_of_lt hbelow)
        obtain ⟨hint', hfloat'⟩ := put_sameSlot regs hne value
        rw [writeArgs_writable hslot hwidth hty]
        exact ⟨hint.trans hint', hfloat.trans hfloat'⟩
      · obtain ⟨error, herror⟩ := writeArgs_rejected hwritable args regs
        rw [herror]
        exact ⟨rfl, rfl⟩

/-- The write-back leaves the registers alone exactly if everything it writes is
there already: each slot is written once. -/
theorem writeArgs_kept_iff (args : List (ValType × InvokeArg)) (physical : ℕ)
    (regs : RegArgs) :
    (writeArgs args physical regs).1 = regs ↔ Settled regs args physical := by
  induction args generalizing physical regs with
  | nil => exact iff_of_true rfl trivial
  | cons head args ih =>
      obtain ⟨ty, arg⟩ := head
      by_cases hwritable : Writable ty arg physical
      · obtain ⟨hslot, hwidth, value, rfl, hty⟩ := id hwritable
        rw [writeArgs_writable hslot hwidth hty, Settled]
        constructor
        · intro hkept _
          have hlater : SameSlot regs (putValue regs ⟨physical, hslot⟩ value)
              ⟨physical, hslot⟩ := by
            have hbelow : SameSlot (writeArgs args (physical + 1)
                (putValue regs ⟨physical, hslot⟩ value)).1
                (putValue regs ⟨physical, hslot⟩ value) ⟨physical, hslot⟩ :=
              writeArgs_sameSlot args _ (Nat.lt_succ_self physical)
            rwa [hkept] at hbelow
          have hholds : HoldsValue regs ⟨physical, hslot⟩ value :=
            holdsValue_of_sameSlot ⟨hlater.1.symm, hlater.2.symm⟩
          rw [(put_eq_self_iff regs _ value).mpr hholds] at hkept
          refine ⟨?_, (ih (physical + 1) regs).mp hkept⟩
          intro _ other hother
          cases hother
          exact hholds
        · intro hsettled
          obtain ⟨hholds, hrest⟩ := hsettled hwritable
          rw [(put_eq_self_iff regs _ value).mpr (hholds hslot value rfl)]
          exact (ih (physical + 1) regs).mpr hrest
      · obtain ⟨error, herror⟩ := writeArgs_rejected hwritable args regs
        rw [herror]
        exact iff_of_true rfl fun hwrite => absurd hwrite hwritable

/-! ## The host call -/

/-- The arguments can be written back as a whole. -/
def WritesBack (game : Game) (method : ℕ) (args : List InvokeArg) : Prop :=
  ∃ sig, readSignature game.internals game.hooks.memory method = .ok sig ∧
    args.length = sig.paramTypes.length ∧
      AllWritable (sig.paramTypes.zip args) (regOffset sig)

/-- Whatever the write-back gets to write is in the registers already. -/
def RegistersSettled (game : Game) (method : ℕ) (args : List InvokeArg)
    (regs : RegArgs) : Prop :=
  ∀ sig, readSignature game.internals game.hooks.memory method = .ok sig →
    args.length = sig.paramTypes.length →
      Settled regs (sig.paramTypes.zip args) (regOffset sig)

/-- A failed `hook_arg_write` leaves the context as it was. -/
def ArgWriteAtomic (game : Game) (current : CurrentContext) (argIdx : ℕ)
    (bytes : List UInt8) : Prop :=
  ∀ error, (hookArgWrite game current argIdx bytes).2 = .error error →
    (hookArgWrite game current argIdx bytes).1 = current

theorem argsToRegargs_ok_iff (game : Game) (method : ℕ) (args : List InvokeArg)
    (regs : RegArgs) :
    (argsToRegargs game.internals game.hooks.memory method args regs).2 = .ok () ↔
      WritesBack game method args := by
  rw [argsToRegargs, WritesBack]
  cases readSignature game.internals game.hooks.memory method with
  | error error =>
      apply iff_of_false
      · intro hok
        cases hok
      · rintro ⟨sig, hsig, -⟩
        cases hsig
  | ok sig =>
      by_cases hlength : args.length = sig.paramTypes.length
      · simp only [ne_eq, hlength, not_true_eq_false, if_false, Except.ok.injEq,
          exists_eq_left', true_and]
        exact writeArgs_ok_iff _ _ _
      · simp only [ne_eq, hlength, not_false_eq_true, if_true, Except.ok.injEq,
          exists_eq_left', false_and, reduceCtorEq]

theorem argsToRegargs_kept_iff (game : Game) (method : ℕ) (args : List InvokeArg)
    (regs : RegArgs) :
    (argsToRegargs game.internals game.hooks.memory method args regs).1 = regs ↔
      RegistersSettled game method args regs := by
  rw [argsToRegargs, RegistersSettled]
  cases readSignature game.internals game.hooks.memory method with
  | error error =>
      apply iff_of_true rfl
      intro sig hsig
      cases hsig
  | ok sig =>
      by_cases hlength : args.length = sig.paramTypes.length
      · simp only [ne_eq, hlength, not_true_eq_false, if_false, Except.ok.injEq,
          forall_eq', true_imp_iff]
        exact writeArgs_kept_iff _ _ _
      · simp only [ne_eq, hlength, not_false_eq_true, if_true, Except.ok.injEq,
          forall_eq', false_imp_iff]

/-- Storing an argument keeps the list exactly if it was stored before. -/
theorem set_eq_self_iff {args : List InvokeArg} {argIdx : ℕ} {arg : InvokeArg}
    (hrange : argIdx < args.length) :
    args.set argIdx arg = args ↔ args[argIdx]? = some arg := by
  constructor
  · intro hsame
    rw [← hsame, List.getElem?_set_self hrange]
  · intro hstored
    obtain ⟨hidx, rfl⟩ := List.getElem?_eq_some_iff.mp hstored
    exact List.set_getElem_self hidx

theorem hookArgWrite_stored {game : Game} {current : CurrentContext} {argIdx used : ℕ}
    {bytes : List UInt8} {decoded : InvokeArg}
    (hdecode : InvokeArg.decode bytes = some (decoded, used))
    (hrange : argIdx < current.args.length) :
    hookArgWrite game current argIdx bytes =
      ({ current with
          args := current.args.set argIdx decoded
          regs := (argsToRegargs game.internals game.hooks.memory current.method
            (current.args.set argIdx decoded) current.regs).1 },
        (argsToRegargs game.internals game.hooks.memory current.method
          (current.args.set argIdx decoded) current.regs).2) := by
  simp only [hookArgWrite, hdecode, if_neg (Nat.not_le_of_lt hrange)]

theorem hookArgWrite_not_stored {game : Game} {current : CurrentContext} {argIdx : ℕ}
    {bytes : List UInt8}
    (hrejected : InvokeArg.decode bytes = none ∨ current.args.length ≤ argIdx) :
    (hookArgWrite game current argIdx bytes).1 = current := by
  rw [hookArgWrite]
  split
  · rfl
  · rename_i decoded used hdecode
    rw [if_pos (hrejected.resolve_left (by rw [hdecode]; nofun))]

/-- The context after a failed write-back. -/
theorem stored_eq_self_iff (game : Game) (current : CurrentContext) {argIdx : ℕ}
    {decoded : InvokeArg} (hrange : argIdx < current.args.length) :
    { current with
        args := current.args.set argIdx decoded
        regs := (argsToRegargs game.internals game.hooks.memory current.method
          (current.args.set argIdx decoded) current.regs).1 } = current ↔
      current.args[argIdx]? = some decoded ∧
        RegistersSettled game current.method current.args current.regs := by
  rw [← set_eq_self_iff hrange, ← argsToRegargs_kept_iff]
  constructor
  · intro hsame
    have hargs := congrArg CurrentContext.args hsame
    have hregs := congrArg CurrentContext.regs hsame
    dsimp only at hargs hregs
    rw [hargs] at hregs
    exact ⟨hargs, hregs⟩
  · rintro ⟨hargs, hregs⟩
    rw [hargs, hregs]

/-- The claim on a call that gets to store its argument. -/
theorem argWriteAtomic_stored_iff {game : Game} {current : CurrentContext}
    {argIdx used : ℕ} {bytes : List UInt8} {decoded : InvokeArg}
    (hdecode : InvokeArg.decode bytes = some (decoded, used))
    (hrange : argIdx < current.args.length) :
    ArgWriteAtomic game current argIdx bytes ↔
      WritesBack game current.method (current.args.set argIdx decoded) ∨
        current.args[argIdx]? = some decoded ∧
          RegistersSettled game current.method current.args current.regs := by
  rw [ArgWriteAtomic, hookArgWrite_stored hdecode hrange,
    stored_eq_self_iff game current hrange, ← argsToRegargs_ok_iff game
      current.method (current.args.set argIdx decoded) current.regs]
  cases (argsToRegargs game.internals game.hooks.memory current.method
      (current.args.set argIdx decoded) current.regs).2 with
  | ok value => exact iff_of_true nofun (Or.inl rfl)
  | error error =>
      constructor
      · intro hkept
        exact Or.inr (hkept error rfl)
      · intro hcases _ _
        exact hcases.resolve_left nofun

/-- `hook_set_arg` is atomic on error exactly if it does not get to store the
argument (the buffer does not decode, or the index is out of range), or the updated
arguments can be written back as a whole, or the argument equals the stored one and
the registers hold already what the write-back writes before it stops. -/
theorem argWriteAtomic_iff (game : Game) (current : CurrentContext) (argIdx : ℕ)
    (bytes : List UInt8) :
    ArgWriteAtomic game current argIdx bytes ↔
      InvokeArg.decode bytes = none ∨ current.args.length ≤ argIdx ∨
        ∃ decoded used, InvokeArg.decode bytes = some (decoded, used) ∧
          (WritesBack game current.method (current.args.set argIdx decoded) ∨
            current.args[argIdx]? = some decoded ∧
              RegistersSettled game current.method current.args current.regs) := by
  by_cases hrejected : InvokeArg.decode bytes = none ∨ current.args.length ≤ argIdx
  · have hatomic : ArgWriteAtomic game current argIdx bytes :=
      fun _ _ => hookArgWrite_not_stored hrejected
    exact iff_of_true hatomic (or_assoc.mp (Or.inl hrejected))
  · obtain ⟨hsome, hrange⟩ := not_or.mp hrejected
    obtain ⟨⟨decoded, used⟩, hdecode⟩ := Option.ne_none_iff_exists'.mp hsome
    rw [argWriteAtomic_stored_iff hdecode (Nat.lt_of_not_le hrange)]
    constructor
    · intro hcases
      exact Or.inr (Or.inr ⟨decoded, used, hdecode, hcases⟩)
    · rintro (hnone | hout | ⟨other, count, hother, hcases⟩)
      · exact absurd hnone hsome
      · exact absurd hout hrange
      · rw [hdecode, Option.some.injEq, Prod.mk.injEq] at hother
        rw [hother.1]
        exact hcases

/-! ## A handler that stores a value of another type -/

/-- A process with a static method at `0x100` that takes an `i32`. -/
def sampleGame : Game where
  internals := sampleInternals
  hooks := HookState.initial (sampleMethod 0x08 0x08)
  original := fun _ _ => (0, zeroFloat)

/-- The context of a handler of that method, called with 7. -/
def sampleContext : CurrentContext where
  method := 0x100
  regs := ⟨0, fun _ => 7, fun _ => zeroFloat, 0, 0, zeroFloat⟩
  args := [.prim (.i32 7)]
  explicitReturn := none
  calledOriginal := false

/-- `hook_set_arg(0, u8 5)` fails with a type mismatch, and the context keeps the
rejected argument. -/
theorem not_argWriteAtomic_mismatch :
    regargsToArgs sampleGame.internals sampleGame.hooks.memory sampleContext.method
        sampleContext.regs = .ok sampleContext.args ∧
      ¬ ArgWriteAtomic sampleGame sampleContext 0 [0, 5] := by
  refine ⟨rfl, fun hatomic => ?_⟩
  have hcall : hookArgWrite sampleGame sampleContext 0 [0, 5] =
      ({ sampleContext with args := [.prim (.u8 5)] },
        .error (.argTypeMismatch 0 .i32 .u8)) := rfl
  have hargs := congrArg CurrentContext.args (hatomic _ (congrArg Prod.snd hcall))
  rw [hcall] at hargs
  exact absurd hargs nofun

end FrogAgent.ArgWriteback
