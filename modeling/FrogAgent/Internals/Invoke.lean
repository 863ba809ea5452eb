import FrogAgent.Hook.ReturnPaths
import FrogAgent.Lib.BlockHeap

/-!
# Method invocation

`invoke_method` of `internals/marshal.rs`: the arguments are packed into an
`InvokeContext`, whose vector of pointers is handed to `il2cpp_runtime_invoke`, and
the returned object or exception becomes the result.  The Rust heap is a heap of
blocks; what the process offers (its allocator and the resolved il2cpp exports) is a
parameter.
-/

namespace FrogAgent.Invoke

open FrogAgent.BlockHeap
open FrogAgent.ByteMemory
open FrogAgent.Error
open FrogAgent.LittleEndian
open FrogAgent.Marshal
open FrogAgent.PackedArg
open FrogAgent.Signature
open FrogAgent.TypedValue

/-- What a block of the Rust heap consists of: the bytes of a slab, the pointers of
`args_ptrs`, or the headers of the slabs in `arg_slabs`. -/
inductive Cell where
  | byte (value : UInt8)
  | pointer (address : ℕ)
  | slab (address length : ℕ)
  deriving DecidableEq

/-- `il2cpp_string_new`: the address of a new managed string, null on failure.  It
leaves the live blocks of the Rust heap alone. -/
structure StringNew where
  call : Heap Cell → List UInt8 → ℕ × Heap Cell
  call_keeps : ∀ heap text, Keeps heap (call heap text).2

/-- The arguments of `il2cpp_runtime_invoke`, with the heap it finds. -/
structure RuntimeCall where
  method : ℕ
  this : ℕ
  argsPtr : ℕ
  heap : Heap Cell

structure RuntimeOutcome where
  retPtr : UInt64
  exc : ℕ
  memory : Memory UInt8

/-- The process around one call: its allocator, its heap and the exports of the game
that were resolved. -/
structure Process where
  allocator : Allocator Cell
  heap : Heap Cell
  stringNew : Option StringNew
  runtimeInvoke : Option (RuntimeCall → RuntimeOutcome)
  exceptionGetMessage : Option (Memory UInt8 → ℕ → ℕ × Memory UInt8)

/-! ## Texts -/

/-- `utf8_to_cstring`: a text with a NUL inside becomes the empty one. -/
def utf8ToCstring (text : String) : List UInt8 :=
  let bytes := text.toUTF8.toList
  if 0 ∈ bytes then [] else bytes

/-- `String::from_utf16_lossy`: unpaired surrogates become replacement characters. -/
def utf16Chars : List ℕ → List Char
  | [] => []
  | [single] =>
      [if 0xD800 ≤ single ∧ single ≤ 0xDFFF then Char.ofNat 0xFFFD else Char.ofNat single]
  | first :: second :: rest =>
      if 0xD800 ≤ first ∧ first ≤ 0xDBFF then
        if 0xDC00 ≤ second ∧ second ≤ 0xDFFF then
          Char.ofNat (0x10000 + (first - 0xD800) * 0x400 + (second - 0xDC00)) ::
            utf16Chars rest
        else Char.ofNat 0xFFFD :: utf16Chars (second :: rest)
      else if 0xDC00 ≤ first ∧ first ≤ 0xDFFF then
        Char.ofNat 0xFFFD :: utf16Chars (second :: rest)
      else Char.ofNat first :: utf16Chars (second :: rest)

def readIl2cppString (internals : Internals) (memory : Memory UInt8) (ptr : ℕ) :
    Option String := do
  if ptr = 0 then none
  let length ← cacheRead internals memory 4 (ptr + 0x10)
  if 8192 < length then none
  let chars ← (List.range length).mapM fun idx =>
    cacheRead internals memory 2 (ptr + 0x14 + idx * 2)
  return String.ofList (utf16Chars chars)

/-! ## Packing -/

/-- `args_ptrs` and `arg_slabs`, with the heap their blocks are in. -/
structure InvokeContext where
  argsPtrs : RawVec
  argSlabs : RawVec
  heap : Heap Cell

def InvokeContext.new (heap : Heap Cell) : InvokeContext := ⟨.new, .new, heap⟩

def InvokeContext.pushPtr (allocator : Allocator Cell) (context : InvokeContext)
    (pointer : ℕ) : InvokeContext :=
  let pushed := context.argsPtrs.push allocator context.heap (.pointer pointer)
  { context with argsPtrs := pushed.2, heap := pushed.1 }

/-- Move the bytes into a slab of their own and push a pointer to it. -/
def InvokeContext.pushSlab (allocator : Allocator Cell) (context : InvokeContext)
    (bytes : List UInt8) : InvokeContext :=
  let slab := allocator.box context.heap (bytes.map .byte)
  let pushed := context.argSlabs.push allocator slab.1 (.slab slab.2 bytes.length)
  let slabbed := { context with argSlabs := pushed.2, heap := pushed.1 }
  slabbed.pushPtr allocator slab.2

def InvokeContext.pack (internals : Internals) (process : Process)
    (context : InvokeContext) (idx : UInt8) :
    InvokeArg → Except InvokeError InvokeContext
  | .prim value => .ok (context.pushSlab process.allocator value.encode)
  | .instance handle =>
      .ok (context.pushSlab process.allocator (leBytes 8 handle.toNat))
  | .null => .ok (context.pushPtr process.allocator 0)
  | .string text => do
      if internals.ctx.isNone then throw (.internalFailure "ctx")
      let stringNew ← match process.stringNew with
        | some stringNew => pure stringNew
        | none =>
            throw (.marshalFailed idx "string_new FFI not available on this build")
      let created := stringNew.call context.heap (utf8ToCstring text)
      if created.1 = 0 then throw (.marshalFailed idx "string_new returned null")
      return { context with heap := created.2 }.pushSlab process.allocator
        (leBytes 8 created.1)
  | .struct bytes => .ok (context.pushSlab process.allocator bytes)
  | .array _ => .error (.marshalFailed idx "Array arg marshalling deferred to tier-2")

/-- The loop over the arguments, from index `idx` on. -/
def packArgs (internals : Internals) (process : Process) :
    ℕ → InvokeContext → List InvokeArg → Except InvokeError InvokeContext
  | _, context, [] => .ok context
  | idx, context, arg :: args =>
      match context.pack internals process (UInt8.ofNat idx) arg with
      | .error error => .error error
      | .ok next => packArgs internals process (idx + 1) next args

/-- The context with all arguments packed. -/
def packed (internals : Internals) (process : Process) (args : List InvokeArg) :
    Except InvokeError InvokeContext :=
  packArgs internals process 0 (.new process.heap) args

/-! ## The call -/

/-- The receiver: static methods ignore it, the others need one. -/
def thisPtr (sig : MethodSignature) (receiver : Option UInt64) : Except InvokeError ℕ :=
  if sig.isStatic then .ok 0
  else
    match receiver with
    | some handle => .ok handle.toNat
    | none => .error .nullInstance

/-- Everything before the runtime is called: its entry point, the signature and the
arguments of the call. -/
def prepareCall (internals : Internals) (memory : Memory UInt8) (process : Process)
    (method : ℕ) (receiver : Option UInt64) (args : List InvokeArg) :
    Except InvokeError ((RuntimeCall → RuntimeOutcome) × MethodSignature × RuntimeCall) :=
  do
    if internals.ctx.isNone then throw (.internalFailure "internals ctx")
    let runtimeInvoke ← match process.runtimeInvoke with
      | some runtimeInvoke => pure runtimeInvoke
      | none =>
          throw (.internalFailure "runtime_invoke FFI not available on this build")
    let sig ← readSignature internals memory method
    if args.length ≠ sig.paramTypes.length then
      throw (.argCountMismatch (UInt8.ofNat sig.paramTypes.length)
        (UInt8.ofNat args.length))
    let this ← thisPtr sig receiver
    let context ← packed internals process args
    let argsPtr := if context.argsPtrs.length = 0 then 0 else context.argsPtrs.address
    return (runtimeInvoke, sig, ⟨method, this, argsPtr, context.heap⟩)

/-- Everything after the runtime returned. -/
def finishCall (internals : Internals) (process : Process) (sig : MethodSignature)
    (outcome : RuntimeOutcome) : Except InvokeError InvokeArg :=
  if outcome.exc ≠ 0 then
    .error (.managedException
      (match process.exceptionGetMessage with
      | some getMessage =>
          let message := getMessage outcome.memory outcome.exc
          (readIl2cppString internals message.2 message.1).getD "<unreadable>"
      | none => "<exception_get_message FFI not available>"))
  else unpackReturn sig.returnType sig.returnTc outcome.memory outcome.retPtr

/-- The call of the runtime, if there was one, and the result. -/
def invokeMethod (internals : Internals) (memory : Memory UInt8) (process : Process)
    (method : ℕ) (receiver : Option UInt64) (args : List InvokeArg) :
    Option RuntimeCall × Except InvokeError InvokeArg :=
  match prepareCall internals memory process method receiver args with
  | .error error => (none, .error error)
  | .ok (runtimeInvoke, sig, call) =>
      (some call, finishCall internals process sig (runtimeInvoke call))

/-! ## What a call needs -/

/-- Packing a string: a slab with the address of the new string, or one of the two
errors. -/
theorem pack_string (internals : Internals) (process : Process) (context : InvokeContext)
    (idx : UInt8) (text : String) :
    (∃ stringNew, process.stringNew = some stringNew ∧
      (stringNew.call context.heap (utf8ToCstring text)).1 ≠ 0 ∧
      context.pack internals process idx (.string text) =
        .ok ({ context with
            heap := (stringNew.call context.heap (utf8ToCstring text)).2 }.pushSlab
          process.allocator
          (leBytes 8 (stringNew.call context.heap (utf8ToCstring text)).1))) ∨
      (∃ reason, context.pack internals process idx (.string text) =
        .error (.internalFailure reason)) ∨
      ∃ reason, context.pack internals process idx (.string text) =
        .error (.marshalFailed idx reason) := by
  rw [InvokeContext.pack]
  cases hctx : internals.ctx with
  | none => exact Or.inr (Or.inl ⟨_, rfl⟩)
  | some cfg =>
  cases hstring : process.stringNew with
  | none => exact Or.inr (Or.inr ⟨_, rfl⟩)
  | some stringNew =>
      simp only [bind, Except.bind, pure, Except.pure, Option.isNone_some,
        Bool.false_eq_true, if_false]
      by_cases hnull : (stringNew.call context.heap (utf8ToCstring text)).1 = 0
      · rw [if_pos hnull]
        exact Or.inr (Or.inr ⟨_, rfl⟩)
      · rw [if_neg hnull]
        exact Or.inl ⟨stringNew, rfl, hnull, rfl⟩

/-- The runtime is called exactly if the context and the export are there, the
signature is readable, the arguments fit it in number, the receiver is there if the
method needs one, and every argument can be packed. -/
theorem prepareCall_ok_iff {internals : Internals} {memory : Memory UInt8}
    {process : Process} {method : ℕ} {receiver : Option UInt64} {args : List InvokeArg}
    {runtimeInvoke : RuntimeCall → RuntimeOutcome} {sig : MethodSignature}
    {call : RuntimeCall} :
    prepareCall internals memory process method receiver args =
        .ok (runtimeInvoke, sig, call) ↔
      internals.ctx.isSome ∧ process.runtimeInvoke = some runtimeInvoke ∧
        readSignature internals memory method = .ok sig ∧
        args.length = sig.paramTypes.length ∧
        ∃ this context, thisPtr sig receiver = .ok this ∧
          packed internals process args = .ok context ∧
          call = ⟨method, this,
            if context.argsPtrs.length = 0 then 0 else context.argsPtrs.address,
            context.heap⟩ := by
  rw [prepareCall]
  cases internals.ctx with
  | none => exact iff_of_false nofun fun hcall => Bool.false_ne_true hcall.1
  | some cfg =>
  cases process.runtimeInvoke with
  | none => exact iff_of_false nofun fun hcall => nomatch hcall.2.1
  | some entry =>
  cases readSignature internals memory method with
  | error error => exact iff_of_false nofun fun hcall => nomatch hcall.2.2.1
  | ok found =>
  by_cases hlength : args.length = found.paramTypes.length
  case neg =>
    simp only [bind, Except.bind, pure, Except.pure, Option.isNone_some, hlength,
      ne_eq, not_false_eq_true, if_true, Bool.false_eq_true, if_false]
    refine iff_of_false nofun fun hcall => hlength ?_
    rw [hcall.2.2.2.1, Except.ok.inj hcall.2.2.1]
  case pos =>
    simp only [bind, Except.bind, pure, Except.pure, Option.isNone_some, hlength,
      ne_eq, not_true_eq_false, Bool.false_eq_true, if_false]
    cases hthis : thisPtr found receiver with
    | error error =>
        refine iff_of_false nofun fun hcall => ?_
        obtain ⟨this, _, hother, -⟩ := hcall.2.2.2.2
        rw [← Except.ok.inj hcall.2.2.1, hthis] at hother
        cases hother
    | ok this =>
    cases packed internals process args with
    | error error =>
        refine iff_of_false nofun fun hcall => ?_
        obtain ⟨_, _, -, hother, -⟩ := hcall.2.2.2.2
        cases hother
    | ok context =>
        constructor
        · intro hcall
          cases hcall
          exact ⟨rfl, rfl, rfl, rfl, this, context, hthis, rfl, rfl⟩
        · rintro ⟨-, hentry, hsig, -, _, _, hother, hpacked, rfl⟩
          cases hentry
          cases hsig
          cases hpacked
          rw [hthis] at hother
          cases hother
          rfl

theorem invokeMethod_call_iff {internals : Internals} {memory : Memory UInt8}
    {process : Process} {method : ℕ} {receiver : Option UInt64} {args : List InvokeArg}
    {call : RuntimeCall} :
    (invokeMethod internals memory process method receiver args).1 = some call ↔
      ∃ runtimeInvoke sig, prepareCall internals memory process method receiver args =
        .ok (runtimeInvoke, sig, call) := by
  rw [invokeMethod]
  cases prepareCall internals memory process method receiver args with
  | error error => exact iff_of_false nofun nofun
  | ok prepared =>
      obtain ⟨entry, found, made⟩ := prepared
      constructor
      · intro hcall
        cases hcall
        exact ⟨entry, found, rfl⟩
      · rintro ⟨_, _, hprepared⟩
        cases hprepared
        rfl

end FrogAgent.Invoke
