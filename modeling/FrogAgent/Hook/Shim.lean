import FrogAgent.Lib.X64
import Mathlib.Tactic.FinCases

/-!
# The assembly around `dispatch_rust`

The thunk, `universal_shim` and `call_trampoline_with_regargs`, each up to the
call that leaves it and from there to its return, in the sections of the source.
The compiled `dispatch_rust` between them is a parameter: what is known of it is
that it hands the register block on and does not look at the caller's stack.
-/

namespace FrogAgent.Shim

open FrogAgent.X64

/-! ## The routines -/

/-- `mov r10, method_id; mov r11, universal_shim`, before the jump. -/
def thunk (methodId shimAddr : Word) : List Instr :=
  [.movImm .r10 methodId, .movImm .r11 shimAddr]

def shimPrologue : List Instr :=
  [.push .rbp, .mov .rbp .rsp, .sub .rsp 112]

/-- The fields of `RegArgs` from the registers. -/
def shimCapture : List Instr :=
  [.store .rsp 0 .r10,
    .store .rsp 8 .rcx, .store .rsp 16 .rdx, .store .rsp 24 .r8,
    .store .rsp 32 .r9,
    .storeXmm .rsp 40 0, .storeXmm .rsp 48 1, .storeXmm .rsp 56 2,
    .storeXmm .rsp 64 3]

/-- The pointer to the stack arguments, and the call. -/
def shimDispatch (returnToShim : Word) : List Instr :=
  [.lea .r11 .rbp 16, .store .rsp 72 .r11,
    .load .rcx .rsp 0, .mov .rdx .rsp, .sub .rsp 32, .call returnToShim]

def universalShim (returnToShim : Word) : List Instr :=
  shimPrologue ++ shimCapture ++ shimDispatch returnToShim

def universalShimReturn : List Instr :=
  [.add .rsp 32, .load .rax .rsp 80, .loadXmm 0 .rsp 88,
    .mov .rsp .rbp, .pop .rbp, .ret]

def replayPrologue : List Instr :=
  [.push .rbx, .sub .rsp 32, .mov .rax .rcx, .mov .rbx .rdx]

def replayLoads : List Instr :=
  [.load .r8 .rdx 24, .load .r9 .rdx 32,
    .loadXmm 0 .rdx 40, .loadXmm 1 .rdx 48, .loadXmm 2 .rdx 56,
    .loadXmm 3 .rdx 64,
    .load .rcx .rdx 8, .load .rdx .rdx 16]

def callTrampolineWithRegargs (returnToReplay : Word) : List Instr :=
  replayPrologue ++ replayLoads ++ [.call returnToReplay]

def callTrampolineReturn : List Instr :=
  [.store .rbx 80 .rax, .storeXmm .rbx 88 0, .add .rsp 32, .pop .rbx, .ret]

/-! ## Argument positions -/

/-- The integer argument registers. -/
def intReg : Fin 4 → Reg
  | 0 => .rcx
  | 1 => .rdx
  | 2 => .r8
  | 3 => .r9

/-- Offsets of `int_args` and `float_args` in `RegArgs`. -/
def intOffset : Fin 4 → Word
  | 0 => 8
  | 1 => 16
  | 2 => 24
  | 3 => 32

def floatOffset : Fin 4 → Word
  | 0 => 40
  | 1 => 48
  | 2 => 56
  | 3 => 64

/-- The fifth and later arguments, at `[rsp + 0x28]` and up on entry. -/
def stackArg (cpu : Cpu) (index : ℕ) : Word :=
  cpu.memory (cpu.reg .rsp + 0x28 + 8 * BitVec.ofNat 64 index)

/-- An offset of one of the eight argument words in `RegArgs`. -/
def InBlock (offset : Word) : Prop := 8 ≤ offset.toNat ∧ offset.toNat ≤ 64

theorem inBlock_intOffset (slot : Fin 4) : InBlock (intOffset slot) := by
  fin_cases slot <;> simp [InBlock, intOffset]

theorem inBlock_floatOffset (slot : Fin 4) : InBlock (floatOffset slot) := by
  fin_cases slot <;> simp [InBlock, floatOffset]

/-! ## What the routines do -/

attribute [local simp] Instr.exec pushWord intReg intOffset floatOffset
attribute [local simp] addresses Instr.address

theorem rsp_shimPrologue (cpu : Cpu) :
    (exec shimPrologue cpu).reg .rsp = cpu.reg .rsp - 120 := by
  simp only [shimPrologue, exec_cons, exec_nil, Instr.exec, pushWord,
    Cpu.reg_set, Cpu.reg_write, if_true, reduceCtorEq, if_false]
  bv_omega

theorem intReg_shimPrologue (cpu : Cpu) (slot : Fin 4) :
    (exec shimPrologue cpu).reg (intReg slot) = cpu.reg (intReg slot) := by
  fin_cases slot <;> simp [shimPrologue]

theorem xmm_shimPrologue (cpu : Cpu) :
    (exec shimPrologue cpu).xmm = cpu.xmm := by
  simp [shimPrologue]

theorem reg_shimCapture (cpu : Cpu) :
    (exec shimCapture cpu).reg = cpu.reg := by
  simp [shimCapture]

/-- The captured block holds the argument registers. -/
theorem memory_shimCapture (cpu : Cpu) (slot : Fin 4) :
    (exec shimCapture cpu).memory (cpu.reg .rsp + intOffset slot) =
        cpu.reg (intReg slot) ∧
      (exec shimCapture cpu).memory (cpu.reg .rsp + floatOffset slot) =
        cpu.xmm slot := by
  fin_cases slot <;> simp [shimCapture]

theorem reg_shimDispatch (cpu : Cpu) (returnToShim : Word) :
    (exec (shimDispatch returnToShim) cpu).reg .rdx = cpu.reg .rsp ∧
      (exec (shimDispatch returnToShim) cpu).reg .rsp =
        cpu.reg .rsp - 40 := by
  simp only [shimDispatch, exec_cons, exec_nil, Instr.exec, pushWord,
    Cpu.reg_set, Cpu.reg_write, if_true, reduceCtorEq, if_false, true_and]
  bv_omega

theorem addresses_shimPrologue (cpu : Cpu) :
    addresses shimPrologue cpu = [cpu.reg .rsp - 8] := by
  simp [shimPrologue]

theorem addresses_shimCapture (cpu : Cpu) :
    addresses shimCapture cpu =
      [0, 8, 16, 24, 32, 40, 48, 56, 64].map (cpu.reg .rsp + ·) := by
  simp [shimCapture]

theorem addresses_shimDispatch (cpu : Cpu) (returnToShim : Word) :
    addresses (shimDispatch returnToShim) cpu =
      [cpu.reg .rsp + 72, cpu.reg .rsp, cpu.reg .rsp - 32 - 8] := by
  simp [shimDispatch]

/-- The call of `dispatch_rust` leaves the argument words alone. -/
theorem memory_shimDispatch (cpu : Cpu) (returnToShim : Word) {offset : Word}
    (hoffset : InBlock offset) :
    (exec (shimDispatch returnToShim) cpu).memory (cpu.reg .rsp + offset) =
      cpu.memory (cpu.reg .rsp + offset) := by
  obtain ⟨hlow, hhigh⟩ := hoffset
  apply memory_exec
  rw [addresses_shimDispatch]
  simp only [List.mem_cons, List.not_mem_nil, or_false, not_or]
  refine ⟨?_, ?_, ?_⟩ <;> bv_omega

theorem reg_replayPrologue (cpu : Cpu) :
    (exec replayPrologue cpu).reg .rax = cpu.reg .rcx ∧
      (exec replayPrologue cpu).reg .rdx = cpu.reg .rdx ∧
      (exec replayPrologue cpu).reg .rsp = cpu.reg .rsp - 40 := by
  simp only [replayPrologue, exec_cons, exec_nil, Instr.exec, pushWord,
    Cpu.reg_set, Cpu.reg_write, if_true, reduceCtorEq, if_false, true_and]
  bv_omega

theorem memory_replayPrologue (cpu : Cpu) (address : Word) :
    (exec replayPrologue cpu).memory address =
      if address = cpu.reg .rsp - 8 then cpu.reg .rbx
      else cpu.memory address := by
  simp [replayPrologue]

/-- The argument registers are loaded from the block `rdx` points to. -/
theorem reg_replayLoads (cpu : Cpu) (slot : Fin 4) :
    (exec replayLoads cpu).reg (intReg slot) =
        cpu.memory (cpu.reg .rdx + intOffset slot) ∧
      (exec replayLoads cpu).xmm slot =
        cpu.memory (cpu.reg .rdx + floatOffset slot) := by
  fin_cases slot <;> simp [replayLoads]

theorem frame_replayLoads (cpu : Cpu) :
    (exec replayLoads cpu).reg .rax = cpu.reg .rax ∧
      (exec replayLoads cpu).reg .rsp = cpu.reg .rsp ∧
      (exec replayLoads cpu).memory = cpu.memory := by
  simp [replayLoads]

/-- Behind the trampoline call, `rbx` still points to the block: the results go
into its return slots. -/
theorem memory_callTrampolineReturn (cpu : Cpu) :
    let returned := exec callTrampolineReturn cpu
    returned.memory (cpu.reg .rbx + 80) = cpu.reg .rax ∧
      returned.memory (cpu.reg .rbx + 88) = cpu.xmm 0 ∧
      returned.reg .rsp = cpu.reg .rsp + 32 + 8 + 8 := by
  simp [callTrampolineReturn]

/-- The shim returns what the return slots of its block hold. -/
theorem reg_universalShimReturn (cpu : Cpu) :
    let returned := exec universalShimReturn cpu
    returned.reg .rax = cpu.memory (cpu.reg .rsp + 32 + 80) ∧
      returned.xmm 0 = cpu.memory (cpu.reg .rsp + 32 + 88) ∧
      returned.reg .rbp = cpu.memory (cpu.reg .rbp) ∧
      returned.reg .rsp = cpu.reg .rbp + 8 + 8 := by
  simp [universalShimReturn]

end FrogAgent.Shim
