import Mathlib.Data.BitVec

/-!
# Straight-line x86-64

Registers, the low halves of four vector registers and a memory of aligned
quadwords, with the instructions of hand-written call glue.  Only data is
modelled: a block ends where control leaves it, and a call pushes the address
behind it.
-/

namespace FrogAgent.X64

abbrev Word := BitVec 64

inductive Reg where
  | rax | rbx | rcx | rdx | rbp | rsp | r8 | r9 | r10 | r11
  deriving DecidableEq

/-- `memory` gives the quadword at an address; `xmm` the low 64 bits. -/
structure Cpu where
  reg : Reg → Word
  xmm : Fin 4 → Word
  memory : Word → Word

namespace Cpu

def set (cpu : Cpu) (dst : Reg) (word : Word) : Cpu :=
  { cpu with reg := Function.update cpu.reg dst word }

def setXmm (cpu : Cpu) (dst : Fin 4) (word : Word) : Cpu :=
  { cpu with xmm := Function.update cpu.xmm dst word }

def write (cpu : Cpu) (address word : Word) : Cpu :=
  { cpu with memory := Function.update cpu.memory address word }

@[simp]
theorem reg_set (cpu : Cpu) (dst other : Reg) (word : Word) :
    (cpu.set dst word).reg other = if other = dst then word else cpu.reg other :=
  Function.update_apply cpu.reg dst word other

@[simp]
theorem xmm_set (cpu : Cpu) (dst : Reg) (word : Word) :
    (cpu.set dst word).xmm = cpu.xmm := rfl

@[simp]
theorem memory_set (cpu : Cpu) (dst : Reg) (word : Word) :
    (cpu.set dst word).memory = cpu.memory := rfl

@[simp]
theorem reg_setXmm (cpu : Cpu) (dst : Fin 4) (word : Word) :
    (cpu.setXmm dst word).reg = cpu.reg := rfl

@[simp]
theorem xmm_setXmm (cpu : Cpu) (dst other : Fin 4) (word : Word) :
    (cpu.setXmm dst word).xmm other =
      if other = dst then word else cpu.xmm other :=
  Function.update_apply cpu.xmm dst word other

@[simp]
theorem memory_setXmm (cpu : Cpu) (dst : Fin 4) (word : Word) :
    (cpu.setXmm dst word).memory = cpu.memory := rfl

@[simp]
theorem reg_write (cpu : Cpu) (address word : Word) :
    (cpu.write address word).reg = cpu.reg := rfl

@[simp]
theorem xmm_write (cpu : Cpu) (address word : Word) :
    (cpu.write address word).xmm = cpu.xmm := rfl

@[simp]
theorem memory_write (cpu : Cpu) (address other word : Word) :
    (cpu.write address word).memory other =
      if other = address then word else cpu.memory other :=
  Function.update_apply cpu.memory address word other

/-- Writes to different addresses commute. -/
theorem write_comm (cpu : Cpu) {first second : Word} (hne : first ≠ second)
    (left right : Word) :
    (cpu.write first left).write second right =
      (cpu.write second right).write first left := by
  simp only [write, Function.update_comm hne]

end Cpu

inductive Instr where
  | push (src : Reg)
  | pop (dst : Reg)
  | mov (dst src : Reg)
  | movImm (dst : Reg) (imm : Word)
  | load (dst base : Reg) (disp : Word)
  | store (base : Reg) (disp : Word) (src : Reg)
  | loadXmm (dst : Fin 4) (base : Reg) (disp : Word)
  | storeXmm (base : Reg) (disp : Word) (src : Fin 4)
  | lea (dst base : Reg) (disp : Word)
  | add (dst : Reg) (imm : Word)
  | sub (dst : Reg) (imm : Word)
  | call (returnAddress : Word)
  | ret

def pushWord (cpu : Cpu) (word : Word) : Cpu :=
  (cpu.set .rsp (cpu.reg .rsp - 8)).write (cpu.reg .rsp - 8) word

def Instr.exec (cpu : Cpu) : Instr → Cpu
  | .push src => pushWord cpu (cpu.reg src)
  | .pop dst =>
      (cpu.set .rsp (cpu.reg .rsp + 8)).set dst (cpu.memory (cpu.reg .rsp))
  | .mov dst src => cpu.set dst (cpu.reg src)
  | .movImm dst imm => cpu.set dst imm
  | .load dst base disp => cpu.set dst (cpu.memory (cpu.reg base + disp))
  | .store base disp src => cpu.write (cpu.reg base + disp) (cpu.reg src)
  | .loadXmm dst base disp => cpu.setXmm dst (cpu.memory (cpu.reg base + disp))
  | .storeXmm base disp src => cpu.write (cpu.reg base + disp) (cpu.xmm src)
  | .lea dst base disp => cpu.set dst (cpu.reg base + disp)
  | .add dst imm => cpu.set dst (cpu.reg dst + imm)
  | .sub dst imm => cpu.set dst (cpu.reg dst - imm)
  | .call returnAddress => pushWord cpu returnAddress
  | .ret => cpu.set .rsp (cpu.reg .rsp + 8)

def exec (code : List Instr) (cpu : Cpu) : Cpu := code.foldl Instr.exec cpu

@[simp]
theorem exec_nil (cpu : Cpu) : exec [] cpu = cpu := rfl

@[simp]
theorem exec_cons (instr : Instr) (code : List Instr) (cpu : Cpu) :
    exec (instr :: code) cpu = exec code (instr.exec cpu) := rfl

theorem exec_append (first second : List Instr) (cpu : Cpu) :
    exec (first ++ second) cpu = exec second (exec first cpu) :=
  List.foldl_append

/-! ## Frame rule -/

/-- The address an instruction reads or writes. -/
def Instr.address (cpu : Cpu) : Instr → Option Word
  | .push _ | .call _ => some (cpu.reg .rsp - 8)
  | .pop _ => some (cpu.reg .rsp)
  | .load _ base disp | .store base disp _ => some (cpu.reg base + disp)
  | .loadXmm _ base disp | .storeXmm base disp _ => some (cpu.reg base + disp)
  | .mov _ _ | .movImm _ _ | .lea _ _ _ | .add _ _ | .sub _ _ | .ret => none

/-- The addresses a block reads or writes. -/
def addresses : List Instr → Cpu → List Word
  | [], _ => []
  | instr :: code, cpu =>
      (instr.address cpu).toList ++ addresses code (instr.exec cpu)

theorem addresses_append (first second : List Instr) (cpu : Cpu) :
    addresses (first ++ second) cpu =
      addresses first cpu ++ addresses second (exec first cpu) := by
  induction first generalizing cpu with
  | nil => rfl
  | cons instr code ih =>
      rw [List.cons_append, addresses, ih, addresses, List.append_assoc]
      rfl

theorem pushWord_write {cpu : Cpu} {address : Word}
    (hne : address ≠ cpu.reg .rsp - 8) (word pushed : Word) :
    pushWord (cpu.write address word) pushed =
      (pushWord cpu pushed).write address word :=
  Cpu.write_comm (cpu.set .rsp (cpu.reg .rsp - 8)) hne word pushed

theorem Instr.exec_write {instr : Instr} {cpu : Cpu} {address : Word}
    (hapart : address ∉ instr.address cpu) (word : Word) :
    instr.exec (cpu.write address word) =
      (instr.exec cpu).write address word := by
  have hne : ∀ other, instr.address cpu = some other → address ≠ other := by
    intro other hother hsame
    exact hapart (hsame ▸ hother)
  cases instr with
  | push src => exact pushWord_write (hne _ rfl) word (cpu.reg src)
  | call returnAddress => exact pushWord_write (hne _ rfl) word returnAddress
  | store base disp src => exact Cpu.write_comm _ (hne _ rfl) _ _
  | storeXmm base disp src => exact Cpu.write_comm _ (hne _ rfl) _ _
  | pop dst =>
      simp only [Instr.exec, Cpu.memory_write, Cpu.reg_write,
        if_neg (hne _ rfl).symm]
      rfl
  | load dst base disp =>
      simp only [Instr.exec, Cpu.memory_write, Cpu.reg_write,
        if_neg (hne _ rfl).symm]
      rfl
  | loadXmm dst base disp =>
      simp only [Instr.exec, Cpu.memory_write, Cpu.reg_write,
        if_neg (hne _ rfl).symm]
      rfl
  | mov dst src => rfl
  | movImm dst imm => rfl
  | lea dst base disp => rfl
  | add dst imm => rfl
  | sub dst imm => rfl
  | ret => rfl

/-- A block neither sees nor changes a word outside its addresses. -/
theorem exec_write {code : List Instr} {cpu : Cpu} {address : Word}
    (hapart : address ∉ addresses code cpu) (word : Word) :
    exec code (cpu.write address word) = (exec code cpu).write address word := by
  induction code generalizing cpu with
  | nil => rfl
  | cons instr code ih =>
      simp only [addresses, List.mem_append, Option.mem_toList, not_or] at hapart
      rw [exec_cons, Instr.exec_write hapart.1, ih hapart.2, exec_cons]

theorem memory_exec {code : List Instr} {cpu : Cpu} {address : Word}
    (hapart : address ∉ addresses code cpu) :
    (exec code cpu).memory address = cpu.memory address := by
  have hsame : cpu.write address (cpu.memory address) = cpu := by
    simp [Cpu.write]
  have hwrite := exec_write hapart (cpu.memory address)
  rw [hsame] at hwrite
  rw [hwrite, Cpu.memory_write, if_pos rfl]

end FrogAgent.X64
