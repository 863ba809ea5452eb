import FrogAgent.Lib.LittleEndian
import FrogAgent.Lib.X64
import Mathlib.Logic.Relation

/-!
# x86-64 from bytes

A processor that decodes what stands at its instruction pointer: the moves, comparisons and
jumps of small leaf functions, with their ModRM operands, on the eight old registers.  `Code`
says which bytes stand at an address, and `step_of_code` turns it into a step, so that a
function can be run without knowing what stands behind it.
-/

namespace FrogAgent.X64Bytes

open Function
open FrogAgent.LittleEndian
open FrogAgent.X64 (Word)

/-- The registers by their numbers in an encoding. -/
abbrev Register := Fin 8

def rax : Register := 0
def rcx : Register := 1
def rdx : Register := 2
def rsp : Register := 4

structure Processor where
  reg : Register → Word
  rip : Word
  carry : Bool
  memory : Word → UInt8

def read (memory : Word → UInt8) (address : Word) (count : ℕ) : List UInt8 :=
  (List.range count).map fun offset => memory (address + BitVec.ofNat 64 offset)

/-- The little-endian number of `width` bytes at the address. -/
def number (memory : Word → UInt8) (width : ℕ) (address : Word) : Word :=
  BitVec.ofNat 64 (leValue (read memory address width))

def store (memory : Word → UInt8) (address word : Word) : Word → UInt8 := fun place =>
  if (place - address).toNat < 8 then
    UInt8.ofNat (word.toNat / 256 ^ (place - address).toNat % 256)
  else memory place

/-! ## Instructions -/

inductive Operand where
  | register (source : Register)
  | ripRelative (displacement : Word)
  | memory (base : Register) (index : Option (Register × ℕ)) (displacement : Word)
  deriving DecidableEq

inductive Instr where
  /-- Load `width` bytes, and zeros above them. -/
  | load (width : ℕ) (dst : Register) (src : Operand)
  | store (dst : Operand) (src : Register)
  | sub (dst : Register) (src : Operand)
  | sar (dst : Operand) (count : ℕ)
  | compare (left : Register) (right : Operand)
  | jae (displacement : Word)
  | jmp (displacement : Word)
  | ret
  deriving DecidableEq

/-- A displacement or an offset with its sign. -/
def signed (bytes : List UInt8) : Word :=
  (BitVec.ofNat (8 * bytes.length) (leValue bytes)).signExtend 64

/-- The displacement of a ModRM byte, and how many bytes it has. -/
def displacement (mode : ℕ) (bytes : List UInt8) : Option (Word × ℕ) :=
  match mode, bytes with
  | 0, _ => some (0, 0)
  | 1, a :: _ => some (signed [a], 1)
  | 2, a :: b :: c :: d :: _ => some (signed [a, b, c, d], 4)
  | _, _ => none

def registerOf (field : ℕ) : Register := Fin.ofNat 8 field

/-- The register field and the operand that follow an opcode, and their bytes. -/
def modRm : List UInt8 → Option (Register × Operand × ℕ)
  | [] => none
  | byte :: rest =>
      let mode := byte.toNat / 64
      let reg := registerOf (byte.toNat / 8)
      let rm := byte.toNat % 8
      if mode = 3 then some (reg, .register (registerOf rm), 1)
      else if rm = 4 then
        match rest with
        | [] => none
        | sib :: rest =>
            if sib.toNat % 8 = 5 ∧ mode = 0 then none
            else
              let index := sib.toNat / 8 % 8
              (displacement mode rest).map fun (disp, length) =>
                (reg, .memory (registerOf sib.toNat)
                  (if index = 4 then none else some (registerOf index, 2 ^ (sib.toNat / 64)))
                  disp, length + 2)
      else if rm = 5 ∧ mode = 0 then
        (displacement 2 rest).map fun (disp, length) => (reg, .ripRelative disp, length + 1)
      else
        (displacement mode rest).map fun (disp, length) =>
          (reg, .memory (registerOf rm) none disp, length + 1)

/-- The instruction at the start of the bytes, and its length. -/
def decode : List UInt8 → Option (Instr × ℕ)
  | 0xC3 :: _ => some (.ret, 1)
  | 0xE9 :: a :: b :: c :: d :: _ => some (.jmp (signed [a, b, c, d]), 5)
  | 0x73 :: a :: _ => some (.jae (signed [a]), 2)
  | 0x48 :: 0x8B :: rest => (modRm rest).map fun (reg, rm, length) => (.load 8 reg rm, length + 2)
  | 0x48 :: 0x89 :: rest => (modRm rest).map fun (reg, rm, length) => (.store rm reg, length + 2)
  | 0x48 :: 0x2B :: rest => (modRm rest).map fun (reg, rm, length) => (.sub reg rm, length + 2)
  | 0x48 :: 0xC1 :: rest =>
      (modRm rest).bind fun (reg, rm, length) =>
        if reg = 7 then
          (rest[length]?).map fun count => (.sar rm (count.toNat % 64), length + 3)
        else none
  | 0x8B :: rest => (modRm rest).map fun (reg, rm, length) => (.load 4 reg rm, length + 1)
  | 0x3B :: rest => (modRm rest).map fun (reg, rm, length) => (.compare reg rm, length + 1)
  | 0x0F :: 0xB6 :: rest =>
      (modRm rest).map fun (reg, rm, length) => (.load 1 reg rm, length + 2)
  | 0x0F :: 0xB7 :: rest =>
      (modRm rest).map fun (reg, rm, length) => (.load 2 reg rm, length + 2)
  | _ => none

/-! ## Execution -/

namespace Processor

def set (cpu : Processor) (dst : Register) (word : Word) : Processor :=
  { cpu with reg := update cpu.reg dst word }

def jump (cpu : Processor) (target : Word) : Processor := { cpu with rip := target }

section Fields

variable (cpu : Processor) (dst other : Register) (word target : Word)

@[simp]
theorem reg_set : (cpu.set dst word).reg other = if other = dst then word else cpu.reg other :=
  update_apply cpu.reg dst word other

@[simp]
theorem rip_set : (cpu.set dst word).rip = cpu.rip := rfl

@[simp]
theorem carry_set : (cpu.set dst word).carry = cpu.carry := rfl

@[simp]
theorem memory_set : (cpu.set dst word).memory = cpu.memory := rfl

@[simp]
theorem rip_jump : (cpu.jump target).rip = target := rfl

end Fields

end Processor

/-- The address of an operand in memory; `next` is the address behind the instruction. -/
def Operand.address (cpu : Processor) (next : Word) : Operand → Word
  | .register source => cpu.reg source
  | .ripRelative disp => next + disp
  | .memory base index disp =>
      cpu.reg base +
        (index.elim 0 fun (source, scale) => cpu.reg source * BitVec.ofNat 64 scale) + disp

def Operand.value (cpu : Processor) (next : Word) (width : ℕ) : Operand → Word
  | .register source => BitVec.ofNat 64 ((cpu.reg source).toNat % 256 ^ width)
  | operand => number cpu.memory width (operand.address cpu next)

def Operand.assign (cpu : Processor) (next word : Word) : Operand → Processor
  | .register source => cpu.set source word
  | operand => { cpu with memory := X64Bytes.store cpu.memory (operand.address cpu next) word }

/-- What an instruction does; control is already behind it. -/
def Instr.exec (cpu : Processor) : Instr → Processor
  | .load width dst src => cpu.set dst (src.value cpu cpu.rip width)
  | .store dst src => dst.assign cpu cpu.rip (cpu.reg src)
  | .sub dst src => cpu.set dst (cpu.reg dst - src.value cpu cpu.rip 8)
  | .sar dst count =>
      dst.assign cpu cpu.rip ((dst.value cpu cpu.rip 8).sshiftRight count)
  | .compare left right =>
      let first := (Operand.register left).value cpu cpu.rip 4
      { cpu with carry := decide (first < right.value cpu cpu.rip 4) }
  | .jae disp => if cpu.carry then cpu else cpu.jump (cpu.rip + disp)
  | .jmp disp => cpu.jump (cpu.rip + disp)
  | .ret =>
      (cpu.set rsp (cpu.reg rsp + 8)).jump (number cpu.memory 8 (cpu.reg rsp))

/-- One instruction; the flags of `sub` and `sar` are not modelled. -/
def step (cpu : Processor) : Option Processor :=
  (decode (read cpu.memory cpu.rip 15)).map fun (instr, length) =>
    instr.exec (cpu.jump (cpu.rip + BitVec.ofNat 64 length))

def Steps (cpu next : Processor) : Prop := step cpu = some next

abbrev Runs : Processor → Processor → Prop := Relation.ReflTransGen Steps

/-! ## Known code -/

/-- These bytes stand at the address. -/
def Code (memory : Word → UInt8) (address : Word) (bytes : List UInt8) : Prop :=
  ∀ offset byte, bytes[offset]? = some byte → memory (address + BitVec.ofNat 64 offset) = byte

section Code

variable {memory : Word → UInt8} {address : Word} {bytes : List UInt8}

theorem add_offsets (address : Word) (first second : ℕ) :
    address + BitVec.ofNat 64 first + BitVec.ofNat 64 second =
      address + BitVec.ofNat 64 (first + second) := by
  rw [BitVec.add_assoc, BitVec.ofNat_add]

theorem code_read (memory : Word → UInt8) (address : Word) (count : ℕ) :
    Code memory address (read memory address count) := by
  intro offset byte hbyte
  rw [read, List.getElem?_map, Option.map_eq_some_iff] at hbyte
  obtain ⟨place, hplace, rfl⟩ := hbyte
  rw [(List.getElem?_eq_some_iff.mp hplace).2.symm, List.getElem_range]

theorem Code.drop (hcode : Code memory address bytes) (count : ℕ) :
    Code memory (address + BitVec.ofNat 64 count) (bytes.drop count) := by
  intro offset byte hbyte
  rw [List.getElem?_drop] at hbyte
  rw [add_offsets]
  exact hcode _ byte hbyte

theorem Code.congr {other : Word → UInt8} (hcode : Code memory address bytes)
    (hsame : ∀ offset < bytes.length, other (address + BitVec.ofNat 64 offset) =
      memory (address + BitVec.ofNat 64 offset)) : Code other address bytes := by
  intro offset byte hbyte
  rw [hsame offset (List.getElem?_eq_some_iff.mp hbyte).1]
  exact hcode offset byte hbyte

/-- A fetch starts with the code and goes on with whatever stands behind it. -/
theorem Code.read_eq (hcode : Code memory address bytes) {count : ℕ}
    (hcount : bytes.length ≤ count) : ∃ rest, read memory address count = bytes ++ rest := by
  refine ⟨(read memory address count).drop bytes.length, ?_⟩
  have htake : (read memory address count).take bytes.length = bytes := by
    apply List.ext_getElem?
    intro offset
    by_cases hoffset : offset < bytes.length
    · have hbyte : bytes[offset]? = some bytes[offset] := List.getElem?_eq_getElem hoffset
      rw [List.getElem?_take_of_lt hoffset, hbyte, read, List.getElem?_map,
        List.getElem?_range (Nat.lt_of_lt_of_le hoffset hcount), Option.map_some,
        hcode offset _ hbyte]
    · rw [List.getElem?_eq_none (Nat.not_lt.mp hoffset), List.getElem?_eq_none]
      exact (List.length_take_le _ _).trans (Nat.not_lt.mp hoffset)
  have hsplit := List.take_append_drop bytes.length (read memory address count)
  rw [htake] at hsplit
  exact hsplit.symm

end Code

section Step

variable {cpu : Processor} {bytes : List UInt8} {instr : Instr} {length : ℕ}

theorem step_of_code (hcode : Code cpu.memory cpu.rip bytes) (hfetch : bytes.length ≤ 15)
    (hdecode : ∀ rest, decode (bytes ++ rest) = some (instr, length)) :
    Steps cpu (instr.exec (cpu.jump (cpu.rip + BitVec.ofNat 64 length))) := by
  obtain ⟨rest, hrest⟩ := hcode.read_eq hfetch
  rw [Steps, step, hrest, hdecode, Option.map_some]

end Step

/-! ## What a store leaves -/

/-- The bytes at `place` are none of the eight at `address`. -/
def Apart (address place : Word) (count : ℕ) : Prop :=
  ∀ offset < count, 8 ≤ (place + BitVec.ofNat 64 offset - address).toNat

theorem store_apart (memory : Word → UInt8) {address place : Word} {count : ℕ} (word : Word)
    (hapart : Apart address place count) {offset : ℕ} (hoffset : offset < count) :
    store memory address word (place + BitVec.ofNat 64 offset) =
      memory (place + BitVec.ofNat 64 offset) :=
  if_neg (Nat.not_lt.mpr (hapart offset hoffset))

theorem Code.store {memory : Word → UInt8} {start : Word} {bytes : List UInt8}
    (hcode : Code memory start bytes) {address : Word} (word : Word)
    (hapart : Apart address start bytes.length) :
    Code (X64Bytes.store memory address word) start bytes :=
  hcode.congr fun _ hoffset => store_apart memory word hapart hoffset

/-! ## Leaf functions -/

/-- Control returns to the caller with the value, and with this memory. -/
def Returns (cpu : Processor) (value : Word) (memory : Word → UInt8) : Prop :=
  ∃ final, Runs cpu final ∧ final.rip = number cpu.memory 8 (cpu.reg rsp) ∧
    final.reg rsp = cpu.reg rsp + 8 ∧ final.reg rax = value ∧ final.memory = memory ∧
    ∀ reg, reg ≠ rax → reg ≠ rdx → reg ≠ rsp → final.reg reg = cpu.reg reg

section Returns

variable {cpu next : Processor} {value : Word} {memory : Word → UInt8}

end Returns

end FrogAgent.X64Bytes
