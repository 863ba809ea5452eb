import FrogAgent.Lib.ByteMemory
import FrogAgent.Lib.LittleEndian
import FrogAgent.Lib.X64

/-!
# Decoded machine code

What moving an x86-64 instruction to another address can change: the addresses it forms
from the instruction pointer.  The decoder is a parameter, known by the facts that hold of
every instruction: it has one to fifteen bytes, and these bytes alone decide it.
-/

namespace FrogAgent.MachineCode

open FrogAgent.ByteMemory
open FrogAgent.LittleEndian
open FrogAgent.X64

structure Machine where
  registers : Fin 16 → Word
  memory : Memory UInt8

def Machine.quadword (machine : Machine) (address : Word) : Word :=
  BitVec.ofNat 64 (leValue (load machine.memory address.toNat 8))

inductive Operand where
  | ripRelative (displacement : Word)
  | registers (base index : Option (Fin 16)) (scale displacement : Word)
  deriving DecidableEq

/-- The address of a memory operand; `next` is the address behind the instruction. -/
def Operand.address (machine : Machine) (next : Word) : Operand → Word
  | .ripRelative displacement => next + displacement
  | .registers base index scale displacement =>
      base.elim 0 machine.registers + index.elim 0 machine.registers * scale + displacement

inductive Branch where
  | relative (displacement : Word)
  | register (source : Fin 16)
  | memory (operand : Operand)
  deriving DecidableEq

def Branch.target (machine : Machine) (next : Word) : Branch → Word
  | .relative displacement => next + displacement
  | .register source => machine.registers source
  | .memory operand => machine.quadword (operand.address machine next)

/-- The memory operands and the branch of an instruction, if it is one. -/
structure Instruction where
  length : ℕ
  operands : List Operand
  branch : Option Branch
  deriving DecidableEq

def Operand.positionFree : Operand → Bool
  | .ripRelative _ => false
  | .registers .. => true

def Branch.positionFree : Branch → Bool
  | .relative _ => false
  | .register _ => true
  | .memory operand => operand.positionFree

/-- Neither a RIP-relative operand nor a relative branch. -/
def Instruction.positionFree (instruction : Instruction) : Bool :=
  instruction.operands.all Operand.positionFree && instruction.branch.all Branch.positionFree

/-- The address behind the instruction when it is placed here. -/
def Instruction.next (instruction : Instruction) (place : ℕ) : Word :=
  BitVec.ofNat 64 (place + instruction.length)

/-- The instruction means the same at both places. -/
structure Instruction.SameAt (instruction : Instruction) (place other : ℕ) : Prop where
  operands : ∀ machine, instruction.operands.map (Operand.address machine (instruction.next place))
    = instruction.operands.map (Operand.address machine (instruction.next other))
  branch : ∀ machine, instruction.branch.map (Branch.target machine (instruction.next place))
    = instruction.branch.map (Branch.target machine (instruction.next other))

/-- What instructions do with the addresses of their operands and their target: the machine
afterwards, and whether control leaves for the target.  The return address that a call
pushes is not among it. -/
abbrev Effect := Instruction → Machine → List Word → Option Word → Machine × Bool

def Instruction.exec (effect : Effect) (place : ℕ) (instruction : Instruction)
    (machine : Machine) : Machine × Option Word :=
  let addresses := instruction.operands.map (Operand.address machine (instruction.next place))
  let target := instruction.branch.map (Branch.target machine (instruction.next place))
  let (after, taken) := effect instruction machine addresses target
  (after, if taken then target else none)

/-- Run code that begins here until it leaves or ends. -/
def run (effect : Effect) : ℕ → List Instruction → Machine → Machine × Option Word
  | _, [], machine => (machine, none)
  | place, instruction :: code, machine =>
      match instruction.exec effect place machine with
      | (after, some target) => (after, some target)
      | (after, none) => run effect (place + instruction.length) code after

structure Decoder where
  decode : List UInt8 → Instruction
  length_pos : ∀ bytes, bytes ≠ [] → 0 < (decode bytes).length
  length_le : ∀ bytes, (decode bytes).length ≤ bytes.length
  length_le_fifteen : ∀ bytes, (decode bytes).length ≤ 15
  /-- The bytes of an instruction decide it. -/
  decode_congr : ∀ left right, 15 ≤ left.length → 15 ≤ right.length →
    left.take (decode left).length = right.take (decode left).length →
    decode right = decode left
  /-- `jmp [rip+0]`. -/
  decode_jump : ∀ rest, decode ([0xFF, 0x25, 0x00, 0x00, 0x00, 0x00] ++ rest) =
    ⟨6, [.ripRelative 0], some (.memory (.ripRelative 0))⟩

/-- Decode a window to its end. -/
def Decoder.decodeAll (decoder : Decoder) : ℕ → List UInt8 → List Instruction
  | 0, _ => []
  | fuel + 1, bytes =>
      if bytes = [] then []
      else
        decoder.decode bytes ::
          decoder.decodeAll fuel (bytes.drop (decoder.decode bytes).length)

def codeLength (code : List Instruction) : ℕ := (code.map Instruction.length).sum

@[simp]
theorem codeLength_nil : codeLength [] = 0 := rfl

@[simp]
theorem codeLength_cons (instruction : Instruction) (code : List Instruction) :
    codeLength (instruction :: code) = instruction.length + codeLength code := rfl

@[simp]
theorem codeLength_append (first last : List Instruction) :
    codeLength (first ++ last) = codeLength first + codeLength last := by
  simp [codeLength]

/-- These instructions stand one behind the other from here on. -/
def StraightLine (decoder : Decoder) (memory : Memory UInt8) : ℕ → List Instruction → Prop
  | _, [] => True
  | place, instruction :: code =>
      decoder.decode (load memory place 15) = instruction ∧
        StraightLine decoder memory (place + instruction.length) code

theorem codeLength_decodeAll_le (decoder : Decoder) (fuel : ℕ) (bytes : List UInt8) :
    codeLength (decoder.decodeAll fuel bytes) ≤ bytes.length := by
  induction fuel generalizing bytes with
  | zero => simp [Decoder.decodeAll]
  | succ fuel ih =>
      unfold Decoder.decodeAll
      split
      · simp
      · have hrest := ih (bytes.drop (decoder.decode bytes).length)
        have hfirst := decoder.length_le bytes
        rw [List.length_drop] at hrest
        rw [codeLength_cons]
        omega

section Decode

variable {decoder : Decoder} {memory copy : Memory UInt8} {place other : ℕ}

/-- Any fifteen bytes are enough to decode. -/
theorem decode_load {width : ℕ} (hwidth : 15 ≤ width) :
    decoder.decode (load memory place 15) = decoder.decode (load memory place width) := by
  have hlength := decoder.length_le_fifteen (load memory place width)
  apply decoder.decode_congr
  · simpa using hwidth
  · simp
  · rw [take_load _ (Nat.le_trans hlength hwidth), take_load _ hlength]

/-- Copied code decodes as the original, whatever follows it. -/
theorem StraightLine.of_copy {code : List Instruction}
    (hcode : StraightLine decoder memory place code)
    (hcopy : load copy other (codeLength code) = load memory place (codeLength code)) :
    StraightLine decoder copy other code := by
  induction code generalizing place other with
  | nil => trivial
  | cons instruction code ih =>
      obtain ⟨hdecode, hrest⟩ := hcode
      have hlength : instruction.length ≤ 15 := by
        rw [← hdecode]
        exact decoder.length_le_fifteen _
      have hfirst : load copy other instruction.length = load memory place instruction.length := by
        have htake := congrArg (List.take instruction.length) hcopy
        rwa [take_load _ (by simp), take_load _ (by simp)] at htake
      have hlast : load copy (other + instruction.length) (codeLength code)
          = load memory (place + instruction.length) (codeLength code) := by
        rw [← take_drop_load copy (Nat.le_refl _), ← take_drop_load memory (Nat.le_refl _)]
        exact congrArg (fun bytes => (bytes.drop instruction.length).take (codeLength code)) hcopy
      refine ⟨?_, ih hrest hlast⟩
      rw [← hdecode]
      apply decoder.decode_congr
      · simp
      · simp
      · rw [hdecode, take_load _ hlength, take_load _ hlength, hfirst]

theorem StraightLine.length_pos {code : List Instruction}
    (hcode : StraightLine decoder memory place code) :
    ∀ instruction ∈ code, 0 < instruction.length := by
  induction code generalizing place with
  | nil => simp
  | cons instruction code ih =>
      have hfirst : 0 < instruction.length := by
        rw [← hcode.1]
        exact decoder.length_pos _ (by simp [load])
      exact List.forall_mem_cons.mpr ⟨hfirst, ih hcode.2⟩

/-- Code is decided by where it begins and how long it is. -/
theorem StraightLine.unique {first second : List Instruction}
    (hfirst : StraightLine decoder memory place first)
    (hsecond : StraightLine decoder memory place second)
    (hlength : codeLength first = codeLength second) : first = second := by
  induction first generalizing place second with
  | nil =>
      cases second with
      | nil => rfl
      | cons instruction code =>
          have hpos := hsecond.length_pos instruction List.mem_cons_self
          rw [codeLength_nil, codeLength_cons] at hlength
          omega
  | cons instruction code ih =>
      cases second with
      | nil =>
          have hpos := hfirst.length_pos instruction List.mem_cons_self
          rw [codeLength_nil, codeLength_cons] at hlength
          omega
      | cons other rest =>
          obtain rfl : instruction = other := hfirst.1.symm.trans hsecond.1
          rw [codeLength_cons, codeLength_cons, Nat.add_left_cancel_iff] at hlength
          rw [ih hfirst.2 hsecond.2 hlength]

end Decode

/-! ## Moving an instruction -/

section Move

variable {place other : ℕ}

theorem next_ne {instruction : Instruction} (hplace : place < 2 ^ 64) (hother : other < 2 ^ 64)
    (hmoved : place ≠ other) : instruction.next place ≠ instruction.next other := by
  intro hnext
  rw [Instruction.next, Instruction.next, BitVec.ofNat_add, BitVec.ofNat_add,
    BitVec.add_left_inj] at hnext
  have hvalues := congrArg BitVec.toNat hnext
  rw [BitVec.toNat_ofNat, BitVec.toNat_ofNat, Nat.mod_eq_of_lt hplace,
    Nat.mod_eq_of_lt hother] at hvalues
  exact hmoved hvalues

theorem Operand.address_eq {operand : Operand} (hfree : operand.positionFree = true)
    (machine : Machine) (first second : Word) :
    operand.address machine first = operand.address machine second := by
  cases operand with
  | ripRelative displacement => cases hfree
  | registers base index scale displacement => rfl

theorem Operand.positionFree_of_address {operand : Operand} {first second : Word}
    (hmoved : first ≠ second) (machine : Machine)
    (hsame : operand.address machine first = operand.address machine second) :
    operand.positionFree = true := by
  cases operand with
  | ripRelative displacement => exact absurd ((BitVec.add_left_inj displacement).mp hsame) hmoved
  | registers base index scale displacement => rfl

theorem Branch.target_eq {branch : Branch} (hfree : branch.positionFree = true)
    (machine : Machine) (first second : Word) :
    branch.target machine first = branch.target machine second := by
  cases branch with
  | relative displacement => cases hfree
  | register source => rfl
  | memory operand =>
      rw [Branch.target, Branch.target, Operand.address_eq hfree machine first second]

/-- A memory that tells one address from all others. -/
def Machine.marked (address : Word) : Machine where
  registers _ := 0
  memory place := if place = address.toNat then 1 else 0

theorem Machine.quadword_marked {address other : Word} (hother : address ≠ other) :
    (Machine.marked address).quadword address ≠ (Machine.marked address).quadword other := by
  have hplaces : other.toNat ≠ address.toNat := fun hsame =>
    hother (BitVec.eq_of_toNat_eq hsame.symm)
  intro hsame
  have hvalues := congrArg (fun word => word.toNat % 256) hsame
  simp [Machine.quadword, Machine.marked, load, List.range_succ, leValue, hplaces] at hvalues

theorem Branch.positionFree_of_target {branch : Branch} {first second : Word}
    (hmoved : first ≠ second)
    (hsame : ∀ machine, branch.target machine first = branch.target machine second) :
    branch.positionFree = true := by
  cases branch with
  | relative displacement =>
      exact absurd ((BitVec.add_left_inj displacement).mp (hsame (Machine.marked 0))) hmoved
  | register source => rfl
  | memory operand =>
      cases operand with
      | registers base index scale displacement => rfl
      | ripRelative displacement =>
          have hread := hsame (Machine.marked (first + displacement))
          have haddress : first + displacement ≠ second + displacement := fun heq =>
            hmoved ((BitVec.add_left_inj displacement).mp heq)
          exact absurd hread (Machine.quadword_marked haddress)

/-- An instruction means the same at another place exactly if it does not form an address
from its own. -/
theorem Instruction.sameAt_iff {instruction : Instruction} (hplace : place < 2 ^ 64)
    (hother : other < 2 ^ 64) (hmoved : place ≠ other) :
    instruction.SameAt place other ↔ instruction.positionFree = true := by
  have hnext : instruction.next place ≠ instruction.next other := next_ne hplace hother hmoved
  rw [Instruction.positionFree, Bool.and_eq_true, List.all_eq_true, Option.all_eq_true]
  constructor
  · intro hsame
    constructor
    · intro operand hoperand
      exact Operand.positionFree_of_address hnext (Machine.marked 0)
        (List.map_inj_left.mp (hsame.operands (Machine.marked 0)) operand hoperand)
    · intro branch hbranch
      apply Branch.positionFree_of_target hnext
      intro machine
      have htarget := hsame.branch machine
      rw [hbranch] at htarget
      exact Option.some.inj htarget
  · rintro ⟨hoperands, hbranch⟩
    constructor
    · intro machine
      apply List.map_congr_left
      intro operand hoperand
      exact Operand.address_eq (hoperands operand hoperand) machine _ _
    · intro machine
      cases hjump : instruction.branch with
      | none => rfl
      | some branch =>
          exact congrArg some (Branch.target_eq (hbranch branch hjump) machine _ _)

theorem Instruction.SameAt.exec_eq {instruction : Instruction}
    (hsame : instruction.SameAt place other) (effect : Effect) (machine : Machine) :
    instruction.exec effect place machine = instruction.exec effect other machine := by
  simp only [Instruction.exec, hsame.operands machine, hsame.branch machine]

/-- Code runs at another place as it does here, if each of its instructions means the same. -/
theorem run_eq {code : List Instruction} (effect : Effect)
    (hsame : ∀ first instruction last, code = first ++ instruction :: last →
      instruction.SameAt (place + codeLength first) (other + codeLength first))
    (machine : Machine) : run effect place code machine = run effect other code machine := by
  induction code generalizing place other machine with
  | nil => rfl
  | cons instruction code ih =>
      have hfirst : instruction.SameAt place other := hsame [] instruction code rfl
      have hrest : ∀ first later last, code = first ++ later :: last →
          later.SameAt (place + instruction.length + codeLength first)
            (other + instruction.length + codeLength first) := by
        intro first later last hcode
        have hlater := hsame (instruction :: first) later last (by rw [hcode, List.cons_append])
        rwa [codeLength_cons, ← Nat.add_assoc, ← Nat.add_assoc] at hlater
      rw [run, run, hfirst.exec_eq]
      split
      · rfl
      · exact ih hrest _

end Move

end FrogAgent.MachineCode
