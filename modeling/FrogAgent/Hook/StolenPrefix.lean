import FrogAgent.Hook.InlineDetour
import FrogAgent.Lib.MachineCode

/-!
# The stolen prefix

`install` copies the first instructions of the target into the trampoline byte for byte.
The copy decodes as the original and the jump behind it leads back to the rest of the
target, but an instruction that forms an address from its own place forms another one in
the trampoline.
-/

namespace FrogAgent.InlineDetour

open FrogAgent.ByteMemory
open FrogAgent.LittleEndian
open FrogAgent.MachineCode

/-- The disassembler as `install` sees it. -/
def decoderPlatform (decoder : Decoder) (protect : ℕ → ℕ → Bool) : Platform where
  decode _ window := (decoder.decodeAll window.length window).map Instruction.length
  protect := protect
  decode_sum_le _ window := codeLength_decodeAll_le decoder window.length window

/-- The instructions that the stealing loop goes through. -/
def stolenPrefix : ℕ → List Instruction → List Instruction
  | _, [] => []
  | total, instruction :: code =>
      if 12 ≤ total + instruction.length then [instruction]
      else instruction :: stolenPrefix (total + instruction.length) code

def stolenCode (decoder : Decoder) (memory : Memory UInt8) (target : ℕ) : List Instruction :=
  stolenPrefix 0 (decoder.decodeAll 32 (load memory target 32))

/-- No stolen instruction has a RIP-relative operand or is a relative branch. -/
def Relocatable (decoder : Decoder) (memory : Memory UInt8) (target : ℕ) : Prop :=
  ∀ instruction ∈ stolenCode decoder memory target, instruction.positionFree = true

/-- The code is in the address space, and `VirtualAlloc` answers with pages of its own. -/
structure Placed (target trampoline : ℕ) : Prop where
  target_le : target + 32 ≤ 2 ^ 64
  trampoline_le : trampoline + 46 ≤ 2 ^ 64
  apart : Apart trampoline 46 target 32

/-- `code` is what `before` has at the target and `after` at the trampoline, in whole
instructions; each means the same at both places, so both run alike, no direct branch leads
into the overwritten bytes, and the instruction behind the copy continues behind the
original. -/
structure Carries (decoder : Decoder) (before after : Memory UInt8) (hook : Hook)
    (code : List Instruction) : Prop where
  original : StraightLine decoder before hook.target code
  length : codeLength code = hook.originalBytes.length
  enough : 12 ≤ codeLength code
  copied : StraightLine decoder after hook.trampoline code
  same : ∀ first instruction last, code = first ++ instruction :: last →
    instruction.SameAt (hook.target + codeLength first) (hook.trampoline + codeLength first)
  runs : ∀ effect machine,
    run effect hook.trampoline code machine = run effect hook.target code machine
  leaves : ∀ first instruction last displacement, code = first ++ instruction :: last →
    instruction.branch = some (.relative displacement) →
    ¬ hook.saved.Covers
      (instruction.next (hook.target + codeLength first) + displacement).toNat
  resumes : ∀ machine, machine.memory = after →
    let place := hook.trampoline + codeLength code
    let jump := decoder.decode (load after place 15)
    jump.branch.map (Branch.target machine (jump.next place)) =
      some (BitVec.ofNat 64 (hook.target + codeLength code))

/-- Running the trampoline is running the original instructions. -/
def Preserves (decoder : Decoder) (before after : Memory UInt8) (hook : Hook) : Prop :=
  ∃ code, Carries decoder before after hook code

/-! ## The stealing loop -/

theorem stolenLen_map_length (total : ℕ) (code : List Instruction) :
    stolenLen total (code.map Instruction.length) =
      total + codeLength (stolenPrefix total code) := by
  induction code generalizing total with
  | nil => rfl
  | cons instruction code ih =>
      rw [List.map_cons, stolenLen, stolenPrefix]
      split
      · rfl
      · rw [ih, codeLength_cons, Nat.add_assoc]

/-- The loop never reads an instruction that the window cuts off: each one begins before
the twelfth byte. -/
theorem straightLine_stolenPrefix (decoder : Decoder) (memory : Memory UInt8)
    (fuel place : ℕ) {total : ℕ} (htotal : total < 12) :
    StraightLine decoder memory place
      (stolenPrefix total (decoder.decodeAll fuel (load memory place (32 - total)))) := by
  induction fuel generalizing place total with
  | zero => trivial
  | succ fuel ih =>
      have hdecode : decoder.decode (load memory place 15) =
          decoder.decode (load memory place (32 - total)) := decode_load (by omega)
      unfold Decoder.decodeAll
      split
      · trivial
      · rw [stolenPrefix]
        split
        · exact ⟨hdecode, trivial⟩
        · refine ⟨hdecode, ?_⟩
          rw [drop_load, Nat.sub_sub]
          exact ih _ (by omega)

theorem straightLine_stolenCode (decoder : Decoder) (memory : Memory UInt8) (target : ℕ) :
    StraightLine decoder memory target (stolenCode decoder memory target) :=
  straightLine_stolenPrefix decoder memory 32 target (by decide)

theorem codeLength_stolenPrefix_le (total : ℕ) (code : List Instruction) :
    codeLength (stolenPrefix total code) ≤ codeLength code := by
  induction code generalizing total with
  | nil => exact Nat.le_refl _
  | cons instruction code ih =>
      rw [stolenPrefix]
      split
      · simp
      · rw [codeLength_cons, codeLength_cons]
        exact Nat.add_le_add_left (ih _) _

theorem codeLength_stolenCode_le (decoder : Decoder) (memory : Memory UInt8) (target : ℕ) :
    codeLength (stolenCode decoder memory target) ≤ 32 :=
  calc
    codeLength (stolenCode decoder memory target) ≤
        codeLength (decoder.decodeAll 32 (load memory target 32)) :=
      codeLength_stolenPrefix_le 0 _
    _ ≤ (load memory target 32).length := codeLength_decodeAll_le decoder 32 _
    _ = 32 := length_load memory target 32

theorem stolenLen_decoderPlatform (decoder : Decoder) (protect : ℕ → ℕ → Bool)
    (memory : Memory UInt8) (target : ℕ) :
    stolenLen 0 ((decoderPlatform decoder protect).decode target (load memory target 32)) =
      codeLength (stolenCode decoder memory target) := by
  change stolenLen 0 ((decoder.decodeAll (load memory target 32).length
    (load memory target 32)).map Instruction.length) = _
  rw [length_load, stolenLen_map_length, Nat.zero_add]
  rfl

/-! ## What `install` leaves -/

/-- The memory after an installation that steals `stolen` bytes. -/
def detoured (memory : Memory UInt8) (trampoline target detour stolen : ℕ) : Memory UInt8 :=
  store (store memory
      ⟨trampoline, trampolineBytes (load memory target stolen) (target + stolen)⟩)
    ⟨target, patchBytes detour stolen⟩

theorem install_hook {platform : Platform} {before after : Memory UInt8}
    {allocated : Option ℕ} {target detour stolen : ℕ} {hook : Hook}
    (hinstall : install platform before allocated target detour = (after, some hook))
    (hstolen : stolenLen 0 (platform.decode target (load before target 32)) = stolen) :
    allocated = some hook.trampoline ∧ 12 ≤ stolen ∧ hook.target = target ∧
      hook.originalBytes.length = stolen ∧
      after = detoured before hook.trampoline target detour stolen := by
  unfold install at hinstall
  simp only [hstolen] at hinstall
  split at hinstall
  · cases hinstall
  · rename_i hlong
    cases allocated with
    | none => cases hinstall
    | some trampoline =>
        simp only at hinstall
        split at hinstall
        · cases hinstall
          exact ⟨rfl, Nat.le_of_not_lt hlong, rfl, length_load _ _ _, rfl⟩
        · cases hinstall

section Detoured

variable {memory : Memory UInt8} {trampoline target detour stolen : ℕ}

/-- The trampoline buffer is not touched by the patch of the target. -/
theorem load_detoured (hplaced : Placed target trampoline) (henough : 12 ≤ stolen)
    (hstolen : stolen ≤ 32) :
    load (detoured memory trampoline target detour stolen) trampoline (stolen + 14) =
      trampolineBytes (load memory target stolen) (target + stolen) := by
  have hlength : (trampolineBytes (load memory target stolen) (target + stolen)).length =
      stolen + 14 := by
    rw [length_trampolineBytes, length_load]
  rw [detoured, load_store_of_apart]
  · exact load_store_self _ _ hlength
  rw [length_patchBytes detour henough]
  exact hplaced.apart.symm.mono (Nat.le_refl _) (Nat.add_le_add_left hstolen _) (Nat.le_refl _)
    (Nat.add_le_add_left (by omega) _)

theorem load_detoured_copy (hplaced : Placed target trampoline) (henough : 12 ≤ stolen)
    (hstolen : stolen ≤ 32) :
    load (detoured memory trampoline target detour stolen) trampoline stolen =
      load memory target stolen := by
  rw [← take_load _ (Nat.le_add_right stolen 14), load_detoured hplaced henough hstolen]
  simp [trampolineBytes, List.append_assoc]

theorem load_detoured_jump (hplaced : Placed target trampoline) (henough : 12 ≤ stolen)
    (hstolen : stolen ≤ 32) :
    load (detoured memory trampoline target detour stolen) (trampoline + stolen) 6 =
      [0xFF, 0x25, 0x00, 0x00, 0x00, 0x00] := by
  rw [← take_drop_load _ (Nat.add_le_add_left (by decide : 6 ≤ 14) stolen),
    load_detoured hplaced henough hstolen]
  simp [trampolineBytes, List.append_assoc]

theorem load_detoured_resume (hplaced : Placed target trampoline) (henough : 12 ≤ stolen)
    (hstolen : stolen ≤ 32) :
    load (detoured memory trampoline target detour stolen) (trampoline + stolen + 6) 8 =
      leBytes 8 (target + stolen) := by
  rw [Nat.add_assoc, ← take_drop_load _ (Nat.le_refl (stolen + 6 + 8)),
    load_detoured hplaced henough hstolen, trampolineBytes, List.drop_left' (by simp),
    List.take_of_length_le (by simp)]

theorem decode_detoured_jump (decoder : Decoder) (hplaced : Placed target trampoline)
    (henough : 12 ≤ stolen) (hstolen : stolen ≤ 32) :
    decoder.decode
        (load (detoured memory trampoline target detour stolen) (trampoline + stolen) 15) =
      ⟨6, [.ripRelative 0], some (.memory (.ripRelative 0))⟩ := by
  rw [← List.take_append_drop 6 (load _ _ 15), take_load _ (by decide),
    load_detoured_jump hplaced henough hstolen]
  exact decoder.decode_jump _

/-- The jump behind the copy reads the address behind the stolen bytes. -/
theorem quadword_detoured (hplaced : Placed target trampoline) (henough : 12 ≤ stolen)
    (hstolen : stolen ≤ 32) {machine : Machine}
    (hmachine : machine.memory = detoured memory trampoline target detour stolen) :
    machine.quadword (BitVec.ofNat 64 (trampoline + stolen + 6) + 0) =
      BitVec.ofNat 64 (target + stolen) := by
  have hfits : trampoline + stolen + 6 < 2 ^ 64 := by
    have := hplaced.trampoline_le
    omega
  have hnext : BitVec.ofNat 64 (trampoline + stolen + 6) + (0 : BitVec 64) =
      BitVec.ofNat 64 (trampoline + stolen + 6) := BitVec.add_zero _
  rw [Machine.quadword, hnext, BitVec.toNat_ofNat, Nat.mod_eq_of_lt hfits, hmachine,
    load_detoured_resume hplaced henough hstolen, leValue_leBytes_mod]
  apply BitVec.eq_of_toNat_eq
  simp

end Detoured

section Install

variable {decoder : Decoder} {protect : ℕ → ℕ → Bool} {before after : Memory UInt8}
variable {allocated : Option ℕ} {target detour : ℕ} {hook : Hook}

/-- What an installation gives, in terms of the stolen instructions. -/
structure Installed (decoder : Decoder) (before after : Memory UInt8) (detour : ℕ)
    (hook : Hook) : Prop where
  placed : Placed hook.target hook.trampoline
  enough : 12 ≤ codeLength (stolenCode decoder before hook.target)
  saved : hook.originalBytes.length = codeLength (stolenCode decoder before hook.target)
  written : after = detoured before hook.trampoline hook.target detour
    (codeLength (stolenCode decoder before hook.target))

theorem installed_of_install
    (hinstall : install (decoderPlatform decoder protect) before allocated target detour =
      (after, some hook))
    (hplaced : ∀ trampoline, allocated = some trampoline → Placed target trampoline) :
    hook.target = target ∧ Installed decoder before after detour hook := by
  obtain ⟨hallocated, henough, rfl, hsaved, hwritten⟩ :=
    install_hook hinstall (stolenLen_decoderPlatform decoder protect before target)
  exact ⟨rfl, hplaced _ hallocated, henough, hsaved, hwritten⟩

/-- Where a stolen instruction stands, the two places are different addresses. -/
theorem Installed.sameAt_iff (hinstalled : Installed decoder before after detour hook)
    {first last : List Instruction} {instruction : Instruction}
    (hcode : stolenCode decoder before hook.target = first ++ instruction :: last) :
    instruction.SameAt (hook.target + codeLength first) (hook.trampoline + codeLength first) ↔
      instruction.positionFree = true := by
  have hlength := codeLength_stolenCode_le decoder before hook.target
  have hpos := (straightLine_stolenCode decoder before hook.target).length_pos instruction
  rw [hcode] at hlength hpos
  have hpos : 0 < instruction.length := hpos (by simp)
  rw [codeLength_append, codeLength_cons] at hlength
  obtain ⟨htarget, htrampoline, hapart⟩ := hinstalled.placed
  have hmoved : hook.target ≠ hook.trampoline := by
    intro hsame
    rcases hapart with hleft | hright
    · omega
    · omega
  apply Instruction.sameAt_iff
  · omega
  · omega
  · omega

/-- What carries the original code can only be the stolen instructions. -/
theorem Carries.code_eq (hinstalled : Installed decoder before after detour hook)
    {code : List Instruction} (hcarries : Carries decoder before after hook code) :
    code = stolenCode decoder before hook.target := by
  apply hcarries.original.unique (straightLine_stolenCode decoder before hook.target)
  rw [hcarries.length, hinstalled.saved]

theorem Preserves.relocatable (hinstalled : Installed decoder before after detour hook)
    (hpreserves : Preserves decoder before after hook) :
    Relocatable decoder before hook.target := by
  obtain ⟨code, hcarries⟩ := hpreserves
  have hcode := hcarries.code_eq hinstalled
  intro instruction hinstruction
  obtain ⟨first, last, hsplit⟩ := List.append_of_mem hinstruction
  have hsame := hcarries.same first instruction last (hcode.trans hsplit)
  exact (hinstalled.sameAt_iff hsplit).mp hsame

/-- Code that can be moved is carried by the trampoline. -/
theorem Relocatable.preserves (hinstalled : Installed decoder before after detour hook)
    (hrelocatable : Relocatable decoder before hook.target) :
    Preserves decoder before after hook := by
  have hlength := codeLength_stolenCode_le decoder before hook.target
  have horiginal := straightLine_stolenCode decoder before hook.target
  have hfree : ∀ first instruction last,
      stolenCode decoder before hook.target = first ++ instruction :: last →
        instruction.positionFree = true := by
    intro first instruction last hsplit
    apply hrelocatable
    rw [hsplit]
    simp
  have hsame : ∀ first instruction last,
      stolenCode decoder before hook.target = first ++ instruction :: last →
        instruction.SameAt (hook.target + codeLength first)
          (hook.trampoline + codeLength first) := by
    intro first instruction last hsplit
    exact (hinstalled.sameAt_iff hsplit).mpr (hfree first instruction last hsplit)
  refine ⟨stolenCode decoder before hook.target, horiginal, hinstalled.saved.symm,
    hinstalled.enough, ?_, hsame, ?_, ?_, ?_⟩
  · rw [hinstalled.written]
    exact horiginal.of_copy (load_detoured_copy hinstalled.placed hinstalled.enough hlength)
  · intro effect machine
    exact (run_eq effect hsame machine).symm
  · intro first instruction last displacement hsplit hbranch
    have hrelative := hfree first instruction last hsplit
    simp [Instruction.positionFree, hbranch, Branch.positionFree] at hrelative
  · intro machine hmachine
    rw [hinstalled.written] at hmachine ⊢
    simp only
    rw [decode_detoured_jump decoder hinstalled.placed hinstalled.enough hlength]
    exact congrArg some
      (quadword_detoured hinstalled.placed hinstalled.enough hlength hmachine)

/-- The trampoline of an installed hook runs the original instructions exactly if none of
those that were stolen has a RIP-relative operand or is a relative branch. -/
theorem preserves_iff_relocatable
    (hinstall : install (decoderPlatform decoder protect) before allocated target detour =
      (after, some hook))
    (hplaced : ∀ trampoline, allocated = some trampoline → Placed target trampoline) :
    Preserves decoder before after hook ↔ Relocatable decoder before target := by
  obtain ⟨rfl, hinstalled⟩ := installed_of_install hinstall hplaced
  exact ⟨Preserves.relocatable hinstalled, Relocatable.preserves hinstalled⟩

end Install

/-! ## Two prologues -/

/-- How long the instructions of the samples are, by their first byte. -/
def sampleLength : UInt8 → ℕ
  | 0x48 => 7
  | 0xE9 => 5
  | 0xFF => 6
  | _ => 1

def displacement (bytes : List UInt8) : BitVec 64 :=
  (BitVec.ofNat 32 (leValue bytes)).signExtend 64

/-- `lea rax, [rip+d]`, `jmp d` and `jmp [rip+d]`; no other sample uses its own address. -/
def sampleFields : List UInt8 → List Operand × Option Branch
  | 0x48 :: 0x8D :: 0x05 :: bytes => ([.ripRelative (displacement bytes)], none)
  | 0xE9 :: bytes => ([], some (.relative (displacement bytes)))
  | 0xFF :: 0x25 :: bytes =>
      ([.ripRelative (displacement bytes)], some (.memory (.ripRelative (displacement bytes))))
  | _ => ([], none)

def sampleDecode : List UInt8 → Instruction
  | [] => ⟨0, [], none⟩
  | byte :: bytes =>
      let length := min (sampleLength byte) (bytes.length + 1)
      let (operands, branch) := sampleFields ((byte :: bytes).take length)
      ⟨length, operands, branch⟩

theorem sampleLength_pos (byte : UInt8) : 0 < sampleLength byte ∧ sampleLength byte ≤ 15 := by
  unfold sampleLength
  split <;> decide

theorem sampleDecode_cons {byte : UInt8} {bytes : List UInt8} (hlong : 15 ≤ bytes.length + 1) :
    sampleDecode (byte :: bytes) =
      ⟨sampleLength byte, (sampleFields ((byte :: bytes).take (sampleLength byte))).1,
        (sampleFields ((byte :: bytes).take (sampleLength byte))).2⟩ := by
  have hlength : min (sampleLength byte) (bytes.length + 1) = sampleLength byte :=
    Nat.min_eq_left (Nat.le_trans (sampleLength_pos byte).2 hlong)
  simp only [sampleDecode, hlength]

def sampleDecoder : Decoder where
  decode := sampleDecode
  length_pos := by
    intro bytes hbytes
    cases bytes with
    | nil => exact absurd rfl hbytes
    | cons byte bytes => exact Nat.lt_min.mpr ⟨(sampleLength_pos byte).1, Nat.succ_pos _⟩
  length_le := by
    intro bytes
    cases bytes with
    | nil => exact Nat.le_refl _
    | cons byte bytes => exact Nat.min_le_right _ _
  length_le_fifteen := by
    intro bytes
    cases bytes with
    | nil => exact Nat.zero_le _
    | cons byte bytes => exact Nat.le_trans (Nat.min_le_left _ _) (sampleLength_pos byte).2
  decode_congr := by
    intro left right hleft hright hsame
    cases left with
    | nil => simp at hleft
    | cons byte left =>
        cases right with
        | nil => simp at hright
        | cons other right =>
            rw [sampleDecode_cons hleft] at hsame
            obtain ⟨count, hcount⟩ := Nat.exists_eq_add_of_lt (sampleLength_pos byte).1
            obtain rfl : byte = other := by
              simp only [hcount, List.take_succ_cons, Nat.zero_add] at hsame
              exact (List.cons.inj hsame).1
            rw [sampleDecode_cons hleft, sampleDecode_cons hright, hsame]
  decode_jump := by
    intro rest
    have hzero : displacement [0, 0, 0, 0] = 0 := by decide
    simp [sampleDecode, sampleLength, sampleFields, hzero]

/-- A memory of `nop` with these bytes at 0x1000. -/
def sampleMemory (code : List UInt8) : Memory UInt8 :=
  store (fun _ => 0x90) ⟨0x1000, code⟩

/-- `sub rsp, 40; add rsp, 40`. -/
def frameCode : List UInt8 :=
  [0x48, 0x81, 0xEC, 0x28, 0x00, 0x00, 0x00, 0x48, 0x81, 0xC4, 0x28, 0x00, 0x00, 0x00]

/-- `lea rax, [rip+16]; sub rsp, 40`. -/
def leaCode : List UInt8 :=
  [0x48, 0x8D, 0x05, 0x10, 0x00, 0x00, 0x00, 0x48, 0x81, 0xEC, 0x28, 0x00, 0x00, 0x00]

def sampleInstall (code : List UInt8) : Memory UInt8 × Option Hook :=
  install (decoderPlatform sampleDecoder fun _ _ => true) (sampleMemory code) (some 0x20000)
    0x1000 0x30000

def sampleHook (code : List UInt8) : Hook := ⟨0x1000, 0x30000, 0x20000, code⟩

theorem samplePlaced : ∀ trampoline, some 0x20000 = some trampoline →
    Placed 0x1000 trampoline := by
  intro trampoline htrampoline
  cases htrampoline
  exact ⟨by decide, by decide, by decide⟩

theorem preserves_iff_relocatable_frameCode :
    Relocatable sampleDecoder (sampleMemory frameCode) 0x1000 ∧
      Preserves sampleDecoder (sampleMemory frameCode) (sampleInstall frameCode).1
        (sampleHook frameCode) := by
  have hinstall : sampleInstall frameCode =
      ((sampleInstall frameCode).1, some (sampleHook frameCode)) :=
    Prod.ext rfl (by decide)
  have hrelocatable : Relocatable sampleDecoder (sampleMemory frameCode) 0x1000 := by
    unfold Relocatable
    decide
  exact ⟨hrelocatable, (preserves_iff_relocatable hinstall samplePlaced).mpr hrelocatable⟩

/-- The copied `lea` computes an address that is off by the distance of the trampoline. -/
theorem not_preserves_leaCode :
    sampleInstall leaCode = ((sampleInstall leaCode).1, some (sampleHook leaCode)) ∧
      ¬ Preserves sampleDecoder (sampleMemory leaCode) (sampleInstall leaCode).1
        (sampleHook leaCode) := by
  have hinstall : sampleInstall leaCode =
      ((sampleInstall leaCode).1, some (sampleHook leaCode)) :=
    Prod.ext rfl (by decide)
  refine ⟨hinstall, fun hpreserves => ?_⟩
  obtain ⟨_, hinstalled⟩ := installed_of_install hinstall samplePlaced
  have hstolen : (⟨7, [.ripRelative 16], none⟩ : Instruction) ∈
      stolenCode sampleDecoder (sampleMemory leaCode) 0x1000 := by decide
  exact absurd (hpreserves.relocatable hinstalled _ hstolen) (by decide)

end FrogAgent.InlineDetour
