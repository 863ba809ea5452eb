import FrogAgent.Lib.ByteMemory
import FrogAgent.Lib.LittleEndian

/-!
# Inline detours

`inline_detour.rs`: patch the first instructions of a function with a jump and
keep the overwritten bytes, both in a trampoline that can still run them and in
the hook record that writes them back on removal.
-/

namespace FrogAgent.InlineDetour

open FrogAgent.ByteMemory
open FrogAgent.LittleEndian

/-- The platform services a detour depends on.  `decode` stands for the
disassembler: the lengths of the instructions found in a byte window at an
address, which never reach past the window.  `protect` says for which ranges
`VirtualProtect` succeeds. -/
structure Platform where
  decode : ℕ → List UInt8 → List ℕ
  protect : ℕ → ℕ → Bool
  decode_sum_le : ∀ ip window, (decode ip window).sum ≤ window.length

structure Hook where
  target : ℕ
  detour : ℕ
  trampoline : ℕ
  originalBytes : List UInt8
  deriving DecidableEq

/-- The bytes a hook occupies at its target. -/
def Hook.saved (hook : Hook) : Patch UInt8 := ⟨hook.target, hook.originalBytes⟩

/-- Add up instruction lengths until twelve bytes are covered or the window is
exhausted. -/
def stolenLen : ℕ → List ℕ → ℕ
  | total, [] => total
  | total, length :: lengths =>
      if 12 ≤ total + length then total + length
      else stolenLen (total + length) lengths

/-- `mov rax, detour; jmp rax`, padded with `nop` to the stolen length. -/
def patchBytes (detour stolen : ℕ) : List UInt8 :=
  [0x48, 0xB8] ++ leBytes 8 detour ++ [0xFF, 0xE0] ++
    List.replicate (stolen - 12) 0x90

/-- The stolen bytes followed by `jmp [rip+0]` to the rest of the target. -/
def trampolineBytes (stolen : List UInt8) (resume : ℕ) : List UInt8 :=
  stolen ++ [0xFF, 0x25, 0x00, 0x00, 0x00, 0x00] ++ leBytes 8 resume

/-- Install a detour.  `trampoline` is the answer of `VirtualAlloc` to the
request for a trampoline buffer, `none` for a null pointer. -/
def install (platform : Platform) (memory : Memory UInt8)
    (trampoline : Option ℕ) (target detour : ℕ) :
    Memory UInt8 × Option Hook :=
  let stolen := stolenLen 0 (platform.decode target (load memory target 32))
  if stolen < 12 then (memory, none)
  else
    match trampoline with
    | none => (memory, none)
    | some trampoline =>
        let memory := store memory
          ⟨trampoline, trampolineBytes (load memory target stolen)
            (target + stolen)⟩
        let originalBytes := load memory target stolen
        if platform.protect target stolen then
          (store memory ⟨target, patchBytes detour stolen⟩,
            some ⟨target, detour, trampoline, originalBytes⟩)
        else (memory, none)

/-- `Hook::verify_patched`: are our jump bytes still in place?  The answer only
decides whether `remove` logs a warning. -/
def Hook.verifyPatched (hook : Hook) (memory : Memory UInt8) : Bool :=
  hook.target ≠ 0 && load memory hook.target 12 == patchBytes hook.detour 12

/-- `Hook::remove`, run when the hook is dropped: write the saved bytes back
unless the range cannot be made writable. -/
def Hook.remove (platform : Platform) (hook : Hook) (memory : Memory UInt8) :
    Memory UInt8 :=
  if hook.target = 0 then memory
  else if platform.protect hook.target hook.originalBytes.length then
    store memory hook.saved
  else memory

theorem stolenLen_le (total : ℕ) (lengths : List ℕ) :
    stolenLen total lengths ≤ total + lengths.sum := by
  induction lengths generalizing total with
  | nil => simp [stolenLen]
  | cons length lengths ih =>
      have hrest := ih (total + length)
      unfold stolenLen
      split
      · simp only [List.sum_cons]
        omega
      · simp only [List.sum_cons]
        omega

/-- At most the whole decoded window is stolen. -/
theorem stolenLen_decode_le (platform : Platform) (memory : Memory UInt8)
    (target : ℕ) :
    stolenLen 0 (platform.decode target (load memory target 32)) ≤ 32 := by
  calc
    stolenLen 0 (platform.decode target (load memory target 32)) ≤
        0 + (platform.decode target (load memory target 32)).sum :=
      stolenLen_le 0 _
    _ ≤ (load memory target 32).length := by
      rw [Nat.zero_add]
      exact platform.decode_sum_le target _
    _ = 32 := length_load memory target 32

theorem length_patchBytes {stolen : ℕ} (detour : ℕ) (hstolen : 12 ≤ stolen) :
    (patchBytes detour stolen).length = stolen := by
  simp [patchBytes]
  omega

theorem length_trampolineBytes (stolen : List UInt8) (resume : ℕ) :
    (trampolineBytes stolen resume).length = stolen.length + 14 := by
  simp [trampolineBytes]

/-- Installing a detour changes at most the trampoline buffer and, on success,
the stolen bytes at the target, which the hook record has saved. -/
theorem install_effect {platform : Platform} {memory memory' : Memory UInt8}
    {trampoline : Option ℕ} {target detour : ℕ} {result : Option Hook}
    (hinstall : install platform memory trampoline target detour =
      (memory', result)) :
    ∃ written, (written = memory ∨ ∃ base bytes, trampoline = some base ∧
        bytes.length ≤ 46 ∧ written = store memory ⟨base, bytes⟩) ∧
      ((result = none ∧ memory' = written) ∨
        ∃ hook stolen, result = some hook ∧ 12 ≤ stolen ∧
          hook.saved = ⟨target, load written target stolen⟩ ∧
          hook.target = target ∧ hook.originalBytes.length = stolen ∧
          platform.protect target stolen = true ∧
          memory' = store written ⟨target, patchBytes detour stolen⟩) := by
  have hbound := stolenLen_decode_le platform memory target
  unfold install at hinstall
  simp only at hinstall
  generalize stolenLen 0 (platform.decode target (load memory target 32)) =
    stolen at hinstall hbound
  split at hinstall
  · cases hinstall
    exact ⟨memory, Or.inl rfl, Or.inl ⟨rfl, rfl⟩⟩
  · rename_i hlong
    cases trampoline with
    | none =>
        cases hinstall
        exact ⟨memory, Or.inl rfl, Or.inl ⟨rfl, rfl⟩⟩
    | some base =>
        have hlength : (trampolineBytes (load memory target stolen)
            (target + stolen)).length ≤ 46 := by
          rw [length_trampolineBytes, length_load]
          omega
        refine ⟨_, Or.inr ⟨base, _, rfl, hlength, rfl⟩, ?_⟩
        simp only at hinstall
        split at hinstall
        · rename_i hprotect
          cases hinstall
          refine Or.inr ⟨_, stolen, rfl, by omega, rfl, rfl, ?_, hprotect, rfl⟩
          simp
        · cases hinstall
          exact Or.inl ⟨rfl, rfl⟩

end FrogAgent.InlineDetour
