import FrogAgent.Hook.Shim

/-!
# Transparency of a hook that changes nothing

`replay.rs` says that arguments beyond the fourth are passed through unchanged
on the original stack frame, which the trampoline still sees.  The replay calls
the trampoline from its own frame, three frames below the caller's: the argument
registers arrive as they were, and where the original looks for its fifth
argument there is the `rbx` the replay has saved.
-/

namespace FrogAgent.Transparency

open FrogAgent.Shim
open FrogAgent.X64

/-- The way from a hooked method to its trampoline.  `dispatch` is the compiled
`dispatch_rust` from its entry to its call of the replay, with `depth` bytes of
stack in use there; it passes its register block on with the captured arguments
in it, and does not read the stack arguments, of which a method with its
one-byte parameter count has at most 252. -/
structure HookPath where
  methodId : Word
  shimAddr : Word
  returnToShim : Word
  returnToDispatch : Word
  returnToReplay : Word
  trampoline : Word
  dispatch : Cpu → Cpu
  depth : Cpu → ℕ
  depth_lt : ∀ cpu, depth cpu < 2 ^ 32
  rsp : ∀ cpu,
    (dispatch cpu).reg .rsp = cpu.reg .rsp - BitVec.ofNat 64 (depth cpu)
  rcx : ∀ cpu, (dispatch cpu).reg .rcx = trampoline
  rdx : ∀ cpu, (dispatch cpu).reg .rdx = cpu.reg .rdx
  args : ∀ cpu slot,
    (dispatch cpu).memory (cpu.reg .rdx + intOffset slot) =
        cpu.memory (cpu.reg .rdx + intOffset slot) ∧
      (dispatch cpu).memory (cpu.reg .rdx + floatOffset slot) =
        cpu.memory (cpu.reg .rdx + floatOffset slot)
  blind : ∀ cpu index word, index < 252 →
    (dispatch (cpu.write (cpu.reg .rdx + 160 + 8 * BitVec.ofNat 64 index)
      word)).reg .rbx = (dispatch cpu).reg .rbx

namespace HookPath

variable (path : HookPath)

/-- On entry to `dispatch_rust`. -/
def captured (cpu : Cpu) : Cpu :=
  exec (universalShim path.returnToShim)
    (exec (thunk path.methodId path.shimAddr) cpu)

/-- On entry to the trampoline. -/
def entry (cpu : Cpu) : Cpu :=
  exec (callTrampolineWithRegargs path.returnToReplay)
    (exec [.call path.returnToDispatch] (path.dispatch (path.captured cpu)))

/-- With `count` parameters, the original finds its arguments as on a direct
call. -/
structure Transparent (count : ℕ) (cpu : Cpu) : Prop where
  ints : ∀ slot, (path.entry cpu).reg (intReg slot) = cpu.reg (intReg slot)
  floats : ∀ slot, (path.entry cpu).xmm slot = cpu.xmm slot
  stack : ∀ index, index < count - 4 →
    stackArg (path.entry cpu) index = stackArg cpu index

/-! ## The captured registers -/

theorem thunk_frame (cpu : Cpu) :
    let entered := exec (thunk path.methodId path.shimAddr) cpu
    entered.reg .rsp = cpu.reg .rsp ∧ entered.xmm = cpu.xmm ∧
      ∀ slot, entered.reg (intReg slot) = cpu.reg (intReg slot) := by
  refine ⟨by simp [thunk, Instr.exec], rfl, ?_⟩
  intro slot
  fin_cases slot <;> simp [thunk, Instr.exec, intReg]

theorem reg_captured (cpu : Cpu) :
    (path.captured cpu).reg .rdx = cpu.reg .rsp - 120 ∧
      (path.captured cpu).reg .rsp = cpu.reg .rsp - 160 := by
  obtain ⟨hrdx, hrsp⟩ := reg_shimDispatch (exec shimCapture (exec shimPrologue
    (exec (thunk path.methodId path.shimAddr) cpu))) path.returnToShim
  rw [captured, universalShim, exec_append, exec_append, hrdx, hrsp,
    reg_shimCapture, rsp_shimPrologue, (path.thunk_frame cpu).1]
  refine ⟨rfl, ?_⟩
  bv_omega

/-- The block `dispatch_rust` gets holds the caller's argument registers. -/
theorem memory_captured (cpu : Cpu) (slot : Fin 4) :
    (path.captured cpu).memory (cpu.reg .rsp - 120 + intOffset slot) =
        cpu.reg (intReg slot) ∧
      (path.captured cpu).memory (cpu.reg .rsp - 120 + floatOffset slot) =
        cpu.xmm slot := by
  obtain ⟨hrsp, hxmm, hints⟩ := path.thunk_frame cpu
  have hblock : cpu.reg .rsp - 120 = (exec shimCapture (exec shimPrologue
      (exec (thunk path.methodId path.shimAddr) cpu))).reg .rsp := by
    rw [reg_shimCapture, rsp_shimPrologue, hrsp]
  rw [captured, universalShim, exec_append, exec_append, hblock,
    memory_shimDispatch _ _ (inBlock_intOffset slot),
    memory_shimDispatch _ _ (inBlock_floatOffset slot), reg_shimCapture]
  obtain ⟨hint, hfloat⟩ := memory_shimCapture (exec shimPrologue
    (exec (thunk path.methodId path.shimAddr) cpu)) slot
  rw [hint, hfloat, intReg_shimPrologue, xmm_shimPrologue, hints, hxmm]
  exact ⟨rfl, rfl⟩

/-! ## The replay -/

/-- The state in which the replay is entered. -/
def called (cpu : Cpu) : Cpu :=
  exec [.call path.returnToDispatch] (path.dispatch (path.captured cpu))

theorem rsp_called (cpu : Cpu) : (path.called cpu).reg .rsp =
    cpu.reg .rsp - 168 - BitVec.ofNat 64 (path.depth (path.captured cpu)) := by
  simp only [called, exec_cons, exec_nil, Instr.exec, pushWord, Cpu.reg_set,
    Cpu.reg_write, if_true, path.rsp, (path.reg_captured cpu).2]
  bv_omega

theorem memory_called (cpu : Cpu) {offset : Word} (hoffset : InBlock offset) :
    (path.called cpu).memory (cpu.reg .rsp - 120 + offset) =
      (path.dispatch (path.captured cpu)).memory
        (cpu.reg .rsp - 120 + offset) := by
  obtain ⟨hlow, hhigh⟩ := hoffset
  have hdepth := path.depth_lt (path.captured cpu)
  apply memory_exec
  simp only [addresses, Instr.address, Option.toList, List.append_nil,
    List.mem_singleton, path.rsp, (path.reg_captured cpu).2]
  bv_omega

theorem entry_eq (cpu : Cpu) : path.entry cpu =
    exec [.call path.returnToReplay]
      (exec replayLoads (exec replayPrologue (path.called cpu))) := by
  rw [entry, callTrampolineWithRegargs, exec_append, exec_append, called]

theorem rdx_called (cpu : Cpu) :
    (path.called cpu).reg .rdx = cpu.reg .rsp - 120 := by
  rw [← (path.reg_captured cpu).1, ← path.rdx (path.captured cpu)]
  simp [called, Instr.exec, pushWord]

/-- The saved `rbx` lies below the block. -/
theorem memory_replayPrologue_called (cpu : Cpu) {offset : Word}
    (hoffset : InBlock offset) :
    (exec replayPrologue (path.called cpu)).memory
        (cpu.reg .rsp - 120 + offset) =
      (path.dispatch (path.captured cpu)).memory
        (cpu.reg .rsp - 120 + offset) := by
  have hne : cpu.reg .rsp - 120 + offset ≠ (path.called cpu).reg .rsp - 8 := by
    obtain ⟨hlow, hhigh⟩ := hoffset
    have hdepth := path.depth_lt (path.captured cpu)
    rw [rsp_called]
    bv_omega
  rw [memory_replayPrologue, if_neg hne, path.memory_called cpu hoffset]

/-- The argument registers reach the original as they were. -/
theorem registers_entry (cpu : Cpu) (slot : Fin 4) :
    (path.entry cpu).reg (intReg slot) = cpu.reg (intReg slot) ∧
      (path.entry cpu).xmm slot = cpu.xmm slot := by
  have hcall : (path.entry cpu).reg (intReg slot) = (exec replayLoads
      (exec replayPrologue (path.called cpu))).reg (intReg slot) := by
    rw [entry_eq]
    fin_cases slot <;> simp [Instr.exec, pushWord, intReg]
  obtain ⟨hint, hfloat⟩ :=
    reg_replayLoads (exec replayPrologue (path.called cpu)) slot
  have hargs := path.args (path.captured cpu) slot
  rw [(path.reg_captured cpu).1] at hargs
  obtain ⟨hints, hfloats⟩ := path.memory_captured cpu slot
  constructor
  · rw [hcall, hint, (reg_replayPrologue _).2.1, rdx_called,
      path.memory_replayPrologue_called cpu (inBlock_intOffset slot), hargs.1,
      hints]
  · rw [entry_eq]
    change (exec replayLoads (exec replayPrologue (path.called cpu))).xmm slot = _
    rw [hfloat, (reg_replayPrologue _).2.1, rdx_called,
      path.memory_replayPrologue_called cpu (inBlock_floatOffset slot), hargs.2,
      hfloats]

/-- The replay calls the trampoline. -/
theorem rax_entry (cpu : Cpu) : (path.entry cpu).reg .rax = path.trampoline := by
  have hcall : (path.entry cpu).reg .rax = (exec replayLoads
      (exec replayPrologue (path.called cpu))).reg .rax := by
    rw [entry_eq]
    simp [Instr.exec, pushWord]
  rw [hcall, (frame_replayLoads _).1, (reg_replayPrologue _).1]
  simp [called, Instr.exec, pushWord, path.rcx]

/-- In place of its fifth argument the original finds the saved `rbx`. -/
theorem stackArg_entry (cpu : Cpu) : stackArg (path.entry cpu) 0 =
    (path.dispatch (path.captured cpu)).reg .rbx := by
  obtain ⟨-, hrsp, hmemory⟩ :=
    frame_replayLoads (exec replayPrologue (path.called cpu))
  rw [(reg_replayPrologue _).2.2] at hrsp
  have hslot : (path.called cpu).reg .rsp - 40 - 8 + 0x28 +
      8 * BitVec.ofNat 64 0 = (path.called cpu).reg .rsp - 8 := by
    bv_omega
  have hne : (path.called cpu).reg .rsp - 8 ≠
      (path.called cpu).reg .rsp - 40 - 8 := by
    bv_omega
  rw [entry_eq, stackArg]
  simp only [exec_cons, exec_nil, Instr.exec, pushWord, Cpu.reg_set,
    Cpu.reg_write, Cpu.memory_write, Cpu.memory_set, if_true, hrsp, hslot,
    if_neg hne, hmemory, memory_replayPrologue]
  simp [called, Instr.exec, pushWord]

/-! ## Stack arguments -/

/-- The shim works below the caller's stack arguments. -/
theorem captured_write (cpu : Cpu) {index : ℕ} (hindex : index < 252)
    (word : Word) :
    path.captured (cpu.write
        (cpu.reg .rsp + 0x28 + 8 * BitVec.ofNat 64 index) word) =
      (path.captured cpu).write
        ((path.captured cpu).reg .rdx + 160 + 8 * BitVec.ofNat 64 index)
          word := by
  have haddress : (path.captured cpu).reg .rdx + 160 +
      8 * BitVec.ofNat 64 index =
        cpu.reg .rsp + 0x28 + 8 * BitVec.ofNat 64 index := by
    rw [(path.reg_captured cpu).1]
    bv_omega
  rw [haddress, captured, exec_write (by simp [thunk, addresses, Instr.address]),
    exec_write]
  · rfl
  · rw [universalShim, addresses_append, addresses_append,
      addresses_shimPrologue, addresses_shimCapture, addresses_shimDispatch,
      exec_append, reg_shimCapture, rsp_shimPrologue,
      (path.thunk_frame cpu).1]
    simp only [List.map_cons, List.map_nil, List.mem_append, List.mem_cons,
      List.not_mem_nil, or_false, not_or]
    refine ⟨⟨?_, ?_, ?_, ?_, ?_, ?_, ?_, ?_, ?_, ?_⟩, ?_, ?_, ?_⟩ <;> bv_omega

/-- A hook that changes nothing is transparent in every state exactly for the
methods with at most four parameters, `this` included. -/
theorem transparent_iff_count_le_four (count : ℕ) :
    (∀ cpu, path.Transparent count cpu) ↔ count ≤ 4 := by
  constructor
  · intro htransparent
    by_contra hcount
    -- A caller whose fifth argument is not what `rbx` holds at the replay.
    let cpu : Cpu := ⟨fun _ => 0, fun _ => 0, fun _ => 0⟩
    let saved := (path.dispatch (path.captured cpu)).reg .rbx
    let other := cpu.write (cpu.reg .rsp + 0x28 + 8 * BitVec.ofNat 64 0)
      (saved + 1)
    have hseen := (htransparent other).stack 0 (by omega)
    have hsaved : stackArg (path.entry other) 0 = saved := by
      rw [stackArg_entry, path.captured_write cpu (by omega),
        path.blind _ _ _ (by omega)]
    have hpassed : stackArg other 0 = saved + 1 := by
      simp only [stackArg, other, Cpu.reg_write, Cpu.memory_write, if_true]
    rw [hsaved, hpassed] at hseen
    bv_omega
  · intro hcount cpu
    refine ⟨fun slot => (path.registers_entry cpu slot).1,
      fun slot => (path.registers_entry cpu slot).2, ?_⟩
    intro index hindex
    omega

end HookPath

/-! ## A method with five parameters -/

/-- A `dispatch_rust` with 64 bytes of stack and a zero in `rbx`. -/
def samplePath : HookPath where
  methodId := 0
  shimAddr := 0x7000
  returnToShim := 0x7100
  returnToDispatch := 0x8100
  returnToReplay := 0x9100
  trampoline := 0x200000
  dispatch := fun cpu =>
    ((cpu.set .rsp (cpu.reg .rsp - 64)).set .rcx 0x200000).set .rbx 0
  depth := fun _ => 64
  depth_lt := fun _ => by decide
  rsp := fun _ => rfl
  rcx := fun _ => rfl
  rdx := fun _ => rfl
  args := fun _ _ => ⟨rfl, rfl⟩
  blind := fun _ _ _ _ => rfl

/-- A caller that passes 7 in every stack slot. -/
def sampleCall : Cpu where
  reg := fun register => if register = .rsp then 0x10008 else 0
  xmm := fun _ => 0
  memory := fun _ => 7

theorem not_transparent_sampleCall : ¬ samplePath.Transparent 5 sampleCall := by
  intro htransparent
  have hstack := htransparent.stack 0 (by decide)
  have hzero : stackArg (samplePath.entry sampleCall) 0 = 0 := by
    decide +kernel
  have hseven : stackArg sampleCall 0 = 7 := rfl
  rw [hzero, hseven] at hstack
  exact absurd hstack (by decide)

end FrogAgent.Transparency
