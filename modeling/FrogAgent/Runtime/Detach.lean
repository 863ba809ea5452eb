import FrogAgent.Hook.CodeRestore
import FrogAgent.Protocol.PacketHooks

/-!
# Leaving the process

On `DLL_PROCESS_DETACH` the last runtime is unloaded, which removes its hooks, and then the
packet hooks are removed.  Both kinds of hooks patch the same code.  A script may come and go
on either side of the installation of the packet hooks, and may hook a function that has a
packet hook already; what must not happen is that a packet hook is put over the hook of a
script.
-/

namespace FrogAgent.Detach

open FrogAgent.ByteMemory
open FrogAgent.CodeRestore
open FrogAgent.InlineDetour
open FrogAgent.OneHookPerMethod
open FrogAgent.PacketHooks
open FrogAgent.Protocol (HookedFunction)
open FrogAgent.Run
open FrogAgent.Slots

structure Agent where
  env : Env
  modules : Modules
  platform_eq : modules.platform = env.platform

/-- The hooks of the scripts and those of the packet capture, in one memory. -/
structure Process where
  tracked : Tracked
  orig : HookedFunction → Option ℕ
  hooks : List Hook

def Process.started (memory : Memory UInt8) : Process := ⟨.initial memory, fun _ => none, []⟩

/-- What the packet hooks see. -/
def Process.packets (process : Process) : State :=
  ⟨process.tracked.state.memory, process.orig, process.hooks⟩

def Process.setPackets (process : Process) (state : State) : Process :=
  { tracked := { process.tracked with
      state := { process.tracked.state with memory := state.memory } }
    orig := state.orig
    hooks := state.hooks }

inductive Label where
  | script (op : HookOp)
  /-- One `hook_sym!` of `install_packet_hooks`. -/
  | packet (function : HookedFunction)

def step (agent : Agent) (process : Process) : Label → Option Process
  | .script op => (trackStep agent.env process.tracked op).map fun tracked =>
      { process with tracked }
  | .packet function =>
      some (process.setPackets (hookSym agent.modules process.packets function))

/-- The packet hooks go last. -/
def removePackets (agent : Agent) (process : Process) : Process :=
  process.setPackets (removePacketHooks agent.modules process.packets)

/-- No live hook of either kind overlaps. -/
def Separate (process : Process) (h : Hook) : Prop :=
  (∀ slot ctx, process.tracked.state.slots slot = some ctx →
    ctx.patch.saved.Disjoint h.saved) ∧
  ∀ other ∈ process.hooks, other.saved.Disjoint h.saved

/-- Scripts remove their hooks last installed first where these overlap, and a packet hook
overlaps nothing that is live when it is put in place. -/
def Orderly (agent : Agent) (process : Process) : Label → Prop
  | .script op => AllocsAvoid agent.modules.code op ∧ RemovesNested process.tracked op
  | .packet function => ∀ more,
      (hookSym agent.modules process.packets function).hooks = process.hooks ++ more →
        ∀ h ∈ more, Separate process h

/-! ## What a run keeps -/

/-- `base` is the original code with the packet hooks alone. -/
structure Based (agent : Agent) (original base : Memory UInt8) (hooks : List Hook) : Prop where
  ready : ∀ h ∈ hooks, h.target ≠ 0 ∧
    agent.modules.platform.protect h.target h.originalBytes.length = true
  saved : ∀ h ∈ hooks, h.saved.Agrees original
  intact : ∀ address ∈ agent.modules.code, (∀ h ∈ hooks, ¬ h.saved.Covers address) →
    base address = original address

/-- The hooks of the scripts lie on top of the packet hooks. -/
def Keeps (agent : Agent) (original : Memory UInt8) (process : Process) : Prop :=
  ∃ base, Layered agent.env agent.modules.code base process.tracked ∧
    Based agent original base process.hooks

section Steps

variable {agent : Agent} {original base : Memory UInt8} {process next : Process}

theorem keeps_started (agent : Agent) (memory : Memory UInt8) :
    Keeps agent memory (.started memory) :=
  ⟨memory, layered_initial agent.env agent.modules.code memory, nofun, nofun, fun _ _ _ => rfl⟩

/-- A patch that no script's hook overlaps goes to the bottom. -/
theorem layered_patch {tracked : Tracked} {written : Memory UInt8} {patch : Patch UInt8}
    (hlayered : Layered agent.env agent.modules.code base tracked)
    (hwritten : AgreeOn agent.modules.code written tracked.state.memory)
    (hdisjoint : ∀ slot ctx, tracked.state.slots slot = some ctx →
      ctx.patch.saved.Disjoint patch) :
    Layered agent.env agent.modules.code (store base patch)
      { tracked with state := { tracked.state with memory := store written patch } } where
  pages := hlayered.pages
  thunks := hlayered.thunks
  protects := hlayered.protects
  nodup := hlayered.nodup
  live := hlayered.live
  unwound := by
    have hapart : ∀ other ∈ savedPatches tracked.state.slots tracked.live,
        other.Disjoint patch := by
      intro other hother
      simp only [savedPatches, List.mem_filterMap, Option.map_eq_some_iff] at hother
      obtain ⟨slot, -, ctx, hslot, rfl⟩ := hother
      exact hdisjoint slot ctx hslot
    have hpull := @storeAll_pull _ written _ [] patch hapart
    rw [storeAll_append, storeAll_cons, storeAll_nil, List.append_nil] at hpull
    rw [← hpull]
    exact (((hwritten.storeAll _).trans hlayered.unwound).store patch)

theorem disjoint_of_length {first : Patch UInt8} {start : ℕ} {cells bytes : List UInt8}
    (hdisjoint : first.Disjoint ⟨start, cells⟩) (hlength : bytes.length = cells.length) :
    first.Disjoint ⟨start, bytes⟩ := by
  intro address hfirst hsecond
  apply hdisjoint address hfirst
  rwa [Patch.Covers, hlength] at hsecond

/-- A packet hook that overlaps nothing has saved the original code. -/
theorem Based.agrees {hooks : List Hook} {memory : Memory UInt8}
    (hbased : Based agent original base hooks) {target stolen : ℕ}
    (hcode : ∀ address, target ≤ address → address < target + stolen →
      address ∈ agent.modules.code)
    (hmemory : ∀ address, target ≤ address → address < target + stolen →
      memory address = base address)
    (hdisjoint : ∀ other ∈ hooks, other.saved.Disjoint ⟨target, load memory target stolen⟩) :
    (⟨target, load memory target stolen⟩ : Patch UInt8).Agrees original := by
  rw [agrees_load_iff]
  intro address hlow hhigh
  rw [hmemory address hlow hhigh]
  apply hbased.intact address (hcode address hlow hhigh)
  intro other hother hcovers
  apply hdisjoint other hother address hcovers
  exact ⟨hlow, by rwa [length_load]⟩

theorem Based.put {hooks : List Hook} {h : Hook} {bytes : List UInt8}
    (hbased : Based agent original base hooks) (hlength : bytes.length = h.originalBytes.length)
    (hready : h.target ≠ 0 ∧
      agent.modules.platform.protect h.target h.originalBytes.length = true)
    (hsaved : h.saved.Agrees original) :
    Based agent original (store base ⟨h.target, bytes⟩) (hooks ++ [h]) where
  ready := List.forall_mem_append.mpr ⟨hbased.ready, List.forall_mem_singleton.mpr hready⟩
  saved := List.forall_mem_append.mpr ⟨hbased.saved, List.forall_mem_singleton.mpr hsaved⟩
  intact := by
    intro address hmem houtside
    obtain ⟨hold, hlast⟩ := List.forall_mem_append.mp houtside
    have hkept : ¬ (⟨h.target, bytes⟩ : Patch UInt8).Covers address := by
      rw [Patch.Covers, hlength]
      exact hlast h (List.mem_singleton_self h)
    rw [store_of_not_covers base hkept]
    exact hbased.intact address hmem hold

/-- Outside the hooks of the scripts the memory is that below them. -/
theorem below_scripts {tracked : Tracked}
    (hlayered : Layered agent.env agent.modules.code base tracked) {address : ℕ}
    (hcode : address ∈ agent.modules.code)
    (houtside : ∀ slot ctx, tracked.state.slots slot = some ctx →
      ¬ ctx.patch.saved.Covers address) :
    tracked.state.memory address = base address :=
  hlayered.codeIntact address hcode houtside

theorem Keeps.packet (hkeeps : Keeps agent original process) {function : HookedFunction}
    (horderly : Orderly agent process (.packet function)) :
    Keeps agent original
      (process.setPackets (hookSym agent.modules process.packets function)) := by
  obtain ⟨base, hlayered, hbased⟩ := hkeeps
  unfold Orderly hookSym at horderly
  unfold hookSym
  cases haddr : agent.modules.getProcAddress function with
  | none => exact ⟨base, hlayered, hbased⟩
  | some target =>
      simp only [haddr] at horderly ⊢
      rcases install_cases agent.modules.platform process.packets.memory
          (agent.modules.virtualAlloc function) target (agent.modules.detour function) with
        ⟨written, hinstall, hwritten⟩ |
        ⟨buffer, stolen, written, halloc, hlong, hshort, hprotect, hwritten, hinstall⟩
      · rw [hinstall]
        have hagree : AgreeOn agent.modules.code written process.tracked.state.memory := by
          rcases hwritten with rfl | ⟨buffer, bytes, halloc, hbytes, rfl⟩
          · exact fun _ _ => rfl
          · exact store_buffer_agreeOn halloc hbytes
        exact ⟨base, hlayered.frame hagree hlayered.pages, hbased⟩
      · rw [hinstall] at horderly ⊢
        obtain ⟨hscripts, hpackets⟩ := horderly _ rfl _ (List.mem_singleton_self _)
        have hbuffer : (trampolineBytes (load process.packets.memory target stolen)
            (target + stolen)).length ≤ 46 := by
          rw [length_trampolineBytes, length_load]
          omega
        have hagree : AgreeOn agent.modules.code written process.tracked.state.memory := by
          rw [hwritten]
          exact store_buffer_agreeOn halloc hbuffer
        have hcode : ∀ address, target ≤ address → address < target + stolen →
            address ∈ agent.modules.code := fun address hlow hhigh =>
          agent.modules.inside function target haddr address hlow (by omega)
        have hmemory : ∀ address, target ≤ address → address < target + stolen →
            written address = base address := by
          intro address hlow hhigh
          rw [hagree address (hcode address hlow hhigh)]
          apply below_scripts hlayered (hcode address hlow hhigh)
          intro slot ctx hslot hcovers
          apply hscripts slot ctx hslot address hcovers
          exact ⟨hlow, by simpa only [Hook.saved, length_load] using hhigh⟩
        have hsaved := hbased.agrees hcode hmemory hpackets
        have hlength := length_patchBytes (agent.modules.detour function) hlong
        have hbottom := layered_patch hlayered hagree fun slot ctx hslot =>
          disjoint_of_length (hscripts slot ctx hslot)
            (hlength.trans (length_load written target stolen).symm)
        have hput := @Based.put agent original base process.hooks
          ⟨target, agent.modules.detour function, buffer, load written target stolen⟩
          (patchBytes (agent.modules.detour function) stolen) hbased
          (hlength.trans (length_load written target stolen).symm)
          ⟨fun hnull => agent.modules.nonnull function (hnull ▸ haddr), by rwa [length_load]⟩
          hsaved
        exact ⟨_, hbottom, hput⟩

theorem Keeps.step (hkeeps : Keeps agent original process) {label : Label}
    (horderly : Orderly agent process label)
    (hstep : Detach.step agent process label = some next) : Keeps agent original next := by
  cases label with
  | script op =>
      obtain ⟨tracked, htracked, rfl⟩ := Option.map_eq_some_iff.mp hstep
      obtain ⟨base, hlayered, hbased⟩ := hkeeps
      exact ⟨base, layered_step process.tracked op tracked hlayered horderly htracked, hbased⟩
  | packet function =>
      obtain rfl := Option.some.inj hstep
      exact hkeeps.packet horderly

/-! ## At the end -/

theorem Keeps.intact (hkeeps : Keeps agent original process) {address : ℕ}
    (hcode : address ∈ agent.modules.code)
    (hscripts : ∀ slot ctx, process.tracked.state.slots slot = some ctx →
      ¬ ctx.patch.saved.Covers address)
    (hpackets : ∀ h ∈ process.hooks, ¬ h.saved.Covers address) :
    process.tracked.state.memory address = original address := by
  obtain ⟨base, hlayered, hbased⟩ := hkeeps
  exact (below_scripts hlayered hcode hscripts).trans (hbased.intact address hcode hpackets)

/-- Once the scripts have no hooks left, removing the packet hooks restores the code. -/
theorem Keeps.restored (hkeeps : Keeps agent original process)
    (hnone : ∀ slot, process.tracked.state.slots slot = none) :
    AgreeOn agent.modules.code (removePackets agent process).tracked.state.memory original := by
  intro address hcode
  have hscripts : ∀ slot ctx, process.tracked.state.slots slot = some ctx →
      ¬ ctx.patch.saved.Covers address := by
    intro slot ctx hslot
    rw [hnone slot] at hslot
    contradiction
  obtain ⟨base, hlayered, hbased⟩ := hkeeps
  have hremoved : (removePackets agent process).tracked.state.memory =
      storeAll process.tracked.state.memory (process.hooks.map Hook.saved) :=
    foldl_remove agent.modules.platform process.hooks process.tracked.state.memory hbased.ready
  rw [hremoved]
  by_cases hcovered : ∃ patch ∈ process.hooks.map Hook.saved, patch.Covers address
  · apply storeAll_of_agrees _ original _ hcovered
    exact List.forall_mem_map.mpr hbased.saved
  · have houtside : ∀ h ∈ process.hooks, ¬ h.saved.Covers address := fun h hmem hcovers =>
      hcovered ⟨h.saved, List.mem_map_of_mem hmem, hcovers⟩
    rw [storeAll_of_not_covers _ (List.forall_mem_map.mpr houtside)]
    exact (below_scripts hlayered hcode hscripts).trans (hbased.intact address hcode houtside)

end Steps

/-- In every run that is orderly, whichever scripts come and go and whenever the packet hooks
are installed: the code outside the live hooks is the original in every state, and detaching
in a state in which the scripts have no hooks left restores all of it. -/
theorem detach_restores (agent : Agent) (original : Memory UInt8) (labels : List Label)
    (horderly : Meets (step agent) (Orderly agent) (.started original) labels)
    {process : Process} (hvisits : Visits (step agent) (.started original) labels process) :
    (∀ address ∈ agent.modules.code,
      (∀ slot ctx, process.tracked.state.slots slot = some ctx →
        ¬ ctx.patch.saved.Covers address) →
      (∀ h ∈ process.hooks, ¬ h.saved.Covers address) →
      process.tracked.state.memory address = original address) ∧
    ((∀ slot, process.tracked.state.slots slot = none) →
      AgreeOn agent.modules.code (removePackets agent process).tracked.state.memory
        original) := by
  have hkeeps : Keeps agent original process :=
    horderly.invariant (keeps_started agent original)
      (fun _ _ _ hkeeps hlabel hstep => hkeeps.step hlabel hstep) hvisits
  exact ⟨fun address hcode hscripts hpackets => hkeeps.intact hcode hscripts hpackets,
    hkeeps.restored⟩

/-- A process in which `send` is the method that the sample scripts hook. -/
def sampleAgent : Agent where
  env := sampleEnv
  modules := {
    platform := sampleEnv.platform
    ws2 := true
    kernel32 := false
    getProcAddress := fun function => if function = .send then some 0x1000 else none
    detour := fun _ => 0x7100
    virtualAlloc := fun function => if function = .send then some 0x5000 else none
    code := sampleCode
    nonnull := by
      intro function hnull
      rw [Option.ite_none_right_eq_some] at hnull
      exact absurd hnull.2 (by decide)
    inside := by
      intro function target htarget address hlow hhigh
      rw [Option.ite_none_right_eq_some, Option.some.injEq] at htarget
      obtain ⟨-, rfl⟩ := htarget
      exact ⟨hlow, hhigh⟩
    fresh := by
      intro function base hbase address hlow hhigh hcode
      rw [Option.ite_none_right_eq_some, Option.some.injEq] at hbase
      obtain ⟨-, rfl⟩ := hbase
      exact absurd (Nat.lt_of_le_of_lt hlow hcode.2) (by decide)
    apart := by
      intro function other base buffer hne hbase hbuffer
      rw [Option.ite_none_right_eq_some] at hbase hbuffer
      exact absurd (hbase.1.trans hbuffer.1.symm) hne }
  platform_eq := rfl

/-- A script hooks `send` over its packet hook, and is unloaded first. -/
def sampleLabels : List Label := [.packet .send, .script (sampleInstall 0), .script (.remove 0)]

theorem orderly_sampleLabels :
    Meets (step sampleAgent) (Orderly sampleAgent) (.started sampleMemory) sampleLabels := by
  refine meets_cons ?_ fun first hfirst => meets_cons ?_ fun second hsecond =>
    meets_cons ?_ fun third _ => meets_nil third
  · intro more _ h _
    exact ⟨nofun, nofun⟩
  · exact ⟨allocsAvoid_sampleInstall_zero, trivial⟩
  · refine ⟨trivial, fun later slot earlier ctx hsplit _ _ other hother => ?_⟩
    have hlive : (run (step sampleAgent) (.started sampleMemory)
        (sampleLabels.take 2)).map (fun process => process.tracked.live) = some [0] := by
      decide +kernel
    simp only [sampleLabels, List.take, run_cons, hfirst, Option.bind_some, hsecond, run_nil,
      Option.map_some, Option.some.injEq] at hlive
    rw [hlive] at hsplit
    cases later with
    | nil => simp at hother
    | cons head tail => simp at hsplit

theorem detach_restores_sample :
    ∃ process, run (step sampleAgent) (.started sampleMemory) sampleLabels = some process ∧
      AgreeOn sampleCode (removePackets sampleAgent process).tracked.state.memory
        sampleMemory := by
  have hdone : (run (step sampleAgent) (.started sampleMemory) sampleLabels).isSome = true := by
    decide +kernel
  obtain ⟨process, hrun⟩ := Option.isSome_iff_exists.mp hdone
  have hempty : ((run (step sampleAgent) (.started sampleMemory) sampleLabels).map
      fun process => decide (∀ slot, (process.tracked.state.slots slot).isNone)) =
        some true := by
    decide +kernel
  rw [hrun, Option.map_some, Option.some.injEq, decide_eq_true_eq] at hempty
  refine ⟨process, hrun, ?_⟩
  exact (detach_restores sampleAgent sampleMemory sampleLabels orderly_sampleLabels
    (visits_end hrun)).2 fun slot => Option.isNone_iff_eq_none.mp (hempty slot)

/-- The worker loads the first script before it installs the packet hooks.  If that script has
hooked `send`, the packet hook has saved the jump of the script, and detaching leaves it. -/
theorem not_restored_packet_over_script :
    ∃ process, run (step sampleAgent) (.started sampleMemory)
        [.script (sampleInstall 0), .packet .send, .script (.remove 0)] = some process ∧
      ¬ AgreeOn sampleCode (removePackets sampleAgent process).tracked.state.memory
        sampleMemory := by
  have hfirst : (run (step sampleAgent) (.started sampleMemory)
      [.script (sampleInstall 0), .packet .send, .script (.remove 0)]).map (fun process =>
        (removePackets sampleAgent process).tracked.state.memory 0x1000) = some 0x48 := by
    decide +kernel
  obtain ⟨process, hrun, hbyte⟩ := Option.map_eq_some_iff.mp hfirst
  refine ⟨process, hrun, fun hrestored => ?_⟩
  have hcode := hrestored 0x1000 ⟨by decide, by decide⟩
  rw [hbyte] at hcode
  exact absurd hcode (by decide)

end FrogAgent.Detach
