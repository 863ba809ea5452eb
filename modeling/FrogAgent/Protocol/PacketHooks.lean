import FrogAgent.Hook.InlineDetour
import FrogAgent.Protocol.CaptureDetours

/-!
# Installing and removing the packet hooks

`install_packet_hooks` patches the functions that it finds one after the other, and
`remove_packet_hooks` drains the list of hooks from its front.  While the hooks are in place
every one of them leads to its own detour, and every trampoline holds the first instructions of
its function as they were; afterwards the code is what it was.
-/

namespace FrogAgent.PacketHooks

open Function
open FrogAgent.ByteMemory
open FrogAgent.InlineDetour
open FrogAgent.Protocol

/-- The process as the installation meets it.  `getProcAddress` gives a function that a module
exports, and `virtualAlloc` the buffer for its trampoline. -/
structure Modules where
  platform : Platform
  ws2 : Bool
  kernel32 : Bool
  getProcAddress : HookedFunction → Option ℕ
  detour : HookedFunction → ℕ
  virtualAlloc : HookedFunction → Option ℕ
  /-- The code of the process. -/
  code : Set ℕ
  nonnull : ∀ function, getProcAddress function ≠ some 0
  inside : ∀ function target, getProcAddress function = some target →
    ∀ address, target ≤ address → address < target + 32 → address ∈ code
  -- The buffers are pages of their own.
  fresh : ∀ function base, virtualAlloc function = some base → Avoids code base 46
  apart : ∀ function other base buffer, function ≠ other →
    virtualAlloc function = some base → virtualAlloc other = some buffer →
    Apart base 46 buffer 46

/-- The memory, the statics `ORIG_*` and the list `HOOKS`. -/
structure State where
  memory : Memory UInt8
  orig : HookedFunction → Option ℕ
  hooks : List Hook

def State.started (memory : Memory UInt8) : State := ⟨memory, fun _ => none, []⟩

section Install

variable (modules : Modules)

/-- `hook_sym!` -/
def hookSym (state : State) (function : HookedFunction) : State :=
  match modules.getProcAddress function with
  | none => state
  | some addr =>
      match install modules.platform state.memory (modules.virtualAlloc function) addr
          (modules.detour function) with
      | (memory, none) => { state with memory }
      | (memory, some h) =>
          { memory
            -- `OnceLock::set` keeps what is stored already.
            orig := update state.orig function ((state.orig function).or (some h.trampoline))
            hooks := state.hooks ++ [h] }

def ws2Functions : List HookedFunction :=
  [.send, .wsasend, .sendto, .wsasendto, .recv, .wsarecv, .recvfrom, .wsarecvfrom, .closesocket]

def kernel32Functions : List HookedFunction := [.gqcs, .gqcsex]

def installPacketHooks (state : State) : State :=
  if modules.ws2 then
    let state := ws2Functions.foldl (hookSym modules) state
    if modules.kernel32 then kernel32Functions.foldl (hookSym modules) state else state
  else state

def removePacketHooks (state : State) : State :=
  { state with
    memory := state.hooks.foldl (fun memory h => h.remove modules.platform memory) state.memory
    hooks := [] }

/-- The functions that are looked up. -/
def wanted : List HookedFunction :=
  if modules.ws2 then ws2Functions ++ (if modules.kernel32 then kernel32Functions else [])
  else []

theorem installPacketHooks_eq (state : State) :
    installPacketHooks modules state = (wanted modules).foldl (hookSym modules) state := by
  rw [installPacketHooks, wanted]
  split
  · split
    · rw [List.foldl_append]
    · rw [List.append_nil]
  · rfl

theorem nodup_wanted : (wanted modules).Nodup := by
  rw [wanted]
  cases modules.ws2 <;> cases modules.kernel32 <;> decide

end Install

/-! ## One installation -/

/-- The installation fails and has written its trampoline at most, or it gives a hook. -/
theorem install_cases (platform : Platform) (memory : Memory UInt8) (trampoline : Option ℕ)
    (target detour : ℕ) :
    (∃ written, install platform memory trampoline target detour = (written, none) ∧
      (written = memory ∨ ∃ base bytes, trampoline = some base ∧ bytes.length ≤ 46 ∧
        written = store memory ⟨base, bytes⟩)) ∨
    ∃ base stolen written, trampoline = some base ∧ 12 ≤ stolen ∧ stolen ≤ 32 ∧
      platform.protect target stolen = true ∧
      written = store memory ⟨base, trampolineBytes (load memory target stolen)
        (target + stolen)⟩ ∧
      install platform memory trampoline target detour =
        (store written ⟨target, patchBytes detour stolen⟩,
          some ⟨target, detour, base, load written target stolen⟩) := by
  have hbound := stolenLen_decode_le platform memory target
  unfold install
  generalize stolenLen 0 (platform.decode target (load memory target 32)) = stolen at hbound
  simp only
  by_cases hlong : stolen < 12
  · exact .inl ⟨memory, if_pos hlong, .inl rfl⟩
  rw [if_neg hlong]
  cases trampoline with
  | none => exact .inl ⟨memory, rfl, .inl rfl⟩
  | some base =>
      by_cases hprotect : platform.protect target stolen = true
      · exact .inr ⟨base, stolen, _, rfl, Nat.not_lt.mp hlong, hbound, hprotect, rfl,
          if_pos hprotect⟩
      · refine .inl ⟨_, if_neg hprotect, .inr ⟨base, _, rfl, ?_, rfl⟩⟩
        rw [length_trampolineBytes, length_load]
        omega

/-! ## While the hooks are in place -/

/-- A hook that stands in memory, on top of the original code. -/
structure Placed (modules : Modules) (original memory : Memory UInt8) (h : Hook)
    (function : HookedFunction) : Prop where
  target : modules.getProcAddress function = some h.target
  detour : h.detour = modules.detour function
  trampoline : modules.virtualAlloc function = some h.trampoline
  long : 12 ≤ h.originalBytes.length
  short : h.originalBytes.length ≤ 32
  protect : modules.platform.protect h.target h.originalBytes.length = true
  saved : h.originalBytes = load original h.target h.originalBytes.length
  patched : load memory h.target h.originalBytes.length =
    patchBytes h.detour h.originalBytes.length
  stolen : load memory h.trampoline (h.originalBytes.length + 14) =
    trampolineBytes h.originalBytes (h.target + h.originalBytes.length)

/-- What the installation of the given functions keeps. -/
structure Keeps (modules : Modules) (original : Memory UInt8) (functions : List HookedFunction)
    (state : State) : Prop where
  placed : ∀ h ∈ state.hooks, ∃ function ∈ functions,
    Placed modules original state.memory h function
  orig : ∀ function trampoline, state.orig function = some trampoline →
    ∃ h ∈ state.hooks, h.trampoline = trampoline ∧ h.detour = modules.detour function ∧
      modules.getProcAddress function = some h.target
  intact : ∀ address ∈ modules.code, (∀ h ∈ state.hooks, ¬ h.saved.Covers address) →
    state.memory address = original address

section Steps

variable {modules : Modules} {original memory after : Memory UInt8} {h : Hook}
variable {function : HookedFunction} {functions : List HookedFunction} {state : State}

theorem keeps_started (modules : Modules) (memory : Memory UInt8) :
    Keeps modules memory [] (.started memory) :=
  ⟨nofun, nofun, fun _ _ _ => rfl⟩

/-- A hook stays in place while its function and its trampoline are not written to. -/
theorem Placed.frame (hplaced : Placed modules original memory h function)
    (htarget : ∀ address, h.saved.Covers address → after address = memory address)
    (hbuffer : ∀ address, h.trampoline ≤ address → address < h.trampoline + 46 →
      after address = memory address) :
    Placed modules original after h function := by
  have hshort := hplaced.short
  refine { hplaced with patched := ?_, stolen := ?_ }
  · rw [← hplaced.patched]
    apply load_congr
    intro offset hoffset
    exact htarget _ ⟨Nat.le_add_right _ _, Nat.add_lt_add_left hoffset _⟩
  · rw [← hplaced.stolen]
    apply load_congr
    intro offset hoffset
    exact hbuffer _ (Nat.le_add_right _ _) (by omega)

theorem Placed.mem_code (hplaced : Placed modules original memory h function) {address : ℕ}
    (hcovers : h.saved.Covers address) : address ∈ modules.code := by
  have hshort := hplaced.short
  obtain ⟨hlow, hhigh⟩ := hcovers
  have hend : address < h.target + h.originalBytes.length := hhigh
  exact modules.inside function h.target hplaced.target address hlow (by omega)

theorem store_buffer_agreeOn {base : ℕ} {bytes : List UInt8}
    (halloc : modules.virtualAlloc function = some base) (hbytes : bytes.length ≤ 46) :
    AgreeOn modules.code (store memory ⟨base, bytes⟩) memory :=
  store_agreeOn_of_avoids memory
    ((modules.fresh function base halloc).mono (Nat.le_refl _) (Nat.add_le_add_left hbytes _))

/-- Writing into the buffer of a function that comes later disturbs nothing. -/
theorem Keeps.store_buffer (hkeeps : Keeps modules original functions state)
    (hnew : function ∉ functions) {base : ℕ} {bytes : List UInt8}
    (halloc : modules.virtualAlloc function = some base) (hbytes : bytes.length ≤ 46) :
    Keeps modules original functions { state with memory := store state.memory ⟨base, bytes⟩ } := by
  have hcode := @store_buffer_agreeOn modules state.memory function base bytes halloc hbytes
  have hframe : ∀ h other, other ∈ functions → Placed modules original state.memory h other →
      Placed modules original (store state.memory ⟨base, bytes⟩) h other := by
    intro h other hother hplaced
    apply hplaced.frame
    · exact fun address hcovers => hcode address (hplaced.mem_code hcovers)
    · intro address hlow hhigh
      have happ := modules.apart other function h.trampoline base
        (fun heq => hnew (heq ▸ hother)) hplaced.trampoline halloc
      apply store_of_not_covers
      rintro ⟨hstart, hend⟩
      simp only at hstart hend
      rcases happ with hleft | hright <;> omega
  refine ⟨?_, hkeeps.orig, ?_⟩
  · intro h hmem
    obtain ⟨other, hother, hplaced⟩ := hkeeps.placed h hmem
    exact ⟨other, hother, hframe h other hother hplaced⟩
  · intro address hmem houtside
    exact (hcode address hmem).trans (hkeeps.intact address hmem houtside)

/-- Patching a function that no other hook overlaps. -/
theorem Keeps.store_patch (hkeeps : Keeps modules original functions state)
    (hnew : Placed modules original (store state.memory ⟨h.target,
      patchBytes h.detour h.originalBytes.length⟩) h function)
    (hdisjoint : ∀ other ∈ state.hooks, other.saved.Disjoint h.saved) :
    Keeps modules original (functions ++ [function])
      { memory := store state.memory ⟨h.target, patchBytes h.detour h.originalBytes.length⟩
        orig := update state.orig function ((state.orig function).or (some h.trampoline))
        hooks := state.hooks ++ [h] } := by
  have hlength := length_patchBytes h.detour hnew.long
  have hkept : ∀ address, ¬ h.saved.Covers address →
      store state.memory ⟨h.target, patchBytes h.detour h.originalBytes.length⟩ address =
        state.memory address := by
    intro address houtside
    apply store_of_not_covers
    rwa [Patch.Covers, hlength]
  refine ⟨?_, ?_, ?_⟩
  · intro other hmem
    rcases List.mem_append.mp hmem with hold | hlast
    · obtain ⟨earlier, hearlier, hplaced⟩ := hkeeps.placed other hold
      refine ⟨earlier, List.mem_append_left _ hearlier, hplaced.frame ?_ ?_⟩
      · exact fun address hcovers => hkept address (hdisjoint other hold address hcovers)
      · intro address hlow hhigh
        apply hkept address
        intro hcovers
        exact modules.fresh earlier other.trampoline hplaced.trampoline address hlow hhigh
          (hnew.mem_code hcovers)
    · obtain rfl := List.mem_singleton.mp hlast
      exact ⟨function, List.mem_append_right _ (List.mem_singleton_self _), hnew⟩
  · intro other trampoline horig
    dsimp only at horig
    by_cases hother : other = function
    · subst hother
      rw [update_self, Option.or_eq_some_iff] at horig
      rcases horig with hold | ⟨-, hlast⟩
      · obtain ⟨found, hmem, hfound⟩ := hkeeps.orig other trampoline hold
        exact ⟨found, List.mem_append_left _ hmem, hfound⟩
      · exact ⟨h, List.mem_append_right _ (List.mem_singleton_self _),
          Option.some.inj hlast, hnew.detour, hnew.target⟩
    · rw [update_of_ne hother] at horig
      obtain ⟨found, hmem, hfound⟩ := hkeeps.orig other trampoline horig
      exact ⟨found, List.mem_append_left _ hmem, hfound⟩
  · intro address hmem houtside
    obtain ⟨hold, hlast⟩ := List.forall_mem_append.mp houtside
    have hsame := hkept address (hlast h (List.mem_singleton_self _))
    exact hsame.trans (hkeeps.intact address hmem hold)

theorem Keeps.pass (hkeeps : Keeps modules original functions state)
    (function : HookedFunction) : Keeps modules original (functions ++ [function]) state where
  placed h hmem := by
    obtain ⟨other, hother, hplaced⟩ := hkeeps.placed h hmem
    exact ⟨other, List.mem_append_left _ hother, hplaced⟩
  orig := hkeeps.orig
  intact := hkeeps.intact

/-- The hook that an installation gives stands on the original code, if no other overlaps. -/
theorem placed_install (hkeeps : Keeps modules original functions state)
    {target base stolen : ℕ} (haddr : modules.getProcAddress function = some target)
    (halloc : modules.virtualAlloc function = some base) (hlong : 12 ≤ stolen)
    (hshort : stolen ≤ 32) (hprotect : modules.platform.protect target stolen = true)
    (hbuffer : load state.memory base (stolen + 14) =
      trampolineBytes (load state.memory target stolen) (target + stolen))
    (hdisjoint : ∀ other ∈ state.hooks, other.saved.Disjoint
      ⟨target, load state.memory target stolen⟩) :
    Placed modules original
      (store state.memory ⟨target, patchBytes (modules.detour function) stolen⟩)
      ⟨target, modules.detour function, base, load state.memory target stolen⟩ function := by
  have hlength := length_patchBytes (modules.detour function) hlong
  have hcode : ∀ address, target ≤ address → address < target + stolen →
      address ∈ modules.code := by
    intro address hlow hhigh
    exact modules.inside function target haddr address hlow (by omega)
  have hsaved : load state.memory target stolen = load original target stolen := by
    apply load_congr
    intro offset hoffset
    apply hkeeps.intact _ (hcode _ (Nat.le_add_right _ _) (Nat.add_lt_add_left hoffset _))
    intro other hother hcovers
    apply hdisjoint other hother _ hcovers
    refine ⟨Nat.le_add_right _ _, ?_⟩
    rw [length_load]
    exact Nat.add_lt_add_left hoffset _
  constructor
  case target => exact haddr
  case detour => rfl
  case trampoline => exact halloc
  case long => rwa [length_load]
  case short => rwa [length_load]
  case protect => rwa [length_load]
  case saved => rwa [length_load]
  case patched =>
    rw [length_load]
    exact load_store_self state.memory _ hlength
  case stolen =>
    rw [length_load, ← hbuffer]
    apply load_congr
    intro offset hoffset
    apply store_of_not_covers
    rintro ⟨hlow, hhigh⟩
    simp only [hlength] at hlow hhigh
    exact modules.fresh function base halloc _ (Nat.le_add_right _ _) (by omega)
      (hcode _ hlow hhigh)

theorem Keeps.hookSym (hkeeps : Keeps modules original functions state)
    (hnew : function ∉ functions)
    (hdisjoint : (hookSym modules state function).hooks.Pairwise
      fun left right => left.saved.Disjoint right.saved) :
    Keeps modules original (functions ++ [function]) (hookSym modules state function) := by
  unfold PacketHooks.hookSym at hdisjoint ⊢
  cases haddr : modules.getProcAddress function with
  | none => exact hkeeps.pass function
  | some target =>
      simp only [haddr] at hdisjoint ⊢
      rcases install_cases modules.platform state.memory (modules.virtualAlloc function) target
          (modules.detour function) with
        ⟨written, hinstall, hwritten⟩ |
        ⟨base, stolen, written, halloc, hlong, hshort, hprotect, hwritten, hinstall⟩
      · rw [hinstall]
        rcases hwritten with rfl | ⟨base, bytes, halloc, hbytes, rfl⟩
        · exact hkeeps.pass function
        · exact (hkeeps.store_buffer hnew halloc hbytes).pass function
      · rw [hinstall] at hdisjoint ⊢
        have hlength := length_trampolineBytes (load state.memory target stolen)
          (target + stolen)
        rw [length_load] at hlength
        have hbytes : (trampolineBytes (load state.memory target stolen)
            (target + stolen)).length ≤ 46 := by omega
        have hcode := @store_buffer_agreeOn modules state.memory function base _ halloc hbytes
        have hkept := hkeeps.store_buffer hnew halloc hbytes
        have hbuffer := load_store_self state.memory
          ⟨base, trampolineBytes (load state.memory target stolen) (target + stolen)⟩ hlength
        rw [← hwritten] at hcode hkept hbuffer
        have hsame : load written target stolen = load state.memory target stolen := by
          apply load_congr
          intro offset hoffset
          exact hcode _ (modules.inside function target haddr _ (Nat.le_add_right _ _) (by omega))
        rw [← hsame] at hbuffer
        have hlater : ∀ other ∈ state.hooks, other.saved.Disjoint
            ⟨target, load written target stolen⟩ := fun other hother =>
          (List.pairwise_append.mp hdisjoint).2.2 other hother _ (List.mem_singleton_self _)
        have hplaced := placed_install hkept haddr halloc hlong hshort hprotect hbuffer hlater
        have hstep := @Keeps.store_patch modules original
          ⟨target, modules.detour function, base, load written target stolen⟩ function functions
          { state with memory := written } hkept (by rwa [length_load]) hlater
        rwa [length_load] at hstep

/-- Whatever hooks there are in the end, they were made one after the other. -/
theorem hooks_hookSym (modules : Modules) (state : State) (function : HookedFunction) :
    ∃ more, (PacketHooks.hookSym modules state function).hooks = state.hooks ++ more := by
  unfold PacketHooks.hookSym
  cases modules.getProcAddress function with
  | none => exact ⟨[], (List.append_nil _).symm⟩
  | some target =>
      simp only
      split
      · exact ⟨[], (List.append_nil _).symm⟩
      · exact ⟨_, rfl⟩

theorem keeps_foldl (modules : Modules) (original : Memory UInt8)
    (functions : List HookedFunction) (hnodup : functions.Nodup)
    (hdisjoint : (functions.foldl (PacketHooks.hookSym modules) (.started original)).hooks.Pairwise
      fun left right => left.saved.Disjoint right.saved) :
    Keeps modules original functions
      (functions.foldl (PacketHooks.hookSym modules) (.started original)) := by
  induction functions using List.reverseRecOn with
  | nil => exact keeps_started modules original
  | append_singleton functions function ih =>
      rw [List.foldl_append, List.foldl_cons, List.foldl_nil] at hdisjoint ⊢
      obtain ⟨hfirst, -, hnew⟩ := List.nodup_append.mp hnodup
      obtain ⟨more, hmore⟩ := hooks_hookSym modules
        (functions.foldl (PacketHooks.hookSym modules) (.started original)) function
      have hearlier := hdisjoint
      rw [hmore] at hearlier
      refine (ih hfirst (List.pairwise_append.mp hearlier).1).hookSym ?_ hdisjoint
      exact fun hmem => hnew function hmem function (List.mem_singleton_self _) rfl

/-! ## Removal -/

/-- Once no hook is null and every range can be made writable again, removal writes all saved
bytes back. -/
theorem foldl_remove (platform : Platform) (hooks : List Hook) (memory : Memory UInt8)
    (hready : ∀ h ∈ hooks, h.target ≠ 0 ∧
      platform.protect h.target h.originalBytes.length = true) :
    hooks.foldl (fun memory h => h.remove platform memory) memory =
      storeAll memory (hooks.map Hook.saved) := by
  induction hooks generalizing memory with
  | nil => rfl
  | cons h hooks ih =>
      obtain ⟨⟨hnonnull, hprotect⟩, hrest⟩ := List.forall_mem_cons.mp hready
      have hremove : h.remove platform memory = store memory h.saved := by
        rw [Hook.remove, if_neg hnonnull, if_pos hprotect]
      rw [List.foldl_cons, hremove, ih _ hrest, List.map_cons, storeAll_cons]

/-- The order in which the hooks are removed does not matter. -/
theorem Keeps.restored (hkeeps : Keeps modules original functions state) {hooks : List Hook}
    (horder : hooks.Perm state.hooks) :
    AgreeOn modules.code
      (hooks.foldl (fun memory h => h.remove modules.platform memory) state.memory) original := by
  have hagrees : ∀ patch ∈ hooks.map Hook.saved, patch.Agrees original := by
    intro patch hpatch
    obtain ⟨h, hmem, rfl⟩ := List.mem_map.mp hpatch
    obtain ⟨function, -, hplaced⟩ := hkeeps.placed h (horder.mem_iff.mp hmem)
    rw [Hook.saved, hplaced.saved]
    exact (agrees_load_iff original original _ _).mpr fun _ _ _ => rfl
  rw [foldl_remove]
  · intro address hcode
    by_cases hcovered : ∃ patch ∈ hooks.map Hook.saved, patch.Covers address
    · exact storeAll_of_agrees state.memory original hagrees hcovered
    · have houtside : ∀ patch ∈ hooks.map Hook.saved, ¬ patch.Covers address :=
        fun patch hpatch hcovers => hcovered ⟨patch, hpatch, hcovers⟩
      rw [storeAll_of_not_covers state.memory houtside]
      apply hkeeps.intact address hcode
      exact fun h hmem => houtside _ (List.mem_map_of_mem (horder.mem_iff.mpr hmem))
  · intro h hmem
    obtain ⟨function, -, hplaced⟩ := hkeeps.placed h (horder.mem_iff.mp hmem)
    refine ⟨fun hnull => modules.nonnull function ?_, hplaced.protect⟩
    rw [hplaced.target, hnull]

theorem Placed.verifyPatched (hplaced : Placed modules original memory h function) :
    h.verifyPatched memory = true := by
  have hnonnull : h.target ≠ 0 := fun hnull => modules.nonnull function (hnull ▸ hplaced.target)
  have hjump := congrArg (List.take 12) hplaced.patched
  have hlength : ([0x48, 0xB8] ++ LittleEndian.leBytes 8 h.detour ++ [0xFF, 0xE0]).length = 12 :=
    rfl
  rw [take_load _ hplaced.long, patchBytes, List.take_left' hlength] at hjump
  rw [Hook.verifyPatched, Bool.and_eq_true, decide_eq_true_eq, beq_iff_eq]
  exact ⟨hnonnull, hjump.trans (List.append_nil _).symm⟩

end Steps

/-- Where the installed hooks do not overlap: each of them jumps to its detour, its trampoline
starts with the original instructions, and the trampoline that a detour finds belongs to the
hook of its own function.  The removal leaves no hook and restores the code. -/
theorem packetHooks_restored {modules : Modules} {memory : Memory UInt8} {installed : State}
    (hinstalled : installPacketHooks modules (.started memory) = installed)
    (hdisjoint : installed.hooks.Pairwise fun left right => left.saved.Disjoint right.saved) :
    (∀ h ∈ installed.hooks, h.verifyPatched installed.memory = true ∧
      load installed.memory h.trampoline (h.originalBytes.length + 14) =
        trampolineBytes (load memory h.target h.originalBytes.length)
          (h.target + h.originalBytes.length)) ∧
    (∀ function trampoline, installed.orig function = some trampoline →
      ∃ h ∈ installed.hooks, h.trampoline = trampoline ∧ h.detour = modules.detour function ∧
        modules.getProcAddress function = some h.target) ∧
    AgreeOn modules.code (removePacketHooks modules installed).memory memory ∧
    (removePacketHooks modules installed).hooks = [] := by
  rw [installPacketHooks_eq] at hinstalled
  subst hinstalled
  have hkeeps := keeps_foldl modules memory (wanted modules) (nodup_wanted modules) hdisjoint
  refine ⟨fun h hmem => ?_, hkeeps.orig, hkeeps.restored (.refl _), rfl⟩
  obtain ⟨function, -, hplaced⟩ := hkeeps.placed h hmem
  exact ⟨hplaced.verifyPatched, hplaced.saved ▸ hplaced.stolen⟩

/-- Two functions, the first at `0x1000`. -/
def sampleModules (second : ℕ) (hlow : 0x1000 ≤ second) (hhigh : second ≤ 0x1FE0) : Modules where
  platform := {
    decode := fun _ window => if 12 ≤ window.length then [12] else []
    protect := fun _ _ => true
    decode_sum_le := by
      intro _ window
      split
      · simpa
      · exact Nat.zero_le _ }
  ws2 := true
  kernel32 := false
  getProcAddress := fun function => match function with
    | .send => some 0x1000
    | .sendto => some second
    | _ => none
  detour := fun function => if function = .send then 0x7000 else 0x7100
  virtualAlloc := fun function => match function with
    | .send => some 0x5000
    | .sendto => some 0x6000
    | _ => none
  code := {address | 0x1000 ≤ address ∧ address < 0x2000}
  nonnull := by
    intro function hnull
    cases function <;> simp at hnull
    omega
  inside := by
    intro function target htarget address hstart hend
    cases function <;> simp at htarget
    all_goals exact ⟨by omega, by omega⟩
  fresh := by
    intro function base hbase address hstart hend hmem
    obtain ⟨-, hcode⟩ := hmem
    cases function <;> simp at hbase
    all_goals omega
  apart := by
    intro function other base buffer hother hbase hbuffer
    cases function <;> cases other <;> simp at hbase hbuffer hother
    all_goals subst hbase hbuffer; decide

theorem packetHooks_restored_two_functions :
    AgreeOn (sampleModules 0x1010 (by decide) (by decide)).code
      (removePacketHooks (sampleModules 0x1010 (by decide) (by decide))
        (installPacketHooks (sampleModules 0x1010 (by decide) (by decide))
          (.started fun _ => 0x90))).memory fun _ => 0x90 := by
  refine (packetHooks_restored rfl ?_).2.2.1
  have hhooks : (installPacketHooks (sampleModules 0x1010 (by decide) (by decide))
      (.started fun _ => 0x90)).hooks =
        [⟨0x1000, 0x7000, 0x5000, List.replicate 12 0x90⟩,
          ⟨0x1010, 0x7100, 0x6000, List.replicate 12 0x90⟩] := by
    decide +kernel
  rw [hhooks, List.pairwise_pair]
  rintro address ⟨-, hend⟩ ⟨hstart, -⟩
  simp only [Hook.saved, List.length_replicate] at hstart hend
  omega

/-- Two names for one function: the second hook has saved the jump of the first, and removing
the first before the second leaves that jump behind. -/
theorem not_restored_shared_function :
    ¬ AgreeOn (sampleModules 0x1000 (by decide) (by decide)).code
      (removePacketHooks (sampleModules 0x1000 (by decide) (by decide))
        (installPacketHooks (sampleModules 0x1000 (by decide) (by decide))
          (.started fun _ => 0x90))).memory fun _ => 0x90 := by
  intro hrestored
  have hfirst := hrestored 0x1000 ⟨by decide, by decide⟩
  exact absurd hfirst (by decide +kernel)

end FrogAgent.PacketHooks
