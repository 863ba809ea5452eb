import FrogAgent.Internals.DumpFields
import FrogAgent.Internals.DumpMerge
import FrogAgent.Internals.InstanceIter

/-!
# The dump in the start-up of the worker

The worker of `entry.rs` builds the class dump before it stores the context and registers
the backends that `methods_of` and `instances_of` go through.
-/

namespace FrogAgent.StartupDump

open FrogAgent.Calibration
open FrogAgent.Dump
open FrogAgent.FieldAccess (Context)
open FrogAgent.InstanceIter (ScanCache collectTake next)
open FrogAgent.KlassIter
open FrogAgent.Metadata
open FrogAgent.Slice (Checked)
open FrogAgent.SlotWalk

/-! ## The globals -/

/-- The two statics of `scan_backend`; `none` is the null they start with. -/
structure ScanBackend where
  nextMatchFn :
    Option (ℕ → ScanCache → BitVec 64 → Checked (ScanCache × Option (ℕ × BitVec 64)))
  validateFn : Option (ℕ → ℕ → Bool)

namespace ScanBackend

def unregistered : ScanBackend := ⟨none, none⟩

variable (backend : ScanBackend)

def nextMatch (klass : ℕ) (cache : ScanCache) (cursor : BitVec 64) :
    Checked (ScanCache × Option (ℕ × BitVec 64)) :=
  match backend.nextMatchFn with
  | none => pure (cache, none)
  | some nextMatch => nextMatch klass cache cursor

def validate (klass address : ℕ) : Bool :=
  match backend.validateFn with
  | none => false
  | some validate => validate klass address

/-- `instances_of`; what the scan cache holds already does not change the answer, and a
panic would end the worker. -/
def instancesOf (klass max : ℕ) : List ℕ :=
  match (collectTake (backend.nextMatch klass) (backend.validate klass) max
    (fun _ => none) 0).run with
  | .ok (some (_, instances)) => instances
  | _ => []

end ScanBackend

structure Globals where
  ctx : Option Context
  metadata : MetadataBackend (Option Context)
  scan : ScanBackend

namespace Globals

/-- Nothing is stored or registered yet. -/
def initial : Globals := ⟨none, .unregistered _, .unregistered⟩

variable (globals : Globals)

/-- `api::methods_of`; its iterator always ends. -/
def methodsOf (klass : ℕ) : List ℕ :=
  (KlassIter.methodsOf globals.metadata klass globals.ctx).getD []

/-! ## The sections of a class -/

/-- The name and the argument count the dump shows for a method. -/
def methodText (mi : ℕ) : String × ℕ :=
  match globals.ctx with
  | some context => ((methodName context mi).getD "?", methodParamCount context mi)
  | none => ("?", 0)

def methodLine (mi : ℕ) : String :=
  "        " ++ (globals.methodText mi).1 ++ "(" ++ toString (globals.methodText mi).2 ++
    " args)"

end Globals

def methodHeader (count : ℕ) : String := "    methods (" ++ toString count ++ "):"

def methodCapNote (count : ℕ) : List String :=
  if count = maxMethodsPerClass then
    ["        // ⚠ method walk hit MAX cap; some methods may be missing"]
  else []

/-- The header and one line for each method, or nothing. -/
def Globals.methodSection (globals : Globals) (cls : ℕ) : List String :=
  let methods := globals.methodsOf cls
  if methods = [] then []
  else methodHeader methods.length :: methods.map globals.methodLine

def collectRuntimeMethods (globals : Globals) (cls : ℕ) : List String :=
  let methods := globals.methodsOf cls
  let count := methods.length
  if count = 0 then []
  else methodHeader count :: methods.map globals.methodLine ++ methodCapNote count

def displayCap : ℕ := 10

def collectRuntimeInstances (globals : Globals) (cls : ℕ) : List String :=
  let instances := globals.scan.instancesOf cls (displayCap + 1)
  if instances = [] then []
  else
    let shown := min instances.length displayCap
    let suffix := if displayCap < instances.length then " (10+ shown)" else ""
    ("    live instances (" ++ toString shown ++ ")" ++ suffix) ::
      (instances.take displayCap).map fun inst => "        " ++ hex inst

/-! ## The worker -/

/-- What the worker knows of the process when it comes to the dump: its memory, the
accessors and the config in a `Context`, the cached regions with it, and what it has found
of the metadata. -/
structure Game where
  context : Context
  process : InstanceIter.Process
  image_eq : process.image = context.image
  stringHeapBase : Option ℕ
  tableMaxSlots : ℕ
  typesArray : Option ℕ
  metadata : Option Dump

/-- The process as `build_internals_lines` reads it under the given globals. -/
def Game.dumpProcess (game : Game) (globals : Globals) : Dump.Process where
  readU64 := fun address => (game.context.image.mapRead 8 address).map UInt64.ofNat
  classGetName := fun cls => game.context.image.classGetName cls.toNat
  classGetNamespace := fun cls => game.context.image.classGetNamespace cls.toNat
  collectRuntimeFields := fun cls =>
    DumpFields.collectRuntimeFields game.context game.stringHeapBase cls.toNat
  collectRuntimeMethods := fun cls => collectRuntimeMethods globals cls.toNat
  collectRuntimeInstances := fun cls => collectRuntimeInstances globals cls.toNat
  il2cppTypeName := fun typePtr =>
    (TypeNames.il2cppTypeName ⟨game.context.image, game.context.cfg, game.stringHeapBase, none⟩
      10 typePtr.toNat).getD ""
  tableBase := game.context.image.tableBase
  tableCount := game.context.image.tableCount
  tableMaxSlots := game.tableMaxSlots
  classTableStep := game.context.cfg.classTableStep
  typesArray := game.typesArray

/-- The steps of the start-up the dump depends on. -/
inductive Step where
  | buildInternalsLines
  | initCtx
  | registerMetadataBackend
  | registerScanBackend
  deriving DecidableEq

/-- The globals, and the lines for `internals.txt` with the globals they were built
under. -/
structure Worker where
  globals : Globals
  built : Option (Globals × List String)

def step (game : Game) (worker : Worker) : Step → Worker
  | .buildInternalsLines =>
      { worker with
        built := some (worker.globals,
          (buildInternalsLines (game.dumpProcess worker.globals) game.metadata).1) }
  | .initCtx =>
      -- `OnceLock::set` keeps what is stored already.
      { worker with
        globals := { worker.globals with ctx := worker.globals.ctx.or (some game.context) } }
  | .registerMetadataBackend =>
      { worker with globals := { worker.globals with metadata := registerMetadataBackend } }
  | .registerScanBackend =>
      { worker with
        globals := { worker.globals with
          scan := ⟨some (InstanceIter.scanNextMatch game.process),
            some (InstanceIter.scanValidate game.process.image)⟩ } }

def run (game : Game) (steps : List Step) : Worker :=
  steps.foldl (step game) ⟨.initial, none⟩

/-- The order of `worker`. -/
def workerSteps : List Step :=
  [.buildInternalsLines, .initCtx, .registerMetadataBackend, .registerScanBackend]

/-- The lines are those of the blocks, and each block of a live class has the section of
the methods the class has now. -/
def Worker.ListsMethods (game : Game) (worker : Worker) : Prop :=
  ∃ before lines, worker.built = some (before, lines) ∧
    lines = (dumpBlocks (game.dumpProcess before) game.metadata).flatMap Block.lines ∧
    ∀ slot cls block, slotClass (game.dumpProcess before) slot = some cls →
      block ∈ dumpBlocks (game.dumpProcess before) game.metadata →
      block.origin = .runtime slot →
        worker.globals.methodSection cls.toNat <:+: block.lines

/-! ## Any order of the steps -/

section Orders

variable (game : Game) (steps : List Step)

theorem run_ctx :
    (run game steps).globals.ctx = if .initCtx ∈ steps then some game.context else none := by
  induction steps using List.reverseRecOn with
  | nil => rfl
  | append_singleton steps last ih =>
      rw [run, List.foldl_append, List.foldl_cons, List.foldl_nil]
      change (step game (run game steps) last).globals.ctx = _
      cases last with
      | initCtx =>
          simp only [step, ih, List.mem_append, List.mem_singleton, or_true, if_true]
          split <;> rfl
      | buildInternalsLines => simpa [step] using ih
      | registerMetadataBackend => simpa [step] using ih
      | registerScanBackend => simpa [step] using ih

theorem run_metadata :
    (run game steps).globals.metadata =
      if .registerMetadataBackend ∈ steps then registerMetadataBackend
      else .unregistered _ := by
  induction steps using List.reverseRecOn with
  | nil => rfl
  | append_singleton steps last ih =>
      rw [run, List.foldl_append, List.foldl_cons, List.foldl_nil]
      change (step game (run game steps) last).globals.metadata = _
      cases last with
      | registerMetadataBackend => simp [step]
      | buildInternalsLines => simpa [step] using ih
      | initCtx => simpa [step] using ih
      | registerScanBackend => simpa [step] using ih

end Orders

/-! ## The blocks of the live classes -/

section Blocks

variable {game : Game} {globals : Globals}

/-- The section stands at the start of what the dump appends for the methods. -/
theorem collectRuntimeMethods_eq (cls : ℕ) :
    ∃ note, collectRuntimeMethods globals cls = globals.methodSection cls ++ note := by
  unfold collectRuntimeMethods Globals.methodSection
  by_cases hnone : globals.methodsOf cls = []
  · exact ⟨[], by simp [hnone]⟩
  · have hcount : ¬ (globals.methodsOf cls).length = 0 := by
      rwa [List.length_eq_zero_iff]
    exact ⟨methodCapNote (globals.methodsOf cls).length, by simp [hnone]⟩

/-- What follows the fields in the block of a live class. -/
theorem classBlock_extra {process : Process} {dump : Option Dump} {slot : ℕ} {cls : UInt64}
    {block : Block} (hblock : classBlock process dump slot cls = some block) :
    ∃ note, block.extra =
      note ++ (process.collectRuntimeMethods cls ++ process.collectRuntimeInstances cls) := by
  unfold classBlock at hblock
  cases hmatch : metadataMatch process dump cls with
  | some found =>
      simp only [hmatch] at hblock
      cases hblock
      exact ⟨_, rfl⟩
  | none =>
      simp only [hmatch] at hblock
      split at hblock
      · cases hblock
        exact ⟨_, rfl⟩
      · cases hblock

/-- A dump built under some globals shows the methods those globals lead to. -/
theorem methodSection_infix {slot : ℕ} {cls : UInt64} {block : Block}
    (hblock : classBlock (game.dumpProcess globals) game.metadata slot cls = some block) :
    globals.methodSection cls.toNat <:+: block.lines := by
  obtain ⟨note, hextra⟩ := classBlock_extra hblock
  obtain ⟨capNote, hmethods⟩ := @collectRuntimeMethods_eq globals cls.toNat
  have hsection : (game.dumpProcess globals).collectRuntimeMethods cls =
      globals.methodSection cls.toNat ++ capNote := hmethods
  refine ⟨block.header :: block.entries.map Entry.line ++ note,
    capNote ++ (game.dumpProcess globals).collectRuntimeInstances cls, ?_⟩
  rw [Block.lines, hextra, hsection]
  simp only [List.cons_append, List.append_assoc]

end Blocks

/-- Once the context is stored and the metadata backend registered, a dump lists the
methods, whatever else has happened and in whatever order. -/
theorem listsMethods_of_ready (game : Game) {steps : List Step} (hctx : .initCtx ∈ steps)
    (hmetadata : .registerMetadataBackend ∈ steps) :
    (run game (steps ++ [.buildInternalsLines])).ListsMethods game ∧
      ∀ klass, (run game (steps ++ [.buildInternalsLines])).globals.methodsOf klass =
        walk (methodSlot game.context klass) maxMethodsPerClass 0 := by
  have hlast : run game (steps ++ [.buildInternalsLines]) =
      step game (run game steps) .buildInternalsLines := by
    rw [run, List.foldl_append]
    rfl
  rw [hlast]
  constructor
  · refine ⟨_, _, rfl, buildInternalsLines_eq _ _, ?_⟩
    intro slot cls block hcls hblock horigin
    obtain ⟨-, other, hother, hclass⟩ := mem_dumpBlocks_runtime.mp ⟨hblock, horigin⟩
    rw [hcls] at hother
    cases hother
    exact methodSection_infix hclass
  · intro klass
    have hready : (KlassIter.methodsOf (run game steps).globals.metadata klass
        (run game steps).globals.ctx) =
          some (walk (methodSlot game.context klass) maxMethodsPerClass 0) := by
      rw [run_ctx, run_metadata, if_pos hctx, if_pos hmetadata]
      exact methodsOf_eq_walk game.context klass
    simp only [step, Globals.methodsOf, hready, Option.getD_some]

/-! ## The order of the worker -/

section Before

variable {game : Game}

theorem methodsOf_initial (klass : ℕ) : Globals.initial.methodsOf klass = [] := by
  have hnext : MethodPtrIter.next (MetadataBackend.unregistered (Option Context))
      (⟨klass, 0, maxMethodsPerClass⟩, none) =
        (none, ⟨klass, 0, maxMethodsPerClass⟩, none) := rfl
  simp only [Globals.methodsOf, Globals.initial, KlassIter.methodsOf, collectMethodPtrs,
    collect, hnext, Option.getD_some]

theorem instancesOf_initial (klass max : ℕ) :
    Globals.initial.scan.instancesOf klass max = [] := by
  unfold ScanBackend.instancesOf
  cases max with
  | zero => rfl
  | succ max =>
      rw [collectTake, next]
      rfl

/-- A live class has metadata under its name, or fields of its own. -/
def Game.GetsBlock (game : Game) (cls : UInt64) : Prop :=
  metadataMatch (game.dumpProcess .initial) game.metadata cls ≠ none ∨
    (DumpFields.collectRuntimeFields game.context game.stringHeapBase cls.toNat).1 ≠ []

/-- No live class with a block has a method at the first place of its array. -/
def Game.Methodless (game : Game) : Prop :=
  ∀ slot ∈ slots (game.dumpProcess .initial), ∀ cls,
    slotClass (game.dumpProcess .initial) slot = some cls → game.GetsBlock cls →
      methodsAt (some game.context) cls.toNat 0 = none

theorem collectRuntimeMethods_initial (cls : ℕ) :
    collectRuntimeMethods .initial cls = [] := by
  simp only [collectRuntimeMethods, methodsOf_initial, List.length_nil, if_true]

theorem collectRuntimeInstances_initial (cls : ℕ) :
    collectRuntimeInstances .initial cls = [] := by
  simp only [collectRuntimeInstances, instancesOf_initial, if_true]

theorem extra_initial (cls : UInt64) :
    (game.dumpProcess .initial).collectRuntimeMethods cls = [] ∧
      (game.dumpProcess .initial).collectRuntimeInstances cls = [] :=
  ⟨collectRuntimeMethods_initial cls.toNat, collectRuntimeInstances_initial cls.toNat⟩

/-- The dump of the worker prints fields only. -/
theorem classBlock_initial {slot : ℕ} {cls : UInt64} {block : Block}
    (hblock : classBlock (game.dumpProcess .initial) game.metadata slot cls = some block) :
    ∃ key entries capHit,
      block = blockOf (.runtime slot) key entries (capNote capHit) [] := by
  obtain ⟨hmethods, hinstances⟩ := @extra_initial game cls
  unfold classBlock at hblock
  simp only [hmethods, hinstances, List.append_nil] at hblock
  cases hmatch : metadataMatch (game.dumpProcess .initial) game.metadata cls with
  | some found =>
      simp only [hmatch] at hblock
      cases hblock
      exact ⟨_, _, _, rfl⟩
  | none =>
      simp only [hmatch] at hblock
      split at hblock
      · cases hblock
        exact ⟨_, _, _, rfl⟩
      · cases hblock

theorem getsBlock_iff (slot : ℕ) (cls : UInt64) :
    game.GetsBlock cls ↔
      ∃ block, classBlock (game.dumpProcess .initial) game.metadata slot cls = some block := by
  obtain ⟨hmethods, hinstances⟩ := @extra_initial game cls
  have hfields : (game.dumpProcess .initial).collectRuntimeFields cls =
      DumpFields.collectRuntimeFields game.context game.stringHeapBase cls.toNat := rfl
  rw [Game.GetsBlock]
  unfold classBlock
  simp only [hmethods, hinstances, hfields]
  cases metadataMatch (game.dumpProcess .initial) game.metadata cls with
  | some found => simp
  | none => simp

end Before

/-- A header of methods has neither the word for fields nor a comment in it. -/
theorem methodHeader_plain (count : ℕ) :
    'f' ∉ (methodHeader count).toList ∧ '/' ∉ (methodHeader count).toList := by
  have hdigits : ∀ mark : Char, mark.isDigit = false → mark ∉ (toString count).toList := by
    intro mark hmark hmem
    rw [Nat.toString_eq_repr, Nat.toList_repr] at hmem
    rw [Nat.isDigit_of_mem_toDigits (by decide) (by decide) hmem] at hmark
    cases hmark
  have hword := hdigits 'f' (by decide)
  have hcomment := hdigits '/' (by decide)
  delta methodHeader
  simp only [String.toList_append, List.mem_append, not_or]
  exact ⟨⟨⟨by decide, hword⟩, by decide⟩, ⟨by decide, hcomment⟩, by decide⟩

/-- Every line about fields has one or the other. -/
theorem mark_of_mem_lines {origin : Origin} {key : Key} {entries : List Dump.Entry}
    {capHit : Bool} {line : String}
    (hline : line ∈ (blockOf origin key entries (capNote capHit) []).lines) :
    'f' ∈ line.toList ∨ '/' ∈ line.toList := by
  simp only [blockOf, Block.lines, List.append_nil, List.mem_cons, List.mem_append,
    List.mem_map] at hline
  obtain rfl | ⟨entry, -, rfl⟩ | hnote := hline
  · left
    simp only [header, String.toList_append, List.mem_append]
    exact Or.inr (by decide)
  · right
    delta Entry.line fieldLine
    have hcomment : '/' ∈ " // Offset: ".toList := by decide
    simp only [String.toList_append, List.mem_append, hcomment, or_true, true_or]
  · right
    cases capHit with
    | false => cases hnote
    | true =>
        obtain rfl := List.mem_singleton.mp hnote
        simp only [String.toList_append, List.mem_append]
        exact Or.inl (Or.inl (by decide))

theorem methodHeader_mem {globals : Globals} {klass : ℕ}
    (hnonempty : globals.methodSection klass ≠ []) :
    methodHeader (globals.methodsOf klass).length ∈ globals.methodSection klass := by
  unfold Globals.methodSection at hnonempty ⊢
  by_cases hnone : globals.methodsOf klass = []
  · exact absurd (if_pos hnone) hnonempty
  · simp only [if_neg hnone]
    exact List.mem_cons_self

/-- After the start-up a class has no methods when the first place of its array has none. -/
theorem methodSection_eq_nil_iff (game : Game) (klass : ℕ) :
    (run game workerSteps).globals.methodSection klass = [] ↔
      methodsAt (some game.context) klass 0 = none := by
  have hmethods : (run game workerSteps).globals.methodsOf klass =
      walk (methodSlot game.context klass) maxMethodsPerClass 0 := by
    have hwalk := methodsOf_eq_walk game.context klass
    change (KlassIter.methodsOf registerMetadataBackend klass (some game.context)).getD [] = _
    rw [hwalk, Option.getD_some]
  rw [Globals.methodSection, hmethods, maxMethodsPerClass, walk, methodSlot]
  cases methodsAt (some game.context) klass 0 <;> simp

theorem run_workerSteps_built (game : Game) :
    (run game workerSteps).built =
      some (.initial, (buildInternalsLines (game.dumpProcess .initial) game.metadata).1) :=
  rfl

/-- A dump from before the start-up shows no methods. -/
theorem methodSection_eq_nil_of_listsMethods {game : Game}
    (hlists : (run game workerSteps).ListsMethods game) {slot : ℕ} {cls : UInt64}
    (hslot : slot ∈ slots (game.dumpProcess .initial))
    (hcls : slotClass (game.dumpProcess .initial) slot = some cls)
    (hblock : game.GetsBlock cls) :
    (run game workerSteps).globals.methodSection cls.toNat = [] := by
  obtain ⟨before, lines, hbuilt, -, hlists⟩ := hlists
  rw [run_workerSteps_built] at hbuilt
  cases hbuilt
  obtain ⟨block, hclass⟩ := (getsBlock_iff slot cls).mp hblock
  obtain ⟨hmem, horigin⟩ := mem_dumpBlocks_runtime.mpr ⟨hslot, cls, hcls, hclass⟩
  have hsection := hlists slot cls block hcls hmem horigin
  by_contra hnonempty
  -- The header of the methods would be a line about fields.
  have hheader := hsection.subset (methodHeader_mem hnonempty)
  obtain ⟨key, entries, capHit, rfl⟩ := classBlock_initial hclass
  obtain ⟨hword, hcomment⟩ :=
    methodHeader_plain ((run game workerSteps).globals.methodsOf cls.toNat).length
  rcases mark_of_mem_lines hheader with hmark | hmark
  · exact hword hmark
  · exact hcomment hmark

/-- The dump shows the methods of the live classes exactly when none of those with a
block has a method. -/
theorem worker_listsMethods_iff (game : Game) :
    (run game workerSteps).ListsMethods game ↔ game.Methodless := by
  constructor
  · intro hlists slot hslot cls hcls hblock
    rw [← methodSection_eq_nil_iff game]
    exact methodSection_eq_nil_of_listsMethods hlists hslot hcls hblock
  · intro hmethodless
    refine ⟨.initial, _, rfl, buildInternalsLines_eq _ _, ?_⟩
    intro slot cls block hcls hblock horigin
    obtain ⟨hslot, other, hother, hclass⟩ := mem_dumpBlocks_runtime.mp ⟨hblock, horigin⟩
    rw [hcls] at hother
    cases hother
    have hnone := hmethodless slot hslot cls hcls ((getsBlock_iff slot cls).mpr ⟨block, hclass⟩)
    rw [(methodSection_eq_nil_iff game cls.toNat).mpr hnone]
    exact List.nil_infix

/-! ## A class with one method -/

def playerBytes : List (ℕ × UInt8) :=
  [(0x1001, 0x11), (0x1199, 0x13), (0x1301, 0x14), (0x1419, 0x15), (0x1421, 0x11),
    (0x1452, 0x02), (0x1500, 0x52), (0x1501, 0x75), (0x1502, 0x6E)]

/-- A table with one class at `0x1100`, which has no fields and the method `Run` with two
parameters at `0x1400`. -/
def playerImage : Image :=
  { InstanceIter.sampleImage with
    memory := fun address => (playerBytes.lookup address).getD 0
    inRegion := InstanceIter.sampleImage.validateRead
    classGetName := fun _ => "Player"
    tableBase := 0x1000
    tableCount := 1 }

def playerGame : Game where
  context := {
    image := playerImage
    cfg := fallbackConstants
    classGetFields := none
    fieldGetName := fun _ => ""
    fieldGetType := fun _ => 0
    backend := ⟨fun _ _ => true, fun _ _ => true⟩ }
  process := { InstanceIter.sampleProcess with
    image := playerImage
    validateRead_eq := InstanceIter.sampleProcess.validateRead_eq }
  image_eq := rfl
  stringHeapBase := none
  tableMaxSlots := 20000
  typesArray := none
  metadata := some ⟨[⟨"", "Player", [], [], 1⟩]⟩

/-- The class gets its block, and after the start-up it has the method; the block does not
show it. -/
theorem not_listsMethods_playerGame :
    (run playerGame workerSteps).globals.methodSection 0x1100 =
        ["    methods (1):", "        Run(2 args)"] ∧
      ¬ (run playerGame workerSteps).ListsMethods playerGame := by
  have hsection : (run playerGame workerSteps).globals.methodSection 0x1100 =
      ["    methods (1):", "        Run(2 args)"] := by
    decide +kernel
  refine ⟨hsection, ?_⟩
  intro hlists
  have hcls : slotClass (playerGame.dumpProcess .initial) 0 = some 0x1100 := by decide
  have hblock : playerGame.GetsBlock 0x1100 := Or.inl (by decide)
  have hslot : 0 ∈ slots (playerGame.dumpProcess .initial) := by decide
  have hempty := methodSection_eq_nil_of_listsMethods hlists hslot hcls hblock
  have haddress : UInt64.toNat 0x1100 = 0x1100 := rfl
  rw [haddress, hsection] at hempty
  cases hempty

end FrogAgent.StartupDump
