import FrogAgent.Internals.Dump

/-!
# What the dump keeps

The lines of the dump fall into blocks, one for each live class that prints
something and one for each metadata class that is not loaded.  A merged block shows
the fields of its metadata class, each with the data of the last live field of that
name.  The merge loses nothing exactly when that metadata class knows every live
field, live fields of one name agree, and the class found under a loaded name is
the only one of that name with fields of its own.
-/

namespace FrogAgent.Dump

open FrogAgent.Metadata

/-- What a block is printed for: a slot of the class table, or a metadata class. -/
inductive Origin where
  | runtime (slot : ℕ)
  | metadata (position : ℕ)
  deriving DecidableEq

structure Block where
  origin : Origin
  header : String
  entries : List Entry
  extra : List String

def Block.lines (block : Block) : List String :=
  block.header :: (block.entries.map Entry.line ++ block.extra)

def blockOf (origin : Origin) (key : Key) (entries : List Entry)
    (note extra : List String) : Block :=
  ⟨origin, header (fullName key) (entries.map Entry.line ++ note), entries, note ++ extra⟩

/-- The block of the live class in a slot, if it prints one. -/
def classBlock (process : Process) (dump : Option Dump) (slot : ℕ) (cls : UInt64) :
    Option Block :=
  let (rtFields, capHit) := process.collectRuntimeFields cls
  let extra := process.collectRuntimeMethods cls ++ process.collectRuntimeInstances cls
  match metadataMatch process dump cls with
  | some (dump, dumped) =>
      some (blockOf (.runtime slot) (DumpedClass.key dumped)
        (dumped.fields.map (mergeField process dump rtFields)) (capNote capHit) extra)
  | none =>
      if rtFields ≠ [] ∨ process.collectRuntimeMethods cls ≠ [] ∨
          process.collectRuntimeInstances cls ≠ [] then
        some (blockOf (.runtime slot) (classKey process cls) (rtFields.map liveField)
          (capNote capHit) extra)
      else none

def metadataBlock (process : Process) (dump : Dump) (dumped : DumpedClass)
    (position : ℕ) : Block :=
  blockOf (.metadata position) (DumpedClass.key dumped)
    (dumped.fields.map (metadataField process dump)) [] []

/-- Some live class of the table has this name. -/
def Loaded (process : Process) (key : Key) : Prop :=
  ∃ slot ∈ slots process, ∃ cls, slotClass process slot = some cls ∧
    classKey process cls = key

def liveKeys (process : Process) : List Key :=
  (slots process).filterMap fun slot => (slotClass process slot).map (classKey process)

theorem mem_liveKeys {process : Process} {key : Key} :
    key ∈ liveKeys process ↔ Loaded process key := by
  simp [liveKeys, Loaded]

def runtimeBlocks (process : Process) (dump : Option Dump) : List Block :=
  (slots process).filterMap fun slot =>
    (slotClass process slot).bind (classBlock process dump slot)

def metadataBlocks (process : Process) (dump : Dump) : List Block :=
  dump.classes.zipIdx.filterMap fun (dumped, position) =>
    if DumpedClass.key dumped ∉ liveKeys process ∧ dumped.fields ≠ [] then
      some (metadataBlock process dump dumped position)
    else none

/-- The blocks of the dump in the order they are printed. -/
def dumpBlocks (process : Process) (dump : Option Dump) : List Block :=
  runtimeBlocks process dump ++ (dump.map (metadataBlocks process)).getD []

/-! ## The lines are the lines of the blocks -/

theorem classLines_eq (process : Process) (dump : Option Dump) (slot : ℕ) (cls : UInt64) :
    classLines process dump cls =
      (classBlock process dump slot cls).toList.flatMap Block.lines := by
  unfold classLines classBlock
  cases metadataMatch process dump cls with
  | some found =>
      simp [blockOf, Block.lines, formatClass, List.map_map, Function.comp_def]
  | none =>
      dsimp only
      split
      · simp [blockOf, Block.lines, List.map_map, Function.comp_def]
      · rfl

theorem metadataLines_eq (process : Process) (dump : Dump) (dumped : DumpedClass)
    (position : ℕ) :
    metadataLines process dump dumped =
      (metadataBlock process dump dumped position).lines := by
  simp [metadataLines, metadataBlock, blockOf, Block.lines, formatClass, List.map_map,
    Function.comp_def]

/-- What the walk has gathered after some slots: their blocks and their names. -/
theorem walk_slots (process : Process) (dump : Option Dump) (walked : List ℕ) :
    let walk := walked.foldl (walkSlot process dump) ⟨[], [], 0⟩
    walk.allLines = (walked.filterMap fun slot =>
        (slotClass process slot).bind (classBlock process dump slot)).flatMap Block.lines ∧
      ∀ key, key ∈ walk.seenInRuntime ↔
        key ∈ walked.filterMap fun slot => (slotClass process slot).map (classKey process) := by
  induction walked using List.reverseRecOn with
  | nil => exact ⟨rfl, fun _ => Iff.rfl⟩
  | append_singleton walked slot ih =>
      obtain ⟨hlines, hseen⟩ := ih
      simp only [List.foldl_append, List.foldl_cons, List.foldl_nil,
        List.filterMap_append, List.flatMap_append, List.mem_append]
      rw [walkSlot]
      cases hslot : slotClass process slot with
      | none => simp [hslot, hlines, hseen]
      | some cls =>
          dsimp only
          constructor
          · rw [hlines, classLines_eq process dump slot cls]
            cases hblock : classBlock process dump slot cls <;> simp [hslot, hblock]
          · intro key
            rw [List.mem_cons, hseen]
            simp [hslot, or_comm, eq_comm]

theorem metadataBlocks_lines (process : Process) (dump : Dump) :
    (metadataBlocks process dump).flatMap Block.lines =
      dump.classes.flatMap fun dumped =>
        if DumpedClass.key dumped ∉ liveKeys process ∧ dumped.fields ≠ [] then
          metadataLines process dump dumped
        else [] := by
  rw [metadataBlocks, List.filterMap_eq_flatMap_toList, List.flatMap_assoc]
  conv_rhs => rw [← List.zipIdx_map_fst 0 dump.classes, List.flatMap_map]
  apply List.flatMap_congr
  rintro ⟨dumped, position⟩ -
  dsimp only
  split
  · simp [metadataLines_eq process dump dumped position]
  · rfl

theorem buildInternalsLines_eq (process : Process) (dump : Option Dump) :
    (buildInternalsLines process dump).1 =
      (dumpBlocks process dump).flatMap Block.lines := by
  obtain ⟨hlines, hseen⟩ := walk_slots process dump (slots process)
  rw [buildInternalsLines.eq_def, dumpBlocks, List.flatMap_append]
  dsimp only
  rw [hlines]
  congr 1
  cases dump with
  | none => rfl
  | some dump =>
      rw [Option.map_some, Option.getD_some, metadataBlocks_lines]
      simp only [hseen]
      rfl

/-! ## What is lost -/

/-- A printed field shows the name and the runtime data of a live field. -/
def Entry.Shows (entry : Entry) (field : RtField) : Prop :=
  entry.name = field.name ∧ entry.offset = field.offset ∧ entry.token = field.token ∧
    entry.isStatic = field.isStatic

/-- Every live field stands in the block of its class. -/
def KeepsLive (process : Process) (dump : Option Dump) : Prop :=
  ∀ slot ∈ slots process, ∀ cls, slotClass process slot = some cls →
    ∀ field ∈ (process.collectRuntimeFields cls).1,
      ∃ block ∈ dumpBlocks process dump, block.origin = .runtime slot ∧
        ∃ entry ∈ block.entries, entry.Shows field

/-- The metadata class at a position is the one some live class is merged with. -/
def Merged (process : Process) (dump : Dump) (position : ℕ) : Prop :=
  ∃ key, Loaded process key ∧ buildMetadataIndex dump key = some position

/-- Every metadata class with fields that is not merged has a block of its own. -/
def KeepsMetadata (process : Process) (dump : Option Dump) : Prop :=
  ∀ parsed, dump = some parsed → ∀ position dumped,
    parsed.classes[position]? = some dumped → dumped.fields ≠ [] →
    ¬ Merged process parsed position →
      ∃ block ∈ dumpBlocks process dump, block.origin = .metadata position ∧
        block.entries.map Entry.name = dumped.fields.map DumpedField.name

def LosesNothing (process : Process) (dump : Option Dump) : Prop :=
  KeepsLive process dump ∧ KeepsMetadata process dump

/-- The metadata class has a field for every live one, and live fields of one name
do not differ. -/
def Covers (dumped : DumpedClass) (fields : List RtField) : Prop :=
  ∀ field ∈ fields, (∃ metaField ∈ dumped.fields, metaField.name = field.name) ∧
    ∀ other ∈ fields, other.name = field.name →
      other.offset = field.offset ∧ other.token = field.token ∧
        other.isStatic = field.isStatic

/-- No metadata class with fields has a later namesake. -/
def OwnName (dump : Dump) (key : Key) : Prop :=
  ∀ (position : ℕ) dumped, dump.classes[position]? = some dumped →
    DumpedClass.key dumped = key → dumped.fields ≠ [] →
    ∀ (later : ℕ) namesake, position < later → dump.classes[later]? = some namesake →
      DumpedClass.key namesake ≠ key

/-- Each live class agrees with the metadata found under its name. -/
def Agrees (process : Process) (dump : Dump) : Prop :=
  ∀ slot ∈ slots process, ∀ cls, slotClass process slot = some cls →
    OwnName dump (classKey process cls) ∧
    ∀ position dumped, buildMetadataIndex dump (classKey process cls) = some position →
      dump.classes[position]? = some dumped →
      Covers dumped (process.collectRuntimeFields cls).1

theorem metadataMatch_eq_some_iff {process : Process} {dump : Option Dump} {cls : UInt64}
    {parsed : Dump} {dumped : DumpedClass} :
    metadataMatch process dump cls = some (parsed, dumped) ↔
      dump = some parsed ∧ ∃ position,
        buildMetadataIndex parsed (classKey process cls) = some position ∧
          parsed.classes[position]? = some dumped := by
  simp only [metadataMatch, Option.bind_eq_bind, Option.bind_eq_some_iff, Option.pure_def,
    Option.some.injEq, Prod.mk.injEq]
  constructor
  · rintro ⟨parsed, rfl, position, hposition, dumped, hdumped, rfl, rfl⟩
    exact ⟨rfl, position, hposition, hdumped⟩
  · rintro ⟨rfl, position, hposition, hdumped⟩
    exact ⟨parsed, rfl, position, hposition, dumped, hdumped, rfl, rfl⟩

theorem classBlock_origin {process : Process} {dump : Option Dump} {slot : ℕ}
    {cls : UInt64} {block : Block}
    (hblock : classBlock process dump slot cls = some block) :
    block.origin = .runtime slot := by
  unfold classBlock at hblock
  cases hmatch : metadataMatch process dump cls with
  | some found =>
      simp only [hmatch] at hblock
      cases hblock
      rfl
  | none =>
      simp only [hmatch] at hblock
      split at hblock
      · cases hblock
        rfl
      · cases hblock

/-- The blocks of a slot of the table. -/
theorem mem_dumpBlocks_runtime {process : Process} {dump : Option Dump} {slot : ℕ}
    {block : Block} :
    block ∈ dumpBlocks process dump ∧ block.origin = .runtime slot ↔
      slot ∈ slots process ∧ ∃ cls, slotClass process slot = some cls ∧
        classBlock process dump slot cls = some block := by
  constructor
  · rintro ⟨hblock, horigin⟩
    rcases List.mem_append.mp hblock with hruntime | hmetadata
    · obtain ⟨place, hplace, hfound⟩ := List.mem_filterMap.mp hruntime
      obtain ⟨cls, hcls, hclass⟩ := Option.bind_eq_some_iff.mp hfound
      rw [classBlock_origin hclass] at horigin
      cases horigin
      exact ⟨hplace, cls, hcls, hclass⟩
    · cases dump with
      | none => cases hmetadata
      | some parsed =>
          obtain ⟨⟨dumped, position⟩, -, hfound⟩ := List.mem_filterMap.mp hmetadata
          dsimp only at hfound
          split at hfound
          · cases hfound
            cases horigin
          · cases hfound
  · rintro ⟨hslot, cls, hcls, hclass⟩
    refine ⟨List.mem_append_left _ ?_, classBlock_origin hclass⟩
    exact List.mem_filterMap.mpr ⟨slot, hslot, Option.bind_eq_some_iff.mpr ⟨cls, hcls, hclass⟩⟩

/-- The blocks of a metadata class. -/
theorem mem_dumpBlocks_metadata {process : Process} {parsed : Dump} {position : ℕ}
    {block : Block} :
    block ∈ dumpBlocks process (some parsed) ∧ block.origin = .metadata position ↔
      ∃ dumped, parsed.classes[position]? = some dumped ∧
        ¬ Loaded process (DumpedClass.key dumped) ∧ dumped.fields ≠ [] ∧
        block = metadataBlock process parsed dumped position := by
  constructor
  · rintro ⟨hblock, horigin⟩
    rcases List.mem_append.mp hblock with hruntime | hmetadata
    · obtain ⟨place, -, hfound⟩ := List.mem_filterMap.mp hruntime
      obtain ⟨cls, -, hclass⟩ := Option.bind_eq_some_iff.mp hfound
      rw [classBlock_origin hclass] at horigin
      cases horigin
    · obtain ⟨⟨dumped, place⟩, hmem, hfound⟩ := List.mem_filterMap.mp hmetadata
      dsimp only at hfound
      split at hfound
      · rename_i hown
        cases hfound
        cases horigin
        rw [mem_liveKeys] at hown
        exact ⟨dumped, List.mem_zipIdx_iff_getElem?.mp hmem, hown.1, hown.2, rfl⟩
      · cases hfound
  · rintro ⟨dumped, hdumped, hloaded, hfields, rfl⟩
    refine ⟨List.mem_append_right _ ?_, rfl⟩
    apply List.mem_filterMap.mpr
    refine ⟨(dumped, position), List.mem_zipIdx_iff_getElem?.mpr hdumped, ?_⟩
    exact if_pos ⟨mt mem_liveKeys.mp hloaded, hfields⟩

/-- A merged field shows a live one when its name has the same live data. -/
theorem mergeField_shows {process : Process} {dump : Dump} {fields : List RtField}
    {field : RtField} (hfield : field ∈ fields) {metaField : DumpedField} :
    (mergeField process dump fields metaField).Shows field ↔
      metaField.name = field.name ∧ ∃ live, rtLookup fields field.name = some live ∧
        live.offset = field.offset ∧ live.token = field.token ∧
          live.isStatic = field.isStatic := by
  unfold mergeField
  cases hlookup : rtLookup fields metaField.name with
  | none =>
      have hnone := LastWins.collect_eq_none_iff.mp hlookup (field.name, field)
        (List.mem_map_of_mem hfield)
      constructor
      · exact fun hshows => absurd hshows.1.symm hnone
      · exact fun hname => absurd hname.1.symm hnone
  | some live =>
      constructor
      · rintro ⟨hname, hdata⟩
        have hname : metaField.name = field.name := hname
        rw [hname] at hlookup
        exact ⟨hname, live, hlookup, hdata⟩
      · rintro ⟨hname, found, hfound, hdata⟩
        rw [hname, hfound] at hlookup
        cases hlookup
        exact ⟨hname, hdata⟩

/-- The merge shows every live field of a class exactly when its metadata covers
them. -/
theorem covers_iff (process : Process) (dump : Dump) (dumped : DumpedClass)
    (fields : List RtField) :
    Covers dumped fields ↔
      ∀ field ∈ fields, ∃ metaField ∈ dumped.fields,
        (mergeField process dump fields metaField).Shows field := by
  constructor
  · intro hcovers field hfield
    obtain ⟨⟨metaField, hmeta, hname⟩, hagree⟩ := hcovers field hfield
    refine ⟨metaField, hmeta, (mergeField_shows hfield).mpr ⟨hname, ?_⟩⟩
    cases hlookup : rtLookup fields field.name with
    | none =>
        exact absurd rfl (LastWins.collect_eq_none_iff.mp hlookup (field.name, field)
          (List.mem_map_of_mem hfield))
    | some live =>
        obtain ⟨other, hother, heq⟩ := List.mem_map.mp (LastWins.mem_of_collect hlookup)
        rw [Prod.mk.injEq] at heq
        obtain ⟨hother_name, rfl⟩ := heq
        exact ⟨other, rfl, hagree other hother hother_name⟩
  · intro hshown field hfield
    obtain ⟨metaField, hmeta, hshows⟩ := hshown field hfield
    obtain ⟨hname, live, hlive, hdata⟩ := (mergeField_shows hfield).mp hshows
    refine ⟨⟨metaField, hmeta, hname⟩, ?_⟩
    intro other hother hsame
    obtain ⟨_, -, hshows⟩ := hshown other hother
    obtain ⟨-, found, hfound, hother_data⟩ := (mergeField_shows hother).mp hshows
    rw [hsame, hlive] at hfound
    cases hfound
    exact ⟨hother_data.1.symm.trans hdata.1, hother_data.2.1.symm.trans hdata.2.1,
      hother_data.2.2.symm.trans hdata.2.2⟩

/-- The fields a live class loses are those its metadata class does not cover; a
class without metadata loses none. -/
theorem classBlock_shows_iff (process : Process) (dump : Option Dump) (slot : ℕ)
    (cls : UInt64) :
    (∀ field ∈ (process.collectRuntimeFields cls).1,
        ∃ block, classBlock process dump slot cls = some block ∧
          ∃ entry ∈ block.entries, entry.Shows field) ↔
      ∀ parsed dumped, metadataMatch process dump cls = some (parsed, dumped) →
        Covers dumped (process.collectRuntimeFields cls).1 := by
  unfold classBlock
  cases hmatch : metadataMatch process dump cls with
  | some found =>
      obtain ⟨parsed, dumped⟩ := found
      have hcovers := covers_iff process parsed dumped (process.collectRuntimeFields cls).1
      simp only [Option.some.injEq, exists_eq_left', blockOf, List.mem_map,
        exists_exists_and_eq_and, Prod.mk.injEq]
      constructor
      · rintro hshown _ _ ⟨rfl, rfl⟩
        exact hcovers.mpr hshown
      · intro hall
        exact hcovers.mp (hall parsed dumped ⟨rfl, rfl⟩)
  | none =>
      simp only [reduceCtorEq, false_implies, implies_true, iff_true]
      intro field hfield
      have hsome : (process.collectRuntimeFields cls).1 ≠ [] := List.ne_nil_of_mem hfield
      refine ⟨_, if_pos (Or.inl hsome), liveField field, ?_, rfl, rfl, rfl, rfl⟩
      exact List.mem_map_of_mem hfield

theorem keepsLive_iff (process : Process) (dump : Option Dump) :
    KeepsLive process dump ↔
      ∀ slot ∈ slots process, ∀ cls, slotClass process slot = some cls →
        ∀ parsed dumped, metadataMatch process dump cls = some (parsed, dumped) →
          Covers dumped (process.collectRuntimeFields cls).1 := by
  apply forall₂_congr
  intro slot hslot
  apply forall₂_congr
  intro cls hcls
  rw [← classBlock_shows_iff process dump slot cls]
  apply forall₂_congr
  intro field _
  constructor
  · rintro ⟨block, hblock, horigin, hentry⟩
    obtain ⟨-, other, hother, hclass⟩ := mem_dumpBlocks_runtime.mp ⟨hblock, horigin⟩
    rw [hcls] at hother
    cases hother
    exact ⟨block, hclass, hentry⟩
  · rintro ⟨block, hclass, hentry⟩
    obtain ⟨hblock, horigin⟩ := mem_dumpBlocks_runtime.mpr ⟨hslot, cls, hcls, hclass⟩
    exact ⟨block, hblock, horigin, hentry⟩

theorem keepsMetadata_iff (process : Process) (parsed : Dump) :
    KeepsMetadata process (some parsed) ↔ ∀ key, Loaded process key → OwnName parsed key := by
  constructor
  · intro hkeeps key hloaded position dumped hdumped hkey hfields later namesake hlater
      hnamesake hsame
    have hunmerged : ¬ Merged process parsed position := by
      rintro ⟨other, -, hposition⟩
      obtain ⟨⟨item, hitem, hown⟩, hlast⟩ := LastWins.positions_eq_some_iff.mp hposition
      rw [hdumped] at hitem
      cases hitem
      exact hlast later namesake hlater hnamesake (by rw [hsame, ← hkey, hown])
    obtain ⟨block, hblock, horigin, -⟩ :=
      hkeeps parsed rfl position dumped hdumped hfields hunmerged
    obtain ⟨item, hitem, hunloaded, -⟩ := mem_dumpBlocks_metadata.mp ⟨hblock, horigin⟩
    rw [hdumped] at hitem
    cases hitem
    exact hunloaded (hkey ▸ hloaded)
  · rintro hown _ ⟨rfl⟩ position dumped hdumped hfields hunmerged
    have hunloaded : ¬ Loaded process (DumpedClass.key dumped) := by
      intro hloaded
      apply hunmerged
      refine ⟨_, hloaded, LastWins.positions_eq_some_iff.mpr ⟨⟨dumped, hdumped, rfl⟩, ?_⟩⟩
      exact hown _ hloaded position dumped hdumped rfl hfields
    have hblock := mem_dumpBlocks_metadata.mpr ⟨dumped, hdumped, hunloaded, hfields, rfl⟩
    refine ⟨_, hblock.1, hblock.2, ?_⟩
    simp [metadataBlock, blockOf, metadataField, List.map_map, Function.comp_def]

/-- The lines are those of the blocks, and nothing is lost in them exactly when
every live class agrees with the metadata. -/
theorem losesNothing_iff_agrees (process : Process) (dump : Option Dump) :
    (buildInternalsLines process dump).1 =
        (dumpBlocks process dump).flatMap Block.lines ∧
      (LosesNothing process dump ↔
        ∀ parsed, dump = some parsed → Agrees process parsed) := by
  refine ⟨buildInternalsLines_eq process dump, ?_⟩
  rw [LosesNothing, keepsLive_iff]
  constructor
  · rintro ⟨hlive, hmetadata⟩ parsed rfl slot hslot cls hcls
    rw [keepsMetadata_iff] at hmetadata
    refine ⟨hmetadata _ ⟨slot, hslot, cls, hcls, rfl⟩, ?_⟩
    intro position dumped hposition hdumped
    apply hlive slot hslot cls hcls parsed dumped
    exact metadataMatch_eq_some_iff.mpr ⟨rfl, position, hposition, hdumped⟩
  · intro hagrees
    constructor
    · intro slot hslot cls hcls parsed dumped hmatch
      obtain ⟨hdump, position, hposition, hdumped⟩ := metadataMatch_eq_some_iff.mp hmatch
      exact (hagrees parsed hdump slot hslot cls hcls).2 position dumped hposition hdumped
    · cases dump with
      | none => exact fun parsed hdump => by cases hdump
      | some parsed =>
          rw [keepsMetadata_iff]
          rintro _ ⟨slot, hslot, cls, hcls, rfl⟩
          exact (hagrees parsed rfl slot hslot cls hcls).1

/-- A table of one class, the value type `Enumerator` of a list, with two fields. -/
def enumeratorProcess : Process where
  readU64 := fun address => if address = 0x1000 then some 0x5000 else none
  classGetName := fun _ => "Enumerator"
  classGetNamespace := fun _ => ""
  collectRuntimeFields := fun _ =>
    ([⟨"list", "List", 0x0, 0x04000001, false⟩, ⟨"index", "Int32", 0x8, 0x04000002, false⟩],
      false)
  collectRuntimeMethods := fun _ => []
  collectRuntimeInstances := fun _ => []
  il2cppTypeName := fun _ => "?"
  tableBase := 0x1000
  tableCount := 1
  tableMaxSlots := 20000
  classTableStep := 8
  typesArray := none

/-- The nested type of the list, and the one of the same name in a dictionary. -/
def listEnumerator : DumpedClass :=
  ⟨"", "Enumerator", [⟨"list", "", none⟩, ⟨"index", "", none⟩], [], 1⟩

def dictionaryEnumerator : DumpedClass :=
  ⟨"", "Enumerator", [⟨"dictionary", "", none⟩], [], 2⟩

/-- The live fields are gone, and so is the metadata class that had them. -/
theorem not_losesNothing_namesakes :
    (buildInternalsLines enumeratorProcess
        (some ⟨[listEnumerator, dictionaryEnumerator]⟩)).1 =
      ["Enumerator (1 fields):",
        "    dictionary: <?> // Offset: 0x0, Token: 0x0"] ∧
      ¬ LosesNothing enumeratorProcess
        (some ⟨[listEnumerator, dictionaryEnumerator]⟩) := by
  refine ⟨by decide +kernel, ?_⟩
  rintro ⟨-, hmetadata⟩
  have hloaded : Loaded enumeratorProcess ("", "Enumerator") :=
    ⟨0, by decide, 0x5000, by decide, by decide⟩
  exact (keepsMetadata_iff _ _).mp hmetadata _ hloaded 0 listEnumerator rfl rfl
    (List.cons_ne_nil _ _) 1 dictionaryEnumerator Nat.one_pos rfl rfl

end FrogAgent.Dump
