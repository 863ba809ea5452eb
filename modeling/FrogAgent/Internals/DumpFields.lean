import FrogAgent.Core.LossyText
import FrogAgent.External.RegionMap
import FrogAgent.Internals.KlassIter
import FrogAgent.Internals.TypeNames

/-!
# The field walk of the dumper

`collect_runtime_fields` of `internals/dump.rs` walks the fields of a class on its own,
through the runtime's iterator or through a snapshot of the region map, where the
accessors read through the region cache.
-/

namespace FrogAgent.DumpFields

open FrogAgent.Calibration
open FrogAgent.Dump
open FrogAgent.FieldAccess
open FrogAgent.KlassIter
open FrogAgent.PackedArg
open FrogAgent.RegionMap
open FrogAgent.Scan
open FrogAgent.Signature
open FrogAgent.SlotWalk
open FrogAgent.TypeNames

section Model

variable (context : Context)

/-- A read through the region map that counts unreadable memory as zero. -/
def mapReadOr0 (width address : ℕ) : ℕ := (context.image.mapRead width address).getD 0

/-- The arguments of a generic class, up to 32 of them; an unreadable one is left out. -/
def readGenericContext (cls : ℕ) : Option (List ℕ) := do
  let gc ← context.image.mapRead 8 (cls + context.cfg.klassGenericClass)
  let inst ← context.image.mapRead 8 (gc + 0x8)
  let argc := mapReadOr0 context 4 inst
  if argc = 0 then none
  else
    let argv := mapReadOr0 context 8 (inst + 0x8)
    if argv = 0 then none
    else
      let args := (List.range (min argc 32)).filterMap fun i =>
        context.image.mapRead 8 (argv + i * 8)
      if args = [] then none else some args

def mapChunk (typePtr : ℕ) : ℕ :=
  mapReadOr0 context 8 (typePtr + context.cfg.il2cppTypeDiscrimReadAt)

def readFieldIsStatic (typePtr : ℕ) : Bool :=
  if typePtr = 0 then false
  else mapChunk context typePtr &&& methodAttributeStaticBit != 0

def klassIsValuetypeViaMap (klass : ℕ) : Bool :=
  mapReadOr0 context 1 (klass + context.cfg.klassValuetypeOff) &&&
    context.cfg.klassValuetypeBit != 0

/-- The offset the dump shows: a value type has no object header. -/
def mapOffset (klass fieldInfo : ℕ) : UInt32 :=
  let raw := UInt32.ofNat (mapReadOr0 context 4 (fieldInfo + 24))
  if klassIsValuetypeViaMap context klass then saturatingSub raw 0x10 else raw

variable (stringHeapBase : Option ℕ)

/-- `il2cpp_type_name` in the generic context of the class.  Resolution always has an
answer with this fuel. -/
def fieldTypeName (klass typePtr : ℕ) : String :=
  let resolver : Resolver :=
    { image := context.image
      cfg := context.cfg
      stringHeapBase
      ctx := readGenericContext context klass }
  (il2cppTypeName resolver 10 typePtr).getD ""

/-- The loop over the runtime's own enumeration; the cap counts what was collected. -/
def collectListed (klass : ℕ) : List ℕ → List RtField → List RtField × Bool
  | [], rtFields => (rtFields, false)
  | f :: rest, rtFields =>
      if Dump.maxFieldsPerClass ≤ rtFields.length then (rtFields, true)
      else
        let ftypePtr := context.fieldGetType f
        let ftype :=
          if ftypePtr ≠ 0 then fieldTypeName context stringHeapBase klass ftypePtr else "?"
        let token := mapReadOr0 context 4 (f + 28)
        if token = 0 then collectListed klass rest rtFields
        else
          collectListed klass rest (rtFields ++
            [⟨context.fieldGetName f, ftype, mapOffset context klass f, UInt32.ofNat token,
              readFieldIsStatic context ftypePtr⟩])

/-- One slot of the memory walk; `none` goes on to the next one. -/
def walkedField (klass f namePtr : ℕ) : Option RtField := do
  let fname ← context.image.readName namePtr
  if fname = "" then none
  else
    let token := mapReadOr0 context 4 (f + 28)
    if token = 0 then none
    else
      let typePtr := mapReadOr0 context 8 (f + 8)
      if typePtr = 0 then none
      else
        let chunk := mapChunk context typePtr
        let tc := UInt8.ofNat (chunk >>> context.cfg.discrimShift)
        if tc = 0 ∨ 0x45 < tc then none
        else
          some ⟨fname, fieldTypeName context stringHeapBase klass typePtr,
            mapOffset context klass f, UInt32.ofNat token,
            chunk &&& methodAttributeStaticBit != 0⟩

/-- The memory walk over the field array. -/
def collectWalked (klass fieldsPtr : ℕ) :
    ℕ → ℕ → List RtField → Bool → List RtField × Bool
  | 0, _, rtFields, capHit => (rtFields, capHit)
  | rounds + 1, fi, rtFields, capHit =>
      let f := fieldsPtr + fi * 32
      let namePtr := mapReadOr0 context 8 f
      if namePtr = 0 then (rtFields, capHit)
      else
        let capHit := if fi = Dump.maxFieldsPerClass - 1 then true else capHit
        match walkedField context stringHeapBase klass f namePtr with
        | none => collectWalked klass fieldsPtr rounds (fi + 1) rtFields capHit
        | some field =>
            collectWalked klass fieldsPtr rounds (fi + 1) (rtFields ++ [field]) capHit

def collectRuntimeFields (cls : ℕ) : List RtField × Bool :=
  match context.classGetFields with
  | some getFields => collectListed context stringHeapBase cls (getFields cls) []
  | none =>
      let fieldsPtr := mapReadOr0 context 8 (cls + context.cfg.klassFields)
      if fieldsPtr = 0 then ([], false)
      else
        collectWalked context stringHeapBase cls fieldsPtr Dump.maxFieldsPerClass 0 [] false

end Model

/-! ## The two readers of names -/

/-- The region map and the region cache both describe these regions. -/
structure SameRegions (image : Image) (regions : List Region) : Prop where
  separate : Separate regions
  map : image.inRegion = inRegion regions
  cache : image.validateRead = inRegion regions

section Readers

variable {image : Image} {regions : List Region} {address : ℕ} {name : String}

theorem SameRegions.mapRead_eq (hsame : SameRegions image regions) (width address : ℕ) :
    image.mapRead width address = image.cacheRead width address := by
  rw [Image.mapRead, Image.cacheRead, hsame.map, hsame.cache]

/-- The window `read_name` asks for is readable byte by byte. -/
theorem SameRegions.readable_byte (hsame : SameRegions image regions)
    (hwindow : image.inRegion (wrap address) 1024 = true) {offset : ℕ}
    (hoffset : offset < 1024) : image.validateRead (wrap (address + offset)) 1 = true := by
  rw [hsame.map, hsame.separate.inRegion_iff (by decide)] at hwindow
  obtain ⟨region, hregion, hstart, hstop, hlimit⟩ := hwindow
  have hwrap : wrap (address + offset) = wrap address + offset := by
    rw [wrap, wrap] at *
    omega
  rw [hsame.cache, hsame.separate.inRegion_iff (by decide), hwrap]
  exact ⟨region, hregion, by omega, by omega, by omega⟩

theorem cstrBytes_readable {window : ℕ}
    (hreadable : ∀ offset < window, image.validateRead (wrap (address + offset)) 1 = true) :
    ∃ bytes, image.cstrBytes window address = some bytes := by
  induction window generalizing address with
  | zero => exact ⟨[], rfl⟩
  | succ window ih =>
      have hfirst := hreadable 0 (Nat.succ_pos _)
      rw [Nat.add_zero] at hfirst
      obtain ⟨rest, hrest⟩ := @ih (address + 1) fun offset hoffset => by
        have hnext := hreadable (offset + 1) (Nat.succ_lt_succ hoffset)
        rwa [Nat.add_comm offset 1, ← Nat.add_assoc] at hnext
      simp only [Image.cstrBytes, Image.cacheRead, readWord, hfirst, if_true,
        Option.bind_eq_bind, Option.bind_some, hrest, Option.map_some]
      split <;> exact ⟨_, rfl⟩

/-- A name the dumper reads starts with a byte that is no NUL. -/
theorem memory_ne_zero_of_readName (hname : image.readName address = some name) :
    image.inRegion (wrap address) 1024 = true ∧ image.memory (wrap address) ≠ 0 := by
  rw [Image.readName] at hname
  by_cases hwindow : image.inRegion (wrap address) 1024 = true
  · refine ⟨hwindow, fun hnul => ?_⟩
    have hbytes : image.nameBytes 1024 address = some [] := by
      rw [Image.nameBytes]
      exact if_pos hnul
    rw [if_pos hwindow, hbytes] at hname
    cases hname
  · rw [if_neg hwindow] at hname
    cases hname

theorem readName_ne_empty (hname : image.readName address = some name) : name ≠ "" := by
  rw [Image.readName] at hname
  split at hname
  · obtain ⟨bytes, -, htext⟩ := Option.bind_eq_some_iff.mp hname
    by_cases hempty : bytes = []
    · rw [hempty] at htext
      cases htext
    · have hsome : bytes.isEmpty = false := by
        rw [List.isEmpty_eq_false_iff]
        exact hempty
      rw [hsome] at htext
      cases htext
      exact fromUtf8Lossy_ne_empty hempty
  · cases hname

/-- Where the dumper reads a name, the accessors read one too. -/
theorem SameRegions.readCstr_of_readName (hsame : SameRegions image regions)
    (hname : image.readName address = some name) :
    ∃ text, image.readCstr address = some text ∧ text ≠ "" := by
  obtain ⟨hwindow, hfirst⟩ := memory_ne_zero_of_readName hname
  have hreadable : ∀ offset < 255,
      image.validateRead (wrap (address + offset)) 1 = true := by
    intro offset hoffset
    exact hsame.readable_byte hwindow (by omega)
  obtain ⟨rest, hrest⟩ := @cstrBytes_readable image (address + 1) 254 fun offset hoffset => by
    have hnext := hreadable (offset + 1) (by omega)
    rwa [Nat.add_comm offset 1, ← Nat.add_assoc] at hnext
  have hbyte : image.cacheRead 1 address = some (image.memory (wrap address)).toNat := by
    have hhere := hreadable 0 (by decide)
    rw [Nat.add_zero] at hhere
    simp [Image.cacheRead, readWord, hhere, ByteMemory.load, LittleEndian.leValue]
  have hnonzero : (image.memory (wrap address)).toNat ≠ 0 := by
    intro hzero
    exact hfirst (UInt8.toNat_inj.mp hzero)
  have hbytes : image.cstrBytes 255 address =
      some (UInt8.ofNat (image.memory (wrap address)).toNat :: rest) := by
    rw [Image.cstrBytes, hbyte]
    simp only [Option.bind_eq_bind, Option.bind_some, if_neg hnonzero, hrest, Option.map_some]
  rw [Image.readCstr, hbytes, Option.map_some]
  exact ⟨_, rfl, fromUtf8Lossy_ne_empty (List.cons_ne_nil _ _)⟩

end Readers

/-! ## The two walks -/

/-- What one slot of the field array holds for the dumper. -/
def dumpSlot (context : Context) (stringHeapBase : Option ℕ) (klass fi : ℕ) :
    Slot RtField :=
  let fieldsPtr := mapReadOr0 context 8 (klass + context.cfg.klassFields)
  if fieldsPtr = 0 then .stop
  else
    let f := fieldsPtr + fi * 32
    let namePtr := mapReadOr0 context 8 f
    if namePtr = 0 then .stop
    else
      match walkedField context stringHeapBase klass f namePtr with
      | none => .skip
      | some field => .item field

/-- What the dumper makes of a field the accessors see. -/
def dumpedField (context : Context) (stringHeapBase : Option ℕ) (klass : ℕ)
    (info : FieldInfo) : Slot RtField :=
  match context.image.readName info.namePtr with
  | none => .skip
  | some fname =>
      .item ⟨fname, fieldTypeName context stringHeapBase klass info.typePtr, info.offset,
        UInt32.ofNat info.token, info.isStatic⟩

section Walks

variable {context : Context} {stringHeapBase : Option ℕ} {klass : ℕ}

theorem collectWalked_fst {fieldsPtr : ℕ}
    (hfields : mapReadOr0 context 8 (klass + context.cfg.klassFields) = fieldsPtr)
    (hnonnull : fieldsPtr ≠ 0) (rounds fi : ℕ) (rtFields : List RtField) (capHit : Bool) :
    (collectWalked context stringHeapBase klass fieldsPtr rounds fi rtFields capHit).1 =
      rtFields ++ walk (dumpSlot context stringHeapBase klass) rounds fi := by
  induction rounds generalizing fi rtFields capHit with
  | zero => exact (List.append_nil rtFields).symm
  | succ rounds ih =>
      rw [collectWalked, walk, dumpSlot, hfields]
      simp only [if_neg hnonnull]
      by_cases hend : mapReadOr0 context 8 (fieldsPtr + fi * 32) = 0
      · simp only [if_pos hend]
        exact (List.append_nil rtFields).symm
      · simp only [if_neg hend]
        cases walkedField context stringHeapBase klass (fieldsPtr + fi * 32)
            (mapReadOr0 context 8 (fieldsPtr + fi * 32)) with
        | none => exact ih (fi + 1) rtFields _
        | some field =>
            dsimp only
            rw [ih, List.append_assoc]
            rfl

/-- Without the runtime's iterator the dumper lists what its slots hold. -/
theorem collectRuntimeFields_eq_walk (hffi : context.classGetFields = none) :
    (collectRuntimeFields context stringHeapBase klass).1 =
      walk (dumpSlot context stringHeapBase klass) maxFields 0 := by
  rw [collectRuntimeFields, hffi]
  by_cases hnull : mapReadOr0 context 8 (klass + context.cfg.klassFields) = 0
  · have hstop : dumpSlot context stringHeapBase klass 0 = .stop := by
      rw [dumpSlot]
      exact if_pos hnull
    rw [maxFields, walk, hstop]
    simp only [if_pos hnull]
  · simp only [if_neg hnull]
    exact collectWalked_fst rfl hnull maxFields 0 [] false

theorem mapReadOr0_eq {regions : List Region} (hsame : SameRegions context.image regions)
    (width address : ℕ) : mapReadOr0 context width address = context.readOr0 width address := by
  rw [mapReadOr0, hsame.mapRead_eq, Context.readOr0]

/-- The name decides whether the dumper keeps a field of the accessors. -/
theorem walkedField_eq {regions : List Region} (hsame : SameRegions context.image regions)
    (fieldsPtr fi before : ℕ)
    (hread : context.image.cacheRead 8 (fieldsPtr + fi * 32) = some (before + 1)) :
    (match walkedField context stringHeapBase klass (fieldsPtr + fi * 32) (before + 1) with
      | none => Slot.skip
      | some field => .item field) =
      match fieldSlot context fieldsPtr (klassIsValuetype context klass) fi with
      | .stop => .stop
      | .skip => .skip
      | .item info => dumpedField context stringHeapBase klass info := by
  have hor0 := mapReadOr0_eq hsame
  have hvaluetype : klassIsValuetypeViaMap context klass = klassIsValuetype context klass := by
    rw [klassIsValuetypeViaMap, hor0, klassIsValuetype]
  have htc : ∀ typePtr, UInt8.ofNat (context.chunk typePtr >>> context.cfg.discrimShift) =
      typeTc context typePtr := fun _ => rfl
  have hchunk : ∀ typePtr, mapChunk context typePtr = context.chunk typePtr := by
    intro typePtr
    rw [mapChunk, hor0, Context.chunk]
  rw [fieldSlot, walkedField, hread]
  simp only [hor0, hchunk, htc, mapOffset, hvaluetype]
  -- The tests of the two walks besides the one of the name are the same.
  by_cases htoken : context.readOr0 4 (fieldsPtr + fi * 32 + 28) = 0
  · cases context.image.readName (before + 1) <;> simp [htoken]
  by_cases htype : context.readOr0 8 (fieldsPtr + fi * 32 + 8) = 0
  · cases context.image.readName (before + 1) <;> simp [htoken, htype]
  by_cases hcode :
      typeTc context (context.readOr0 8 (fieldsPtr + fi * 32 + 8)) = 0 ∨
        0x45 < typeTc context (context.readOr0 8 (fieldsPtr + fi * 32 + 8))
  · cases context.image.readName (before + 1) <;> simp [htoken, htype, hcode]
  simp only [if_neg htoken, if_neg htype, if_neg hcode]
  cases hname : context.image.readName (before + 1) with
  | none =>
      simp only [Option.bind_eq_bind, Option.bind_none]
      by_cases hcstr : (context.image.readCstr (before + 1)).all (· = "") = true
      · simp only [if_pos hcstr]
      · simp only [if_neg hcstr, dumpedField, hname]
  | some fname =>
      obtain ⟨text, htext, hnonempty⟩ := hsame.readCstr_of_readName hname
      have hcstr : ¬ (context.image.readCstr (before + 1)).all (· = "") = true := by
        simp [htext, hnonempty]
      simp only [Option.bind_eq_bind, Option.bind_some, if_neg (readName_ne_empty hname),
        if_neg hcstr, dumpedField, hname, rawOffset, FieldAccess.isStatic]

theorem dumpSlot_eq {regions : List Region} (hsame : SameRegions context.image regions)
    (fi : ℕ) :
    dumpSlot context stringHeapBase klass fi =
      match klassSlot context klass fi with
      | .stop => .stop
      | .skip => .skip
      | .item info => dumpedField context stringHeapBase klass info := by
  rw [dumpSlot, klassSlot]
  simp only [mapReadOr0_eq hsame, Context.readOr0]
  cases context.image.cacheRead 8 (klass + context.cfg.klassFields) with
  | none => rfl
  | some fieldsPtr =>
      cases fieldsPtr with
      | zero => rfl
      | succ fieldsBefore =>
          simp only [Option.getD_some, Nat.succ_ne_zero, if_false]
          cases hread : context.image.cacheRead 8 (fieldsBefore + 1 + fi * 32) with
          | none =>
              rw [fieldSlot, hread]
              rfl
          | some namePtr =>
              cases namePtr with
              | zero =>
                  rw [fieldSlot, hread]
                  rfl
              | succ before =>
                  simp only [Option.getD_some, Nat.succ_ne_zero, if_false]
                  exact walkedField_eq hsame (fieldsBefore + 1) fi before hread

/-- The accessors get to the slot and see a field in it. -/
def FieldAt (context : Context) (klass fi : ℕ) (info : FieldInfo) : Prop :=
  Reaches (klassSlot context klass) 0 fi ∧ klassSlot context klass fi = .item info

theorem reaches_map {Key : Type} {f : FieldInfo → Key} {fi : ℕ} :
    Reaches (fun place => (klassSlot context klass place).map f) 0 fi ↔
      Reaches (klassSlot context klass) 0 fi := by
  have hstop : ∀ place, (klassSlot context klass place).map f ≠ .stop ↔
      klassSlot context klass place ≠ .stop := by
    intro place
    cases klassSlot context klass place <;> simp [Slot.map]
  simp only [Reaches, hstop]

theorem dumpedField_eq_item (info : FieldInfo) :
    (∃ fname, context.image.readName info.namePtr = some fname ∧
      dumpedField context stringHeapBase klass info =
        .item ⟨fname, fieldTypeName context stringHeapBase klass info.typePtr, info.offset,
          UInt32.ofNat info.token, info.isStatic⟩) ∨
      (context.image.readName info.namePtr = none ∧
        dumpedField context stringHeapBase klass info = .skip) := by
  rw [dumpedField]
  cases context.image.readName info.namePtr with
  | none => exact Or.inr ⟨rfl, rfl⟩
  | some fname => exact Or.inl ⟨fname, rfl, rfl⟩

/-- Whatever is compared of the fields: the dumper lists those of the accessors in order
exactly if each of their slots holds the field for the dumper too. -/
theorem covers_iff {Key : Type} {regions : List Region}
    (hsame : SameRegions context.image regions) (f : FieldInfo → Key) (g : RtField → Key) :
    ((walk (klassSlot context klass) maxFields 0).map f).Sublist
        ((walk (dumpSlot context stringHeapBase klass) maxFields 0).map g) ↔
      ∀ fi < maxFields, ∀ info, FieldAt context klass fi info →
        (dumpedField context stringHeapBase klass info).map g = .item (f info) := by
  have hslot := @dumpSlot_eq context stringHeapBase klass regions hsame
  have hwithin : Within
      (fun place => (dumpSlot context stringHeapBase klass place).map g)
      (fun place => (klassSlot context klass place).map f) := by
    constructor
    · intro place
      rw [hslot]
      cases klassSlot context klass place with
      | stop => exact Iff.rfl
      | skip => exact Iff.rfl
      | item info =>
          rcases @dumpedField_eq_item context stringHeapBase klass info with
            ⟨fname, -, hitem⟩ | ⟨-, hskip⟩
          · simp only [hitem, Slot.map, reduceCtorEq]
          · simp only [hskip, Slot.map, reduceCtorEq]
    · intro place value hvalue
      rw [hslot] at hvalue
      cases hklass : klassSlot context klass place with
      | stop =>
          rw [hklass] at hvalue
          cases hvalue
      | skip =>
          rw [hklass] at hvalue
          cases hvalue
      | item info => exact ⟨f info, rfl⟩
  rw [← walk_map, ← walk_map, hwithin.sublist_iff]
  simp only [Nat.zero_add, reaches_map]
  constructor
  · rintro hall fi hfi info ⟨hreaches, hinfo⟩
    have hitem := hall fi hfi hreaches (f info) (by rw [hinfo]; rfl)
    rwa [hslot, hinfo] at hitem
  · intro hall fi hfi hreaches value hvalue
    cases hinfo : klassSlot context klass fi with
    | stop =>
        rw [hinfo] at hvalue
        cases hvalue
    | skip =>
        rw [hinfo] at hvalue
        cases hvalue
    | item info =>
        rw [hinfo] at hvalue
        cases hvalue
        rw [hslot, hinfo]
        exact hall fi hfi info ⟨hreaches, hinfo⟩

end Walks

/-- A field as the accessors show it: the string of its name pointer, the adjusted offset,
the token and the static flag. -/
def shown (context : Context) (info : FieldInfo) : Option String × UInt32 × UInt32 × Bool :=
  (context.image.readCstr info.namePtr, info.offset, UInt32.ofNat info.token, info.isStatic)

def listed (field : RtField) : Option String × UInt32 × UInt32 × Bool :=
  (some field.name, field.offset, field.token, field.isStatic)

section Covers

variable {context : Context} {stringHeapBase : Option ℕ} {klass : ℕ}

theorem FieldAt.named {fi : ℕ} {info : FieldInfo} (hat : FieldAt context klass fi info) :
    ∃ name, context.image.readCstr info.namePtr = some name := by
  have hinfo := hat.2
  rw [klassSlot] at hinfo
  split at hinfo
  · cases hinfo
  · cases hinfo
  · exact fieldSlot_named hinfo

theorem dumpedField_listed_iff {fi : ℕ} {info : FieldInfo}
    (hat : FieldAt context klass fi info) :
    (dumpedField context stringHeapBase klass info).map listed =
        .item (shown context info) ↔
      context.image.readName info.namePtr = context.image.readCstr info.namePtr := by
  obtain ⟨name, hname⟩ := hat.named
  rcases @dumpedField_eq_item context stringHeapBase klass info with
    ⟨fname, hread, hitem⟩ | ⟨hread, hskip⟩
  · rw [hitem, hread, hname]
    simp only [Slot.map, listed, shown, hname, Slot.item.injEq, Prod.mk.injEq, and_true]
  · rw [hskip, hread, hname]
    simp only [Slot.map, reduceCtorEq]

/-- What is compared of a field when its name is left out. -/
theorem dumpedField_unnamed_iff {fi : ℕ} {info : FieldInfo}
    (_ : FieldAt context klass fi info) :
    (dumpedField context stringHeapBase klass info).map (fun field => (listed field).2) =
        .item (shown context info).2 ↔
      context.image.readName info.namePtr ≠ none := by
  rcases @dumpedField_eq_item context stringHeapBase klass info with
    ⟨fname, hread, hitem⟩ | ⟨hread, hskip⟩
  · rw [hitem, hread]
    simp only [Slot.map, listed, shown, ne_eq, reduceCtorEq, not_false_eq_true]
  · rw [hskip, hread]
    simp only [Slot.map, reduceCtorEq, ne_eq, not_true_eq_false]

end Covers

/-- Without the runtime's iterator, the dumper lists every field the accessors see exactly
if the two readers of names agree on the names of all of them.  It keeps at least the
places of the fields exactly if it can read all the names. -/
theorem collectRuntimeFields_covers_iff (context : Context) (stringHeapBase : Option ℕ)
    (klass : ℕ) (regions : List Region) (hffi : context.classGetFields = none)
    (hsame : SameRegions context.image regions) :
    ∃ infos,
      collectFieldInfos registerMetadataBackend (KlassIter.maxFieldsPerClass + 1) klass
        (some context) = some infos ∧
      ((infos.map (shown context)).Sublist
          ((collectRuntimeFields context stringHeapBase klass).1.map listed) ↔
        ∀ fi < 256, ∀ info, FieldAt context klass fi info →
          context.image.readName info.namePtr = context.image.readCstr info.namePtr) ∧
      ((infos.map fun info => (shown context info).2).Sublist
          ((collectRuntimeFields context stringHeapBase klass).1.map fun field =>
            (listed field).2) ↔
        ∀ fi < 256, ∀ info, FieldAt context klass fi info →
          context.image.readName info.namePtr ≠ none) := by
  refine ⟨_, collectFieldInfos_eq_walk context klass (Nat.lt_succ_self _), ?_, ?_⟩
  · rw [collectRuntimeFields_eq_walk hffi, covers_iff hsame]
    exact forall₂_congr fun fi _ => forall₂_congr fun info hat => dumpedField_listed_iff hat
  · rw [collectRuntimeFields_eq_walk hffi, covers_iff hsame]
    exact forall₂_congr fun fi _ => forall₂_congr fun info hat => dumpedField_unnamed_iff hat

/-! ## A name at the end of a region -/

def edgeRegions : List Region := [⟨0x1000, 0x2000, 4⟩]

def edgeBytes : List (ℕ × UInt8) :=
  [(0x1081, 0x11), (0x1101, 0x1F), (0x1109, 0x12), (0x1118, 0x20), (0x111C, 0x01),
    (0x120A, 0x08), (0x1F00, 0x68), (0x1F01, 0x70)]

/-- A class at `0x1000` with one field `hp`, whose name stands less than 1024 bytes before
the end of the region. -/
def edgeContext : Context where
  image := {
    memory := fun address => (edgeBytes.lookup address).getD 0
    validateRead := fun addr len => decide (0x1000 ≤ addr ∧ addr + len ≤ 0x2000)
    inRegion := fun addr len => decide (0x1000 ≤ addr ∧ addr + len ≤ 0x2000)
    isExecutable := fun _ => false
    classGetName := fun _ => "Player"
    classGetNamespace := fun _ => ""
    tableBase := 0
    tableCount := 0 }
  cfg := fallbackConstants
  classGetFields := none
  fieldGetName := fun _ => ""
  fieldGetType := fun _ => 0
  backend := sampleContext.backend

theorem inRegion_edgeRegions (addr len : ℕ) :
    inRegion edgeRegions addr len = decide (0x1000 ≤ addr ∧ addr + len ≤ 0x2000) := by
  have hcandidate : RegionMap.candidate edgeRegions addr =
      if 0x1000 ≤ addr then some ⟨0x1000, 0x2000, 4⟩ else none := by
    have hbase : BinarySearch.narrow (fun region : Region => compare region.start addr)
        edgeRegions 0 edgeRegions.length = 0 := by
      rw [BinarySearch.narrow]
      rfl
    rw [RegionMap.candidate, BinarySearch.binarySearchBy, hbase]
    rcases Nat.lt_trichotomy 0x1000 addr with hlt | heq | hgt
    · have horder : compare 0x1000 addr = .lt := Nat.compare_eq_lt.mpr hlt
      simp [edgeRegions, horder, Nat.le_of_lt hlt]
    · simp [edgeRegions, ← heq]
    · have horder : compare 0x1000 addr = .gt := Nat.compare_eq_gt.mpr hgt
      simp [edgeRegions, horder, Nat.not_le.mpr hgt]
  rw [RegionMap.inRegion, hcandidate, VirtualMemory.checkedAdd]
  by_cases hlow : 0x1000 ≤ addr
  · by_cases hwrap : addr + len < 2 ^ 64
    · rw [if_pos hwrap, if_pos hlow]
      simp [hlow]
    · have hhigh : ¬ addr + len ≤ 0x2000 := by omega
      rw [if_neg hwrap]
      simp [hhigh]
  · rw [if_neg hlow]
    split <;> simp [hlow]

theorem edgeContext_sameRegions : SameRegions edgeContext.image edgeRegions where
  separate := ⟨by decide, by decide⟩
  map := by
    funext addr len
    exact (inRegion_edgeRegions addr len).symm
  cache := by
    funext addr len
    exact (inRegion_edgeRegions addr len).symm

def edgeField : FieldInfo := ⟨0x1F00, 0x20, .i32, 1, false, 0x1200⟩

theorem klassSlot_edge : klassSlot edgeContext 0x1000 0 = .item edgeField := by
  decide +kernel

theorem edgeField_at : FieldAt edgeContext 0x1000 0 edgeField := by
  refine ⟨⟨Nat.le_refl 0, fun earlier _ hle => ?_⟩, klassSlot_edge⟩
  rw [Nat.le_zero.mp hle, klassSlot_edge]
  simp

/-- The accessors see a field that the dumper does not list. -/
theorem not_covers_edge :
    SameRegions edgeContext.image edgeRegions ∧ edgeContext.classGetFields = none ∧
      ∃ infos,
        collectFieldInfos registerMetadataBackend 257 0x1000 (some edgeContext) =
          some infos ∧
        ¬ (infos.map (shown edgeContext)).Sublist
          ((collectRuntimeFields edgeContext none 0x1000).1.map listed) ∧
        ¬ (infos.map fun info => (shown edgeContext info).2).Sublist
          ((collectRuntimeFields edgeContext none 0x1000).1.map fun field =>
            (listed field).2) := by
  have hnone : edgeContext.image.readName edgeField.namePtr = none := by decide
  obtain ⟨name, hname⟩ := edgeField_at.named
  refine ⟨edgeContext_sameRegions, rfl, _,
    collectFieldInfos_eq_walk edgeContext 0x1000 (Nat.lt_succ_self _), ?_, ?_⟩
  · rw [collectRuntimeFields_eq_walk rfl, covers_iff edgeContext_sameRegions]
    intro hall
    have hagree := (dumpedField_listed_iff edgeField_at).mp
      (hall 0 (by decide) edgeField edgeField_at)
    rw [hnone, hname] at hagree
    cases hagree
  · rw [collectRuntimeFields_eq_walk rfl, covers_iff edgeContext_sameRegions]
    intro hall
    exact (dumpedField_unnamed_iff edgeField_at).mp
      (hall 0 (by decide) edgeField edgeField_at) hnone

theorem collectRuntimeFields_covers_iff_edge :
    ∃ infos,
      collectFieldInfos registerMetadataBackend (KlassIter.maxFieldsPerClass + 1) 0x1000
        (some edgeContext) = some infos ∧
      ((infos.map (shown edgeContext)).Sublist
          ((collectRuntimeFields edgeContext none 0x1000).1.map listed) ↔
        ∀ fi < 256, ∀ info, FieldAt edgeContext 0x1000 fi info →
          edgeContext.image.readName info.namePtr =
            edgeContext.image.readCstr info.namePtr) ∧
      ((infos.map fun info => (shown edgeContext info).2).Sublist
          ((collectRuntimeFields edgeContext none 0x1000).1.map fun field =>
            (listed field).2) ↔
        ∀ fi < 256, ∀ info, FieldAt edgeContext 0x1000 fi info →
          edgeContext.image.readName info.namePtr ≠ none) :=
  collectRuntimeFields_covers_iff edgeContext none 0x1000 edgeRegions rfl
    edgeContext_sameRegions

end FrogAgent.DumpFields
