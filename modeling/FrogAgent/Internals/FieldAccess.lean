import FrogAgent.Host.GuestCalls
import FrogAgent.Internals.Calibration

/-!
# Access to fields by name

`for_each_field` of `internals/api.rs` walks the fields of a class, through the runtime's
iterator if it was resolved and otherwise through the memory of the class, and takes the
object header off the offsets of a value type.  `field_info`, `get_field`, `field_addr` and
`static_field` each look for the first field with a name.
-/

namespace FrogAgent.FieldAccess

open FrogAgent.ByteMemory
open FrogAgent.Calibration
open FrogAgent.MemHost
open FrogAgent.PackedArg
open FrogAgent.Signature
open FrogAgent.TypedValue

/-- What the walks read: the process, the calibrated offsets and the accessors of the
runtime.  `classGetFields` lists the `FieldInfo`s its iterator yields before null. -/
structure Context where
  image : Image
  cfg : Il2CppConfig
  classGetFields : Option (ℕ → List ℕ)
  fieldGetName : ℕ → String
  fieldGetType : ℕ → ℕ
  backend : Backend

/-- A field as its `FieldInfo` has it. -/
structure Field where
  name : String
  rawOffset : UInt32
  typePtr : ℕ
  deriving DecidableEq

/-- One round of a walk: the end of the table, a slot to skip, or a field. -/
inductive Entry where
  | stop
  | skip
  | field (field : Field)
  deriving DecidableEq

section Walk

variable (context : Context)

/-- A validated read that counts unreadable memory as zero. -/
def Context.readOr0 (width address : ℕ) : ℕ :=
  (context.image.cacheRead width address).getD 0

/-- The word of an `Il2CppType` that holds the attributes and the type code. -/
def Context.chunk (typePtr : ℕ) : ℕ :=
  context.readOr0 8 (typePtr + context.cfg.il2cppTypeDiscrimReadAt)

def typeTc (typePtr : ℕ) : UInt8 :=
  UInt8.ofNat (context.chunk typePtr >>> context.cfg.discrimShift)

def methodAttributeStaticBit : ℕ := 0x10

def isStatic (typePtr : ℕ) : Bool :=
  context.chunk typePtr &&& methodAttributeStaticBit != 0

def klassIsValuetype (klass : ℕ) : Bool :=
  context.readOr0 1 (klass + context.cfg.klassValuetypeOff) &&&
    context.cfg.klassValuetypeBit != 0

def rawOffset (fieldInfo : ℕ) : UInt32 := UInt32.ofNat (context.readOr0 4 (fieldInfo + 24))

/-- A slot of the memory walk.  Slots without a name, a token or a plausible type are
garbage. -/
def memoryEntry (slot : ℕ) : Entry :=
  match context.image.cacheRead 8 slot with
  | none | some 0 => .stop
  | some namePtr =>
      match context.image.readCstr namePtr with
      | none => .skip
      | some name =>
          let typePtr := context.readOr0 8 (slot + 8)
          let tc := typeTc context typePtr
          if name = "" then .skip
          else if context.readOr0 4 (slot + 28) = 0 then .skip
          else if typePtr = 0 then .skip
          else if tc = 0 ∨ 0x45 < tc then .skip
          else .field ⟨name, rawOffset context slot, typePtr⟩

def entryAt (klass index : ℕ) : Entry :=
  match context.classGetFields with
  | some getFields =>
      match (getFields klass)[index]? with
      | none => .stop
      | some fi => .field ⟨context.fieldGetName fi, rawOffset context fi,
          context.fieldGetType fi⟩
  | none =>
      match context.image.cacheRead 8 (klass + context.cfg.klassFields) with
      | none | some 0 => .stop
      | some fieldsPtr => memoryEntry context (fieldsPtr + index * 32)

/-- `u32::saturating_sub` -/
def saturatingSub (left right : UInt32) : UInt32 := UInt32.ofNat (left.toNat - right.toNat)

/-- The offset a walk reports. -/
def reportedOffset (klass : ℕ) (raw : UInt32) : UInt32 :=
  if klassIsValuetype context klass then saturatingSub raw 0x10 else raw

/-- The rounds of a walk; the visitor says whether it has seen enough. -/
def visitFields {State : Type} (klass : ℕ)
    (visit : State → String → UInt32 → ℕ → State × Bool) : ℕ → ℕ → State → State
  | 0, _, state => state
  | rounds + 1, index, state =>
      match entryAt context klass index with
      | .stop => state
      | .skip => visitFields klass visit rounds (index + 1) state
      | .field field =>
          let (state, enough) :=
            visit state field.name (reportedOffset context klass field.rawOffset) field.typePtr
          if enough then state else visitFields klass visit rounds (index + 1) state

def maxFields : ℕ := 256

def forEachField {State : Type} (klass : ℕ)
    (visit : State → String → UInt32 → ℕ → State × Bool) (state : State) : State :=
  visitFields context klass visit maxFields 0 state

def fieldInfo (klass : ℕ) (name : String) : Option (UInt32 × ValType × Bool) :=
  forEachField context klass
    (fun found fname offset typePtr =>
      if fname = name then
        let vt := (valtypeFromTc (typeTc context typePtr)).getD .u64
        (some (offset, vt, isStatic context typePtr), true)
      else (found, false))
    none

/-- The typed read of `get_field`. -/
def readValue (addr : BitVec 64) (ty : ValType) : Except ℤ Value :=
  let backend := context.backend
  let memory := context.image.memory
  match ty with
  | .u8 => (apiRead UInt8 backend memory addr).map .u8
  | .u16 => (apiRead UInt16 backend memory addr).map .u16
  | .u32 => (apiRead UInt32 backend memory addr).map .u32
  | .u64 => (apiRead UInt64 backend memory addr).map .u64
  | .i8 => (apiRead Int8 backend memory addr).map .i8
  | .i16 => (apiRead Int16 backend memory addr).map .i16
  | .i32 => (apiRead Int32 backend memory addr).map .i32
  | .i64 => (apiRead Int64 backend memory addr).map .i64
  | .f32 => (apiRead F32 backend memory addr).map .f32
  | .f64 => (apiRead F64 backend memory addr).map .f64
  | .bytes | .cstr => .error Status.errBadType

def getField (object : BitVec 64) (klass : ℕ) (name : String) : Except ℤ Value :=
  match fieldInfo context klass name with
  | none => .error Status.errBadType
  | some (offset, vt, _) => readValue context (object + offset.toBitVec.zeroExtend 64) vt

def fieldAddr (klass : ℕ) (name : String) (object : BitVec 64) :
    Option (BitVec 64 × ValType) :=
  match fieldInfo context klass name with
  | none => none
  | some (offset, vt, _) => some (object + offset.toBitVec.zeroExtend 64, vt)

/-- The pointer to the static storage of the class. -/
def staticBase (klass : ℕ) : ℕ := context.readOr0 8 (klass + context.cfg.klassStaticFields)

def staticField (klass : ℕ) (name : String) : Option (BitVec 64) :=
  if staticBase context klass = 0 then none
  else
    forEachField context klass
      (fun found fname offset typePtr =>
        if fname = name then
          (if isStatic context typePtr then
            some (BitVec.ofNat 64 (staticBase context klass) + offset.toBitVec.zeroExtend 64)
          else found, true)
        else (found, false))
      none

end Walk

/-- With this `field_info` the host function `get_field` reads the same. -/
theorem getField_eq_host {context : Context} {host : GuestCalls.Host} {klass : BitVec 64}
    {name : String} (hbackend : host.backend = context.backend)
    (hfieldInfo : host.fieldInfo (UInt64.ofBitVec klass) name =
      fieldInfo context klass.toNat name) (object : BitVec 64) :
    GuestCalls.getField host context.image.memory object klass name =
      getField context object klass.toNat name := by
  rw [GuestCalls.getField, getField, hfieldInfo, hbackend]
  rfl

/-! ## The first field with a name -/

/-- The field at `index` has the name, and the table goes on up to there without another
one that has it. -/
def IsFirst (entries : ℕ → Entry) (name : String) (index : ℕ) (field : Field) : Prop :=
  entries index = .field field ∧ field.name = name ∧
    ∀ earlier < index, entries earlier ≠ .stop ∧
      ∀ other, entries earlier = .field other → other.name ≠ name

/-- The search for it in a number of rounds. -/
def firstNamed (entries : ℕ → Entry) (name : String) : ℕ → ℕ → Option Field
  | 0, _ => none
  | rounds + 1, index =>
      match entries index with
      | .stop => none
      | .skip => firstNamed entries name rounds (index + 1)
      | .field field =>
          if field.name = name then some field
          else firstNamed entries name rounds (index + 1)

section First

variable {entries : ℕ → Entry} {name : String}

theorem IsFirst.unique {left right : ℕ} {first second : Field}
    (hfirst : IsFirst entries name left first) (hsecond : IsFirst entries name right second) :
    left = right ∧ first = second := by
  have hindex : left = right := by
    rcases Nat.lt_trichotomy left right with hlt | heq | hgt
    · exact absurd hfirst.2.1 ((hsecond.2.2 left hlt).2 first hfirst.1)
    · exact heq
    · exact absurd hsecond.2.1 ((hfirst.2.2 right hgt).2 second hsecond.1)
  subst hindex
  have hentry := hfirst.1
  rw [hsecond.1, Entry.field.injEq] at hentry
  exact ⟨rfl, hentry.symm⟩

/-- The table goes on up to here without an entry that has the name. -/
def Passed (entries : ℕ → Entry) (name : String) (index : ℕ) : Prop :=
  ∀ earlier < index, entries earlier ≠ .stop ∧
    ∀ other, entries earlier = .field other → other.name ≠ name

theorem Passed.succ {index : ℕ} (hpassed : Passed entries name index)
    (hgoes : entries index ≠ .stop)
    (hother : ∀ other, entries index = .field other → other.name ≠ name) :
    Passed entries name (index + 1) := by
  intro earlier hearlier
  rcases Nat.lt_or_eq_of_le (Nat.le_of_lt_succ hearlier) with hlt | rfl
  · exact hpassed earlier hlt
  · exact ⟨hgoes, hother⟩

/-- The first entry with the name is not among those that were passed. -/
theorem IsFirst.le_of_passed {index place : ℕ} {field : Field}
    (hfirst : IsFirst entries name place field) (hpassed : Passed entries name index) :
    index ≤ place := by
  by_contra hearly
  exact (hpassed place (Nat.not_le.mp hearly)).2 field hfirst.1 hfirst.2.1

/-- A table that stops here has no first entry from here on. -/
theorem IsFirst.not_of_stop {index place : ℕ} {field : Field}
    (hstop : entries index = .stop) (hle : index ≤ place) :
    ¬ IsFirst entries name place field := by
  intro hfirst
  rcases Nat.lt_or_eq_of_le hle with hlt | rfl
  · exact (hfirst.2.2 index hlt).1 hstop
  · rw [hfirst.1] at hstop
    contradiction

/-- A search that starts behind entries without the name finds the first one that has
it. -/
theorem firstNamed_eq_some_iff {rounds index : ℕ} {field : Field}
    (hpassed : Passed entries name index) :
    firstNamed entries name rounds index = some field ↔
      ∃ place < index + rounds, IsFirst entries name place field := by
  induction rounds generalizing index with
  | zero =>
      simp only [firstNamed, reduceCtorEq, Nat.add_zero, false_iff, not_exists, not_and]
      intro place hplace hfirst
      exact absurd (hfirst.le_of_passed hpassed) (Nat.not_le.mpr hplace)
  | succ rounds ih =>
      have hnext := fun hgoes hother => ih (hpassed.succ hgoes hother)
      rw [Nat.add_assoc, Nat.add_comm 1 rounds] at hnext
      rw [firstNamed]
      split
      case h_1 hstop =>
        simp only [reduceCtorEq, false_iff, not_exists, not_and]
        intro place _ hfirst
        exact IsFirst.not_of_stop hstop (hfirst.le_of_passed hpassed) hfirst
      case h_2 hskip => exact hnext (by simp [hskip]) (by simp [hskip])
      case h_3 found hfound =>
        split
        case isTrue hname =>
          have hfirst : IsFirst entries name index found := ⟨hfound, hname, hpassed⟩
          constructor
          · intro hsome
            cases hsome
            exact ⟨index, by omega, hfirst⟩
          · rintro ⟨place, -, hother⟩
            rw [(hfirst.unique hother).2]
        case isFalse hname =>
          apply hnext (by simp [hfound])
          intro other hother
          rw [hfound, Entry.field.injEq] at hother
          rwa [← hother]

/-- The walk of at most 256 rounds. -/
theorem firstNamed_walk {field : Field} :
    firstNamed entries name maxFields 0 = some field ↔
      ∃ place < maxFields, IsFirst entries name place field := by
  rw [firstNamed_eq_some_iff]
  · rw [Nat.zero_add]
  · intro earlier hearlier
    exact absurd hearlier (Nat.not_lt_zero _)

end First

/-- The type a field is read as. -/
def fieldType (context : Context) (field : Field) : ValType :=
  (valtypeFromTc (typeTc context field.typePtr)).getD .u64

/-- Where an instance field is: a value type has no object header. -/
def storage (context : Context) (klass : ℕ) (object : BitVec 64) (field : Field) :
    BitVec 64 :=
  object + field.rawOffset.toBitVec.zeroExtend 64 -
    if klassIsValuetype context klass then 0x10 else 0

section Accessors

variable {context : Context} {klass : ℕ} {name : String}

/-- A visitor that stops at the first field with the name. -/
theorem visitFields_eq {State : Type} {visit : State → String → UInt32 → ℕ → State × Bool}
    (answer : State → UInt32 → ℕ → State)
    (hvisit : ∀ state fname offset typePtr, visit state fname offset typePtr =
      if fname = name then (answer state offset typePtr, true) else (state, false))
    (rounds index : ℕ) (state : State) :
    visitFields context klass visit rounds index state =
      match firstNamed (entryAt context klass) name rounds index with
      | none => state
      | some field =>
          answer state (reportedOffset context klass field.rawOffset) field.typePtr := by
  induction rounds generalizing index with
  | zero => rfl
  | succ rounds ih =>
      rw [visitFields, firstNamed]
      cases hentry : entryAt context klass index with
      | stop => rfl
      | skip => exact ih (index + 1)
      | field field =>
          simp only [hvisit]
          by_cases hname : field.name = name
          · simp only [if_pos hname, if_true]
          · simp only [if_neg hname, Bool.false_eq_true, if_false]
            exact ih (index + 1)

theorem fieldInfo_eq :
    fieldInfo context klass name =
      (firstNamed (entryAt context klass) name maxFields 0).map fun field =>
        (reportedOffset context klass field.rawOffset, fieldType context field,
          isStatic context field.typePtr) := by
  rw [fieldInfo, forEachField, visitFields_eq (fun _ offset typePtr =>
    some (offset, (valtypeFromTc (typeTc context typePtr)).getD .u64,
      isStatic context typePtr)) fun _ _ _ _ => rfl]
  cases firstNamed (entryAt context klass) name maxFields 0 <;> rfl

theorem staticField_eq :
    staticField context klass name =
      if staticBase context klass = 0 then none
      else (firstNamed (entryAt context klass) name maxFields 0).bind fun field =>
        if isStatic context field.typePtr then
          some (BitVec.ofNat 64 (staticBase context klass) +
            (reportedOffset context klass field.rawOffset).toBitVec.zeroExtend 64)
        else none := by
  rw [staticField, forEachField, visitFields_eq (fun found offset typePtr =>
    if isStatic context typePtr then
      some (BitVec.ofNat 64 (staticBase context klass) + offset.toBitVec.zeroExtend 64)
    else found) fun _ _ _ _ => rfl]
  cases firstNamed (entryAt context klass) name maxFields 0 <;> rfl

/-- A field beyond the rounds of the walk is not found. -/
theorem firstNamed_eq_none {entries : ℕ → Entry}
    (hnone : ∀ place < maxFields, ∀ field, ¬ IsFirst entries name place field) :
    firstNamed entries name maxFields 0 = none := by
  cases hfound : firstNamed entries name maxFields 0 with
  | none => rfl
  | some field =>
      obtain ⟨place, hplace, hfirst⟩ := firstNamed_walk.mp hfound
      exact absurd hfirst (hnone place hplace field)

theorem accessors_none (object : BitVec 64)
    (hnone : firstNamed (entryAt context klass) name maxFields 0 = none) :
    staticField context klass name = none ∧ fieldAddr context klass name object = none ∧
      getField context object klass name = .error Status.errBadType := by
  have hinfo : fieldInfo context klass name = none := by rw [fieldInfo_eq, hnone]; rfl
  refine ⟨?_, by rw [fieldAddr, hinfo], by rw [getField, hinfo]⟩
  rw [staticField_eq, hnone]
  split <;> rfl

theorem accessors_some (object : BitVec 64) {field : Field}
    (hsome : firstNamed (entryAt context klass) name maxFields 0 = some field) :
    fieldAddr context klass name object =
        some (object + (reportedOffset context klass field.rawOffset).toBitVec.zeroExtend 64,
          fieldType context field) ∧
      getField context object klass name =
        readValue context
          (object + (reportedOffset context klass field.rawOffset).toBitVec.zeroExtend 64)
          (fieldType context field) := by
  have hinfo : fieldInfo context klass name =
      some (reportedOffset context klass field.rawOffset, fieldType context field,
        isStatic context field.typePtr) := by
    rw [fieldInfo_eq, hsome]
    rfl
  exact ⟨by rw [fieldAddr, hinfo], by rw [getField, hinfo]⟩

theorem zeroExtend_saturatingSub_iff (raw : UInt32) :
    (saturatingSub raw 0x10).toBitVec.zeroExtend 64 = raw.toBitVec.zeroExtend 64 - 0x10 ↔
      0x10 ≤ raw := by
  have hraw := raw.toBitVec.isLt
  have hheader : (0x10 : UInt32).toNat = 16 := rfl
  have hheader64 : (0x10 : BitVec 64).toNat = 16 := rfl
  rw [UInt32.le_iff_toNat_le, hheader, ← BitVec.toNat_inj]
  simp only [saturatingSub, hheader, hheader64, UInt32.toBitVec_ofNat', BitVec.toNat_setWidth,
    BitVec.truncate_eq_setWidth, BitVec.toNat_ofNat, BitVec.toNat_sub,
    ← UInt32.toNat_toBitVec]
  omega

/-- The reported offset is the real one unless it was cut off at zero. -/
theorem reportedOffset_eq_iff (object : BitVec 64) (field : Field) :
    object + (reportedOffset context klass field.rawOffset).toBitVec.zeroExtend 64 =
        storage context klass object field ↔
      (klassIsValuetype context klass = true → 0x10 ≤ field.rawOffset) := by
  unfold reportedOffset storage
  cases klassIsValuetype context klass with
  | false => simp
  | true =>
      simp only [if_true, forall_const]
      rw [BitVec.sub_eq_add_neg, BitVec.add_assoc, ← BitVec.sub_eq_add_neg,
        BitVec.add_right_inj]
      exact zeroExtend_saturatingSub_iff field.rawOffset

end Accessors

/-! ## Real storage -/

/-- `static_field` answers the static storage plus the raw offset exactly for a static
field with storage, `field_addr` and `get_field` have no address for a static field, and
for an instance field they use its place in the object. -/
structure AtRealStorage (context : Context) (klass : ℕ) (name : String)
    (object : BitVec 64) : Prop where
  static_iff : ∀ addr, staticField context klass name = some addr ↔
    ∃ place field, IsFirst (entryAt context klass) name place field ∧
      isStatic context field.typePtr = true ∧ staticBase context klass ≠ 0 ∧
      addr = BitVec.ofNat 64 (staticBase context klass) +
        field.rawOffset.toBitVec.zeroExtend 64
  static_unaddressed : ∀ place field, IsFirst (entryAt context klass) name place field →
    isStatic context field.typePtr = true →
    fieldAddr context klass name object = none ∧
      ∃ status, getField context object klass name = .error status
  instance_addressed : ∀ place field, IsFirst (entryAt context klass) name place field →
    isStatic context field.typePtr = false →
    fieldAddr context klass name object =
        some (storage context klass object field, fieldType context field) ∧
      getField context object klass name =
        readValue context (storage context klass object field) (fieldType context field)

/-- No field has the name; or the first one that has it is an instance field within the
rounds of the walk, not below the header of a value type; or it is a static field beyond
them, of a class without static storage. -/
def Addressable (context : Context) (klass : ℕ) (name : String) : Prop :=
  (∀ place field, ¬ IsFirst (entryAt context klass) name place field) ∨
    (∃ place < maxFields, ∃ field, IsFirst (entryAt context klass) name place field ∧
      isStatic context field.typePtr = false ∧
      (klassIsValuetype context klass = true → 0x10 ≤ field.rawOffset)) ∨
    ∃ place field, maxFields ≤ place ∧
      IsFirst (entryAt context klass) name place field ∧
      isStatic context field.typePtr = true ∧ staticBase context klass = 0

section RealStorage

variable {context : Context} {klass : ℕ} {name : String} {object : BitVec 64}

theorem atRealStorage_of_absent
    (habsent : ∀ place field, ¬ IsFirst (entryAt context klass) name place field) :
    AtRealStorage context klass name object := by
  obtain ⟨hstatic, -, -⟩ := accessors_none object
    (firstNamed_eq_none fun place _ field => habsent place field)
  constructor
  · intro addr
    rw [hstatic]
    constructor
    · intro hsome
      contradiction
    · rintro ⟨place, field, hfirst, -⟩
      exact absurd hfirst (habsent place field)
  · intro place field hfirst
    exact absurd hfirst (habsent place field)
  · intro place field hfirst
    exact absurd hfirst (habsent place field)

/-- The first field is an instance field and the walk reaches it. -/
theorem atRealStorage_instance {place : ℕ} {field : Field}
    (hfirst : IsFirst (entryAt context klass) name place field) (hplace : place < maxFields)
    (hinstance : isStatic context field.typePtr = false) :
    AtRealStorage context klass name object ↔
      (klassIsValuetype context klass = true → 0x10 ≤ field.rawOffset) := by
  have hfound := firstNamed_walk.mpr ⟨place, hplace, hfirst⟩
  obtain ⟨haddr, hget⟩ := accessors_some object hfound
  rw [← reportedOffset_eq_iff object field]
  constructor
  · intro hreal
    have hstored := (hreal.instance_addressed place field hfirst hinstance).1
    rw [haddr, Option.some.injEq, Prod.mk.injEq] at hstored
    exact hstored.1
  · intro hoffset
    constructor
    · intro addr
      have hnone : staticField context klass name = none := by
        rw [staticField_eq, hfound, Option.bind_some, hinstance]
        simp
      rw [hnone]
      constructor
      · intro hsome
        contradiction
      · rintro ⟨other, found, hother, hstatic, -⟩
        rw [(hother.unique hfirst).2, hinstance] at hstatic
        contradiction
    · intro other found hother hstatic
      rw [(hother.unique hfirst).2, hinstance] at hstatic
      contradiction
    · intro other found hother _
      rw [(hother.unique hfirst).2, haddr, hget, hoffset]
      exact ⟨rfl, rfl⟩

/-- The first field is static and the walk reaches it. -/
theorem not_atRealStorage_static {place : ℕ} {field : Field}
    (hfirst : IsFirst (entryAt context klass) name place field) (hplace : place < maxFields)
    (hstatic : isStatic context field.typePtr = true) :
    ¬ AtRealStorage context klass name object := by
  intro hreal
  have hnone := (hreal.static_unaddressed place field hfirst hstatic).1
  rw [(accessors_some object (firstNamed_walk.mpr ⟨place, hplace, hfirst⟩)).1] at hnone
  contradiction

/-- The walk ends before the first field. -/
theorem atRealStorage_beyond {place : ℕ} {field : Field}
    (hfirst : IsFirst (entryAt context klass) name place field) (hplace : maxFields ≤ place) :
    AtRealStorage context klass name object ↔
      isStatic context field.typePtr = true ∧ staticBase context klass = 0 := by
  have hmissed : firstNamed (entryAt context klass) name maxFields 0 = none := by
    apply firstNamed_eq_none
    intro other hother found hfound
    have hsame := (hfound.unique hfirst).1
    omega
  obtain ⟨hnone, haddr, hget⟩ := accessors_none object hmissed
  constructor
  · intro hreal
    cases hkind : isStatic context field.typePtr with
    | false =>
        have hstored := (hreal.instance_addressed place field hfirst hkind).1
        rw [haddr] at hstored
        contradiction
    | true =>
        refine ⟨rfl, ?_⟩
        by_contra hbase
        have hsome := (hreal.static_iff _).mpr ⟨place, field, hfirst, hkind, hbase, rfl⟩
        rw [hnone] at hsome
        contradiction
  · rintro ⟨hstatic, hbase⟩
    constructor
    · intro addr
      rw [hnone]
      constructor
      · intro hsome
        contradiction
      · rintro ⟨-, -, -, -, hnonzero, -⟩
        exact absurd hbase hnonzero
    · intro other found _ _
      exact ⟨haddr, _, hget⟩
    · intro other found hother hinstance
      rw [(hother.unique hfirst).2, hstatic] at hinstance
      contradiction

end RealStorage

/-- The accessors go to the real storage of a field exactly if it is addressable. -/
theorem atRealStorage_iff_addressable (context : Context) (klass : ℕ) (name : String)
    (object : BitVec 64) :
    AtRealStorage context klass name object ↔ Addressable context klass name := by
  by_cases hpresent : ∃ place field, IsFirst (entryAt context klass) name place field
  case neg =>
    have habsent : ∀ place field, ¬ IsFirst (entryAt context klass) name place field :=
      fun place field hfirst => hpresent ⟨place, field, hfirst⟩
    exact ⟨fun _ => Or.inl habsent, fun _ => atRealStorage_of_absent habsent⟩
  case pos =>
    obtain ⟨place, field, hfirst⟩ := hpresent
    constructor
    · intro hreal
      by_cases hplace : place < maxFields
      · cases hkind : isStatic context field.typePtr with
        | true => exact absurd hreal (not_atRealStorage_static hfirst hplace hkind)
        | false =>
            exact Or.inr (Or.inl ⟨place, hplace, field, hfirst, hkind,
              (atRealStorage_instance hfirst hplace hkind).mp hreal⟩)
      · have hbeyond := Nat.not_lt.mp hplace
        obtain ⟨hstatic, hbase⟩ := (atRealStorage_beyond hfirst hbeyond).mp hreal
        exact Or.inr (Or.inr ⟨place, field, hbeyond, hfirst, hstatic, hbase⟩)
    · rintro (habsent | ⟨other, hother, found, hfound, hinstance, hoffset⟩ |
        ⟨other, found, hother, hfound, hstatic, hbase⟩)
      · exact absurd hfirst (habsent place field)
      · exact (atRealStorage_instance hfound hother hinstance).mpr hoffset
      · exact (atRealStorage_beyond hfound hother).mpr ⟨hstatic, hbase⟩

/-- A value type at `0x1000` with static storage at `0x5000` and one static field `count`
with the raw offset `0x20`. -/
def sampleContext : Context where
  image := {
    memory := fun address =>
      if address = 0x102B then 0x80
      else if address = 0x10B9 then 0x50
      else if address = 0x2018 then 0x20
      else if address = 0x3008 then 0x10
      else if address = 0x300A then 0x08
      else 0
    validateRead := fun _ _ => true
    inRegion := fun _ _ => true
    isExecutable := fun _ => false
    classGetName := fun _ => "Counter"
    classGetNamespace := fun _ => ""
    tableBase := 0
    tableCount := 0 }
  cfg := fallbackConstants
  classGetFields := some fun _ => [0x2000]
  fieldGetName := fun _ => "count"
  fieldGetType := fun _ => 0x3000
  backend := ⟨fun _ _ => true, fun _ _ => true⟩

/-- The field lies at `0x5020`, and `static_field` answers `0x5010`. -/
theorem not_atRealStorage_sampleContext :
    ¬ AtRealStorage sampleContext 0x1000 "count" 0x7000 := by
  intro hreal
  have hfield : IsFirst (entryAt sampleContext 0x1000) "count" 0
      ⟨"count", 0x20, 0x3000⟩ := by
    refine ⟨rfl, rfl, ?_⟩
    intro earlier hearlier
    exact absurd hearlier (Nat.not_lt_zero _)
  have hstatic := (hreal.static_iff 0x5020).mpr
    ⟨0, _, hfield, by decide, by decide, by decide⟩
  revert hstatic
  decide

end FrogAgent.FieldAccess
