import FrogAgent.Core.Metadata

/-!
# Metadata layouts by version

`compute_layout` of `metadata.rs`: the layout of a metadata version is computed from
tables that list the fields of each record with the versions they exist in.  Every
offset and every record size stays within the size of its table, for all versions at
once.
-/

namespace FrogAgent.Metadata

/-- One field of a record: its width, and the versions that have it. -/
structure FieldDef where
  size : ℕ
  minVer : Option UInt32
  maxVer : Option UInt32

def okForVersion (version : UInt32) (field : FieldDef) : Bool :=
  field.minVer.all (· ≤ version) && field.maxVer.all (version ≤ ·)

def structSizeNamed (version : UInt32) : List (String × FieldDef) → ℕ
  | [] => 0
  | (_, field) :: fields =>
      (if okForVersion version field then field.size else 0) + structSizeNamed version fields

/-- The loop of `field_offset`, with `off` the bytes before the remaining fields. -/
def fieldOffsetFrom (version : UInt32) (name : String) :
    ℕ → List (String × FieldDef) → Option ℕ
  | _, [] => none
  | off, (label, field) :: fields =>
      let ok := okForVersion version field
      if label = name then if ok then some off else none
      else fieldOffsetFrom version name (if ok then off + field.size else off) fields

def fieldOffset (version : UInt32) (fields : List (String × FieldDef)) (name : String) :
    Option ℕ :=
  fieldOffsetFrom version name 0 fields

/-- `Il2CppGlobalMetadataHeader`: pairs of an offset and a size, behind the magic and
the version. -/
def headerFields : List (String × FieldDef) :=
  [("_sanity", ⟨4, none, none⟩), ("_version", ⟨4, none, none⟩),
    ("stringLiteral", ⟨8, some 16, none⟩), ("stringLiteralData", ⟨8, some 16, none⟩),
    ("string", ⟨8, none, none⟩), ("events", ⟨8, none, none⟩),
    ("properties", ⟨8, none, none⟩), ("methods", ⟨8, none, none⟩),
    ("parameterDefaultValues", ⟨8, none, none⟩), ("fieldDefaultValues", ⟨8, none, none⟩),
    ("fieldAndParameterDefaultValueData", ⟨8, none, none⟩),
    ("fieldMarshaledSizes", ⟨8, none, none⟩), ("parameters", ⟨8, none, none⟩),
    ("fields", ⟨8, none, none⟩), ("genericParameters", ⟨8, none, none⟩),
    ("genericParameterConstraints", ⟨8, none, none⟩),
    ("genericContainers", ⟨8, none, none⟩), ("nestedTypes", ⟨8, none, none⟩),
    ("interfaces", ⟨8, none, none⟩), ("vtableMethods", ⟨8, none, none⟩),
    ("interfaceOffsets", ⟨8, none, none⟩), ("typeDefinitions", ⟨8, none, none⟩),
    ("rgctxEntries", ⟨8, none, some 24⟩), ("images", ⟨8, none, none⟩),
    ("assemblies", ⟨8, none, none⟩), ("metadataUsageLists", ⟨8, some 19, some 24⟩),
    ("metadataUsagePairs", ⟨8, some 19, some 24⟩), ("fieldRefs", ⟨8, some 19, none⟩),
    ("referencedAssemblies", ⟨8, some 20, none⟩),
    ("attributesInfo", ⟨8, some 21, some 27⟩), ("attributeTypes", ⟨8, some 21, some 27⟩),
    ("attributeData", ⟨8, some 29, none⟩), ("attributeDataRange", ⟨8, some 29, none⟩),
    ("unresolvedVirtualCallParameterTypes", ⟨8, some 22, none⟩),
    ("unresolvedVirtualCallParameterRanges", ⟨8, some 22, none⟩),
    ("windowsRuntimeTypeNames", ⟨8, some 23, none⟩),
    ("windowsRuntimeStrings", ⟨8, some 27, none⟩),
    ("exportedTypeDefinitions", ⟨8, some 24, none⟩)]

def imageFields : List (String × FieldDef) :=
  [("nameIndex", ⟨4, none, none⟩), ("assemblyIndex", ⟨4, none, none⟩),
    ("typeStart", ⟨4, none, none⟩), ("typeCount", ⟨4, none, none⟩),
    ("exportedTypeStart", ⟨4, some 24, none⟩), ("exportedTypeCount", ⟨4, some 24, none⟩),
    ("entryPointIndex", ⟨4, none, none⟩), ("token", ⟨4, some 19, none⟩),
    ("customAttributeStart", ⟨4, some 24, none⟩),
    ("customAttributeCount", ⟨4, some 24, none⟩)]

def typeFields : List (String × FieldDef) :=
  [("nameIndex", ⟨4, none, none⟩), ("namespaceIndex", ⟨4, none, none⟩),
    ("customAttributeIndex", ⟨4, none, some 24⟩), ("byvalTypeIndex", ⟨4, none, none⟩),
    ("byrefTypeIndex", ⟨4, none, some 24⟩), ("declaringTypeIndex", ⟨4, none, none⟩),
    ("parentIndex", ⟨4, none, none⟩), ("elementTypeIndex", ⟨4, none, none⟩),
    ("rgctxStartIndex", ⟨4, none, some 24⟩), ("rgctxCount", ⟨4, none, some 24⟩),
    ("genericContainerIndex", ⟨4, none, none⟩),
    ("delegateWrapperFromManagedToNativeIndex", ⟨4, none, some 22⟩),
    ("marshalingFunctionsIndex", ⟨4, none, some 22⟩),
    ("ccwFunctionIndex", ⟨4, some 21, some 22⟩), ("guidIndex", ⟨4, some 21, some 22⟩),
    ("flags", ⟨4, none, none⟩), ("fieldStart", ⟨4, none, none⟩),
    ("methodStart", ⟨4, none, none⟩), ("eventStart", ⟨4, none, none⟩),
    ("propertyStart", ⟨4, none, none⟩), ("nestedTypesStart", ⟨4, none, none⟩),
    ("interfacesStart", ⟨4, none, none⟩), ("vtableStart", ⟨4, none, none⟩),
    ("interfaceOffsetsStart", ⟨4, none, none⟩), ("method_count", ⟨2, none, none⟩),
    ("property_count", ⟨2, none, none⟩), ("field_count", ⟨2, none, none⟩),
    ("event_count", ⟨2, none, none⟩), ("nested_type_count", ⟨2, none, none⟩),
    ("vtable_count", ⟨2, none, none⟩), ("interfaces_count", ⟨2, none, none⟩),
    ("interface_offsets_count", ⟨2, none, none⟩), ("bitfield", ⟨4, none, none⟩),
    ("token", ⟨4, some 19, none⟩)]

def fieldFields : List (String × FieldDef) :=
  [("nameIndex", ⟨4, none, none⟩), ("typeIndex", ⟨4, none, none⟩),
    ("customAttributeIndex", ⟨4, none, some 24⟩), ("token", ⟨4, some 19, none⟩)]

def computeLayout (version : UInt32) : Option MetadataLayout :=
  if version < 16 ∨ 31 < version then none
  else do
    let hOff := fieldOffset version headerFields
    return {
      hStringOffset := ← hOff "string"
      hStringSize := (← hOff "string") + 4
      hTypeDefsOffset := ← hOff "typeDefinitions"
      hTypeDefsSize := (← hOff "typeDefinitions") + 4
      hFieldsOffset := ← hOff "fields"
      hFieldsSize := (← hOff "fields") + 4
      hImagesOffset := ← hOff "images"
      hImagesSize := (← hOff "images") + 4
      imageSize := structSizeNamed version imageFields
      imageNameIndex := ← fieldOffset version imageFields "nameIndex"
      imageTypeStart := ← fieldOffset version imageFields "typeStart"
      imageTypeCount := ← fieldOffset version imageFields "typeCount"
      typeSize := structSizeNamed version typeFields
      typeNameIndex := ← fieldOffset version typeFields "nameIndex"
      typeNamespaceIndex := ← fieldOffset version typeFields "namespaceIndex"
      typeByvalTypeIndex := ← fieldOffset version typeFields "byvalTypeIndex"
      typeFieldStart := ← fieldOffset version typeFields "fieldStart"
      typeFieldCount := ← fieldOffset version typeFields "field_count"
      fieldSize := structSizeNamed version fieldFields
      fieldNameIndex := ← fieldOffset version fieldFields "nameIndex"
      fieldTypeIndex := ← fieldOffset version fieldFields "typeIndex" }

/-! ## Bounds -/

/-- The size a record would have with all its fields. -/
def totalSize (fields : List (String × FieldDef)) : ℕ :=
  (fields.map fun field => field.2.size).sum

theorem totalSize_cons (field : String × FieldDef) (fields : List (String × FieldDef)) :
    totalSize (field :: fields) = field.2.size + totalSize fields := by
  rw [totalSize, List.map_cons, List.sum_cons]
  rfl

theorem structSizeNamed_le (version : UInt32) (fields : List (String × FieldDef)) :
    structSizeNamed version fields ≤ totalSize fields := by
  induction fields with
  | nil => exact Nat.le_refl 0
  | cons field fields ih =>
      rw [structSizeNamed, totalSize_cons]
      split
      · exact Nat.add_le_add_left ih _
      · omega

theorem fieldOffsetFrom_le {version : UInt32} {name : String} {off found : ℕ}
    {fields : List (String × FieldDef)}
    (hfound : fieldOffsetFrom version name off fields = some found) :
    found ≤ off + totalSize fields := by
  induction fields generalizing off with
  | nil => contradiction
  | cons field fields ih =>
      rw [totalSize_cons]
      rw [fieldOffsetFrom] at hfound
      split at hfound
      case isTrue =>
        split at hfound
        · cases hfound
          exact Nat.le_add_right _ _
        · contradiction
      case isFalse =>
        have hle := ih hfound
        split at hle
        · omega
        · omega

theorem fieldOffset_le {version : UInt32} {name : String} {found : ℕ}
    {fields : List (String × FieldDef)}
    (hfound : fieldOffset version fields name = some found) :
    found ≤ totalSize fields := by
  have hle := fieldOffsetFrom_le hfound
  rwa [Nat.zero_add] at hle

/-- What the unchecked arithmetic of the parser needs to know about a layout. -/
structure MetadataLayout.Small (layout : MetadataLayout) : Prop where
  imageSize : layout.imageSize ≤ 2 ^ 8
  imageTypeStart : layout.imageTypeStart ≤ 2 ^ 8
  imageTypeCount : layout.imageTypeCount ≤ 2 ^ 8
  typeSize : layout.typeSize ≤ 2 ^ 8
  typeNameIndex : layout.typeNameIndex ≤ 2 ^ 8
  typeNamespaceIndex : layout.typeNamespaceIndex ≤ 2 ^ 8
  typeByvalTypeIndex : layout.typeByvalTypeIndex ≤ 2 ^ 8
  typeFieldStart : layout.typeFieldStart ≤ 2 ^ 8
  typeFieldCount : layout.typeFieldCount ≤ 2 ^ 8
  fieldSize : layout.fieldSize ≤ 2 ^ 8
  fieldNameIndex : layout.fieldNameIndex ≤ 2 ^ 8
  fieldTypeIndex : layout.fieldTypeIndex ≤ 2 ^ 8

theorem totalSize_imageFields : totalSize imageFields ≤ 2 ^ 8 := by decide

theorem totalSize_typeFields : totalSize typeFields ≤ 2 ^ 8 := by decide

theorem totalSize_fieldFields : totalSize fieldFields ≤ 2 ^ 8 := by decide

/-- The tables bound every layout, whatever the version. -/
theorem small_of_computeLayout {version : UInt32} {layout : MetadataLayout}
    (hlayout : computeLayout version = some layout) : layout.Small := by
  rw [computeLayout] at hlayout
  split at hlayout
  case isTrue => contradiction
  case isFalse =>
    -- the header offsets and the name of an image are not bounded here
    iterate 9 obtain ⟨_, _, hlayout⟩ := Option.bind_eq_some_iff.mp hlayout
    obtain ⟨typeStart, htypeStart, hlayout⟩ := Option.bind_eq_some_iff.mp hlayout
    obtain ⟨typeCount, htypeCount, hlayout⟩ := Option.bind_eq_some_iff.mp hlayout
    obtain ⟨typeName, htypeName, hlayout⟩ := Option.bind_eq_some_iff.mp hlayout
    obtain ⟨namespaceIdx, hnamespace, hlayout⟩ := Option.bind_eq_some_iff.mp hlayout
    obtain ⟨byval, hbyval, hlayout⟩ := Option.bind_eq_some_iff.mp hlayout
    obtain ⟨fieldStart, hfieldStart, hlayout⟩ := Option.bind_eq_some_iff.mp hlayout
    obtain ⟨fieldCount, hfieldCount, hlayout⟩ := Option.bind_eq_some_iff.mp hlayout
    obtain ⟨fieldName, hfieldName, hlayout⟩ := Option.bind_eq_some_iff.mp hlayout
    obtain ⟨fieldType, hfieldType, hlayout⟩ := Option.bind_eq_some_iff.mp hlayout
    obtain rfl := Option.some.inj hlayout
    exact {
      imageSize := Nat.le_trans (structSizeNamed_le _ _) totalSize_imageFields
      imageTypeStart := Nat.le_trans (fieldOffset_le htypeStart) totalSize_imageFields
      imageTypeCount := Nat.le_trans (fieldOffset_le htypeCount) totalSize_imageFields
      typeSize := Nat.le_trans (structSizeNamed_le _ _) totalSize_typeFields
      typeNameIndex := Nat.le_trans (fieldOffset_le htypeName) totalSize_typeFields
      typeNamespaceIndex := Nat.le_trans (fieldOffset_le hnamespace) totalSize_typeFields
      typeByvalTypeIndex := Nat.le_trans (fieldOffset_le hbyval) totalSize_typeFields
      typeFieldStart := Nat.le_trans (fieldOffset_le hfieldStart) totalSize_typeFields
      typeFieldCount := Nat.le_trans (fieldOffset_le hfieldCount) totalSize_typeFields
      fieldSize := Nat.le_trans (structSizeNamed_le _ _) totalSize_fieldFields
      fieldNameIndex := Nat.le_trans (fieldOffset_le hfieldName) totalSize_fieldFields
      fieldTypeIndex := Nat.le_trans (fieldOffset_le hfieldType) totalSize_fieldFields }

end FrogAgent.Metadata
