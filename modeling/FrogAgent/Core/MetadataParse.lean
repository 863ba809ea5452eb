import FrogAgent.Core.LossyText
import FrogAgent.Core.Metadata
import Mathlib.Data.List.Infix

/-!
# What the metadata parser recovers

`Describes` states that a blob holds a list of images, with their types and
fields, at the places its header words and a layout dictate.  The parser returns
exactly the described classes, from the blob alone and from any region the blob
is embedded in behind bytes without the magic.
-/

namespace FrogAgent.Metadata

open FrogAgent.LittleEndian
open FrogAgent.PackedArg
open FrogAgent.Slice

structure FieldDesc where
  name : String
  typeIndex : UInt32

structure TypeDesc where
  «namespace» : String
  name : String
  byvalTypeIndex : UInt32
  fields : List FieldDesc

structure ImageDesc where
  types : List TypeDesc

/-- The bytes of `part` stand at `pos`. -/
def HoldsAt (bytes : List UInt8) (pos : ℕ) (part : List UInt8) : Prop :=
  part <+: bytes.drop pos

def U32At (bytes : List UInt8) (pos : ℕ) (word : UInt32) : Prop :=
  HoldsAt bytes pos (leBytes 4 word.toNat)

def U16At (bytes : List UInt8) (pos : ℕ) (word : UInt16) : Prop :=
  HoldsAt bytes pos (leBytes 2 word.toNat)

/-- A NUL-free text with its terminator. -/
def TextAt (bytes : List UInt8) (pos : ℕ) (text : String) : Prop :=
  0 ∉ text.toUTF8.toList ∧ HoldsAt bytes pos (text.toUTF8.toList ++ [0])

instance (bytes : List UInt8) (pos : ℕ) (part : List UInt8) :
    Decidable (HoldsAt bytes pos part) :=
  inferInstanceAs (Decidable (part <+: bytes.drop pos))

instance (bytes : List UInt8) (pos : ℕ) (word : UInt32) :
    Decidable (U32At bytes pos word) :=
  inferInstanceAs (Decidable (HoldsAt bytes pos _))

instance (bytes : List UInt8) (pos : ℕ) (word : UInt16) :
    Decidable (U16At bytes pos word) :=
  inferInstanceAs (Decidable (HoldsAt bytes pos _))

instance (bytes : List UInt8) (pos : ℕ) (text : String) :
    Decidable (TextAt bytes pos text) :=
  inferInstanceAs (Decidable (_ ∧ _))

/-- A signed start index, and the items as the records from there on.  Without
items the index may be anything, as `-1` is for a type without fields. -/
def TableAt {α : Type} (bytes : List UInt8) (pos : ℕ) (record : ℕ → α → Prop)
    (items : List α) : Prop :=
  ∃ start : UInt32, U32At bytes pos start ∧ (items ≠ [] → start.toNat < 2 ^ 31) ∧
    ∀ idx (hidx : idx < items.length), record (start.toNat + idx) items[idx]

section Records

variable (bytes : List UInt8) (layout : MetadataLayout) (header : MetaHeader)

/-- A word that is the heap index of a name. -/
def NameAt (pos : ℕ) (name : String) : Prop :=
  ∃ idx : UInt32, U32At bytes pos idx ∧
    TextAt bytes (header.stringOffset.toNat + idx.toNat) name

structure FieldAt (index : ℕ) (field : FieldDesc) : Prop where
  name : NameAt bytes header
    (header.fieldsOffset.toNat + index * layout.fieldSize + layout.fieldNameIndex)
    field.name
  typeIndex : U32At bytes
    (header.fieldsOffset.toNat + index * layout.fieldSize + layout.fieldTypeIndex)
    field.typeIndex

structure TypeAt (index : ℕ) (ty : TypeDesc) : Prop where
  name : NameAt bytes header
    (header.typeDefsOffset.toNat + index * layout.typeSize + layout.typeNameIndex)
    ty.name
  «namespace» : NameAt bytes header
    (header.typeDefsOffset.toNat + index * layout.typeSize + layout.typeNamespaceIndex)
    ty.namespace
  byvalTypeIndex : U32At bytes
    (header.typeDefsOffset.toNat + index * layout.typeSize + layout.typeByvalTypeIndex)
    ty.byvalTypeIndex
  fields : TableAt bytes
    (header.typeDefsOffset.toNat + index * layout.typeSize + layout.typeFieldStart)
    (FieldAt bytes layout header) ty.fields
  fieldCount : ∃ count : UInt16, count.toNat = ty.fields.length ∧ U16At bytes
    (header.typeDefsOffset.toNat + index * layout.typeSize + layout.typeFieldCount) count

structure ImageAt (index : ℕ) (image : ImageDesc) : Prop where
  types : TableAt bytes
    (header.imagesOffset.toNat + index * layout.imageSize + layout.imageTypeStart)
    (TypeAt bytes layout header) image.types
  typeCount : ∃ count : UInt32, count.toNat = image.types.length ∧ U32At bytes
    (header.imagesOffset.toNat + index * layout.imageSize + layout.imageTypeCount) count

/-- The blob holds the images at the places the header and the layout dictate,
all in bounds. -/
structure Describes (images : List ImageDesc) : Prop where
  magic : U32At bytes 0 metadataMagic
  stringOffset : U32At bytes layout.hStringOffset header.stringOffset
  typeDefsOffset : U32At bytes layout.hTypeDefsOffset header.typeDefsOffset
  fieldsOffset : U32At bytes layout.hFieldsOffset header.fieldsOffset
  imagesOffset : U32At bytes layout.hImagesOffset header.imagesOffset
  imagesSize : U32At bytes layout.hImagesSize header.imagesSize
  string_lt : header.stringOffset.toNat < bytes.length
  typeDefs_lt : header.typeDefsOffset.toNat < bytes.length
  fields_lt : header.fieldsOffset.toNat < bytes.length
  images_lt : header.imagesOffset.toNat < bytes.length
  imagesSize_eq : header.imagesSize.toNat = images.length * layout.imageSize
  imagesSize_pos : 0 < header.imagesSize.toNat
  images_le : header.imagesOffset.toNat + header.imagesSize.toNat ≤ bytes.length
  images : ∀ idx (hidx : idx < images.length),
    ImageAt bytes layout header idx images[idx]

end Records

def FieldDesc.dumped (field : FieldDesc) : DumpedField :=
  ⟨field.name, "", some field.typeIndex⟩

def TypeDesc.dumped (ty : TypeDesc) : DumpedClass :=
  ⟨ty.namespace, ty.name, ty.fields.map FieldDesc.dumped, [], ty.byvalTypeIndex⟩

/-- The classes of the images, in order. -/
def dumpOf (images : List ImageDesc) : Dump :=
  ⟨images.flatMap fun image => image.types.map TypeDesc.dumped⟩

theorem HoldsAt.le_length {bytes part : List UInt8} {pos : ℕ}
    (hholds : HoldsAt bytes pos part) (hpart : 0 < part.length) :
    pos + part.length ≤ bytes.length := by
  have hle := hholds.length_le
  rw [List.length_drop] at hle
  omega

/-- Bytes behind the blob do not matter. -/
theorem HoldsAt.append {bytes part : List UInt8} {pos : ℕ}
    (hholds : HoldsAt bytes pos part) (tail : List UInt8) :
    HoldsAt (bytes ++ tail) pos part := by
  rw [HoldsAt, List.drop_append]
  exact hholds.trans (List.prefix_append _ _)

theorem getBytes_of_holdsAt {bytes part : List UInt8} {pos : ℕ}
    (hlength : bytes.length < 2 ^ 64) (hholds : HoldsAt bytes pos part)
    (hpart : 0 < part.length) : getBytes bytes pos part.length = some part := by
  have hle := hholds.le_length hpart
  rw [getBytes, if_pos ⟨by omega, hle⟩, List.prefix_iff_eq_take.mp hholds]
  simp

theorem readU32_of_at {bytes : List UInt8} {pos : ℕ} {word : UInt32}
    (hlength : bytes.length < 2 ^ 64) (hword : U32At bytes pos word) :
    readU32 bytes pos = some word := by
  have hbytes := getBytes_of_holdsAt hlength hword (by simp)
  rw [length_leBytes] at hbytes
  rw [readU32, hbytes, Option.map_some, leValue_leBytes word.toNat_lt, UInt32.ofNat_toNat]

theorem readU16_of_at {bytes : List UInt8} {pos : ℕ} {word : UInt16}
    (hlength : bytes.length < 2 ^ 64) (hword : U16At bytes pos word) :
    readU16 bytes pos = some word := by
  have hbytes := getBytes_of_holdsAt hlength hword (by simp)
  rw [length_leBytes] at hbytes
  rw [readU16, hbytes, Option.map_some, leValue_leBytes word.toNat_lt, UInt16.ofNat_toNat]

theorem readI32_of_at {bytes : List UInt8} {pos : ℕ} {word : UInt32}
    (hlength : bytes.length < 2 ^ 64) (hword : U32At bytes pos word) :
    readI32 bytes pos = some word.toBitVec.toInt := by
  rw [readI32, readU32_of_at hlength hword]
  rfl

theorem toInt_of_lt {word : UInt32} (hword : word.toNat < 2 ^ 31) :
    word.toBitVec.toInt = word.toNat := by
  rw [BitVec.toInt_eq_toNat_of_lt]
  · rfl
  · change 2 * word.toNat < 2 ^ 32
    omega

theorem U32At.le_length {bytes : List UInt8} {pos : ℕ} {word : UInt32}
    (hword : U32At bytes pos word) : pos + 4 ≤ bytes.length := by
  have hle := HoldsAt.le_length hword (by simp)
  rwa [length_leBytes] at hle

theorem U16At.le_length {bytes : List UInt8} {pos : ℕ} {word : UInt16}
    (hword : U16At bytes pos word) : pos + 2 ≤ bytes.length := by
  have hle := HoldsAt.le_length hword (by simp)
  rwa [length_leBytes] at hle

theorem returns_readCstr {bytes : List UInt8} {pos : ℕ} {text : String}
    (htext : TextAt bytes pos text) : Returns (readCstr bytes pos) (some text) := by
  obtain ⟨hfree, rest, hrest⟩ := htext
  have hlength := congrArg List.length hrest
  simp only [List.length_append, List.length_cons, List.length_drop] at hlength
  have hwhile : (bytes.drop pos).takeWhile (· ≠ 0) = text.toUTF8.toList := by
    rw [← hrest, List.append_assoc, List.takeWhile_append_of_pos]
    · simp
    · intro byte hbyte
      simpa using ne_of_mem_of_not_mem hbyte hfree
  have hshort : ¬ bytes.length ≤ pos := by omega
  rw [readCstr, if_neg hshort, hwhile]
  have hrange := returns_range (Nat.le_add_right pos text.toUTF8.toList.length)
    (by omega : pos + text.toUTF8.toList.length ≤ bytes.length)
  rw [Nat.add_sub_cancel_left, ← hrest, List.append_assoc, List.take_left' rfl] at hrange
  have hread := hrange.map fromUtf8Lossy
  rwa [Option.map_some, fromUtf8Lossy_utf8] at hread

section Parse

variable {bytes : List UInt8} {layout : MetadataLayout} {header : MetaHeader}

theorem NameAt.word {pos : ℕ} {name : String} (hname : NameAt bytes header pos name) :
    ∃ idx, U32At bytes pos idx ∧
      Returns (readName bytes header idx) (some name) := by
  obtain ⟨idx, hword, htext⟩ := hname
  refine ⟨idx, hword, ?_⟩
  have hbase := header.stringOffset.toNat_lt
  have hidx := idx.toNat_lt
  rw [readName, Nat.mod_eq_of_lt (by omega)]
  exact returns_readCstr htext

theorem returns_recordAt {base : UInt32} {index size : ℕ}
    (hrecord : base.toNat + index * size < 2 ^ 64) :
    Returns (recordAt base index size) (some (base.toNat + index * size)) := by
  apply (returns_mul (by omega)).step
  exact returns_add hrecord

theorem returns_recordFrom {base : UInt32} {start idx size : ℕ}
    (hindex : start + idx < 2 ^ 64)
    (hrecord : base.toNat + (start + idx) * size < 2 ^ 64) :
    Returns (recordFrom base start idx size)
      (some (base.toNat + (start + idx) * size)) := by
  apply (returns_add hindex).step
  exact returns_recordAt hrecord

theorem returns_parseField {start idx : ℕ} {field : FieldDesc}
    (hlength : bytes.length < 2 ^ 64) (hindex : start + idx < 2 ^ 64)
    (hfield : FieldAt bytes layout header (start + idx) field) :
    Returns (parseField bytes layout header start idx) (some [field.dumped]) := by
  obtain ⟨nameIdx, hword, hname⟩ := hfield.name.word
  have hnameAt := hword.le_length
  have htypeAt := hfield.typeIndex.le_length
  apply (returns_recordFrom hindex (by omega)).step
  apply (returns_add (by omega)).step
  simp only [readU32_of_at hlength hword]
  apply (returns_add (by omega)).step
  simp only [readU32_of_at hlength hfield.typeIndex]
  exact hname.step (Returns.pure _)

/-- The guard on a signed start index and the counted loop behind it, as the
image and the type loop both have it. -/
theorem returns_table {α β : Type} {pos count : ℕ} {items : List α}
    {record : ℕ → α → Prop} {round : ℕ → ℕ → Checked (List β)} {output : α → β}
    (hitems : TableAt bytes pos record items) (hcount : count = items.length)
    (hround : ∀ start idx, start < 2 ^ 31 → idx < items.length →
      ∀ item, record (start + idx) item →
        Returns (round start idx) (some [output item])) :
    ∃ start : UInt32, U32At bytes pos start ∧
      Returns
        (if 0 ≤ start.toBitVec.toInt then
          collect (List.range count) (round start.toBitVec.toInt.toNat)
        else return [])
        (some (items.map output)) := by
  obtain ⟨start, hword, hstart, hrecords⟩ := hitems
  refine ⟨start, hword, ?_⟩
  by_cases hnil : items = []
  · rw [hcount, hnil]
    split
    · exact Returns.pure _
    · exact Returns.pure _
  · have hsmall := hstart hnil
    rw [toInt_of_lt hsmall, if_pos (Int.natCast_nonneg _), Int.toNat_natCast, hcount,
      List.map_eq_flatMap]
    apply returns_collect_range
    intro idx hidx
    exact hround _ idx hsmall hidx _ (hrecords idx hidx)

theorem returns_parseFields {pos : ℕ} {fields : List FieldDesc} {count : UInt16}
    (hlength : bytes.length < 2 ^ 64) (hcount : count.toNat = fields.length)
    (hfields : TableAt bytes pos (FieldAt bytes layout header) fields) :
    Returns (parseFields bytes layout header
        ((readI32 bytes pos).getD (-1)) count)
      (some (fields.map FieldDesc.dumped)) := by
  have hround : ∀ start idx, start < 2 ^ 31 → idx < fields.length →
      ∀ field, FieldAt bytes layout header (start + idx) field →
        Returns (parseField bytes layout header start idx) (some [field.dumped]) := by
    intro start idx hstart hidx field hfield
    have hsmall := count.toNat_lt
    exact returns_parseField hlength (by omega) hfield
  obtain ⟨start, hword, hreturns⟩ := returns_table hfields hcount hround
  rw [readI32_of_at hlength hword]
  exact hreturns

theorem returns_parseType {start idx : ℕ} {ty : TypeDesc}
    (hlength : bytes.length < 2 ^ 64) (hindex : start + idx < 2 ^ 64)
    (hty : TypeAt bytes layout header (start + idx) ty) :
    Returns (parseType bytes layout header start idx) (some [ty.dumped]) := by
  obtain ⟨nameIdx, hnameWord, hname⟩ := hty.name.word
  obtain ⟨namespaceIdx, hnamespaceWord, hnamespace⟩ := hty.namespace.word
  obtain ⟨count, hcount, hcountWord⟩ := hty.fieldCount
  have hnameAt := hnameWord.le_length
  have hnamespaceAt := hnamespaceWord.le_length
  have hbyvalAt := hty.byvalTypeIndex.le_length
  have hcountAt := hcountWord.le_length
  have hfields := returns_parseFields hlength hcount hty.fields
  obtain ⟨fieldStart, hstartWord, -⟩ := hty.fields
  have hstartAt := hstartWord.le_length
  apply (returns_recordFrom hindex (by omega)).step
  apply (returns_add (by omega)).step
  simp only [readU32_of_at hlength hnameWord]
  apply (returns_add (by omega)).step
  apply (returns_add (by omega)).step
  apply (returns_add (by omega)).step
  apply (returns_add (by omega)).step
  simp only [readU32_of_at hlength hnamespaceWord, readU16_of_at hlength hcountWord,
    readU32_of_at hlength hty.byvalTypeIndex, Option.getD_some]
  apply hfields.step
  apply hnamespace.step
  exact hname.step (Returns.pure _)

theorem returns_parseImage {idx : ℕ} {image : ImageDesc}
    (hlength : bytes.length < 2 ^ 64)
    (himage : ImageAt bytes layout header idx image) :
    Returns (parseImage bytes layout header idx)
      (some (image.types.map TypeDesc.dumped)) := by
  obtain ⟨count, hcount, hcountWord⟩ := himage.typeCount
  have hround : ∀ start idx, start < 2 ^ 31 → idx < image.types.length →
      ∀ ty, TypeAt bytes layout header (start + idx) ty →
        Returns (parseType bytes layout header start idx) (some [ty.dumped]) := by
    intro start idx hstart hidx ty hty
    have hsmall := count.toNat_lt
    exact returns_parseType hlength (by omega) hty
  obtain ⟨start, hword, hreturns⟩ := returns_table himage.types hcount hround
  have hstartAt := hword.le_length
  have hcountAt := hcountWord.le_length
  apply (returns_recordAt (by omega)).step
  apply (returns_add (by omega)).step
  simp only [readI32_of_at hlength hword]
  split at hreturns
  · rename_i hnonneg
    rw [if_pos hnonneg]
    apply (returns_add (by omega)).step
    simp only [readU32_of_at hlength hcountWord, Option.getD_some]
    exact hreturns
  · rename_i hnegative
    rw [if_neg hnegative]
    exact hreturns

theorem parseHeader_of_describes {images : List ImageDesc}
    (hlength : bytes.length < 2 ^ 64)
    (hblob : Describes bytes layout header images) :
    parseHeader bytes layout = some header := by
  simp only [parseHeader, readU32_of_at hlength hblob.magic,
    readU32_of_at hlength hblob.stringOffset, readU32_of_at hlength hblob.typeDefsOffset,
    readU32_of_at hlength hblob.fieldsOffset, readU32_of_at hlength hblob.imagesOffset,
    readU32_of_at hlength hblob.imagesSize]
  rfl

theorem inBounds_of_describes {images : List ImageDesc}
    (hblob : Describes bytes layout header images) :
    header.inBounds bytes.length = true := by
  have hnonzero : header.imagesSize ≠ 0 := by
    intro hzero
    have hpos := hblob.imagesSize_pos
    rw [hzero] at hpos
    contradiction
  have hfits := Nat.le_trans (Nat.min_le_left _ (2 ^ 64 - 1)) hblob.images_le
  simp only [MetaHeader.inBounds, hblob.string_lt, hblob.typeDefs_lt, hblob.fields_lt,
    hblob.images_lt, hnonzero, hfits, decide_true, ne_eq, not_false_eq_true, Bool.and_self]

theorem returns_parseMetadata {images : List ImageDesc}
    (hlength : bytes.length < 2 ^ 64)
    (hblob : Describes bytes layout header images) :
    Returns (parseMetadata bytes layout) (some (dumpOf images)) := by
  have hsize := hblob.imagesSize_pos
  rw [hblob.imagesSize_eq] at hsize
  have himageSize : 0 < layout.imageSize := Nat.pos_of_mul_pos_left hsize
  have hcount : header.imagesSize.toNat / max layout.imageSize 1 = images.length := by
    rw [hblob.imagesSize_eq, Nat.max_eq_left himageSize, Nat.mul_div_cancel _ himageSize]
  have hclasses : Returns
      (collect (List.range images.length) (parseImage bytes layout header))
      (some (dumpOf images).classes) := by
    apply returns_collect_range
    intro idx hidx
    exact returns_parseImage hlength (hblob.images idx hidx)
  rw [parseMetadata, parseHeader_of_describes hlength hblob]
  apply (Returns.lift (some header)).step
  rw [if_pos (inBounds_of_describes hblob), hcount]
  exact hclasses.map Dump.mk

end Parse

section Embedding

variable {bytes : List UInt8} {layout : MetadataLayout} {header : MetaHeader}

theorem TextAt.append {pos : ℕ} {text : String} (htext : TextAt bytes pos text)
    (tail : List UInt8) : TextAt (bytes ++ tail) pos text :=
  ⟨htext.1, htext.2.append tail⟩

theorem NameAt.append {pos : ℕ} {name : String} (hname : NameAt bytes header pos name)
    (tail : List UInt8) : NameAt (bytes ++ tail) header pos name := by
  obtain ⟨idx, hword, htext⟩ := hname
  exact ⟨idx, hword.append tail, htext.append tail⟩

theorem TableAt.append {α : Type} {pos : ℕ} {record longer : ℕ → α → Prop}
    {items : List α} (hitems : TableAt bytes pos record items) (tail : List UInt8)
    (hrecord : ∀ index item, record index item → longer index item) :
    TableAt (bytes ++ tail) pos longer items := by
  obtain ⟨start, hword, hstart, hrecords⟩ := hitems
  refine ⟨start, hword.append tail, hstart, ?_⟩
  intro idx hidx
  exact hrecord _ _ (hrecords idx hidx)

theorem FieldAt.append {index : ℕ} {field : FieldDesc}
    (hfield : FieldAt bytes layout header index field) (tail : List UInt8) :
    FieldAt (bytes ++ tail) layout header index field where
  name := hfield.name.append tail
  typeIndex := hfield.typeIndex.append tail

theorem TypeAt.append {index : ℕ} {ty : TypeDesc}
    (hty : TypeAt bytes layout header index ty) (tail : List UInt8) :
    TypeAt (bytes ++ tail) layout header index ty where
  name := hty.name.append tail
  «namespace» := hty.namespace.append tail
  byvalTypeIndex := hty.byvalTypeIndex.append tail
  fields := hty.fields.append tail fun _ _ hfield => hfield.append tail
  fieldCount := by
    obtain ⟨count, hcount, hword⟩ := hty.fieldCount
    exact ⟨count, hcount, hword.append tail⟩

theorem ImageAt.append {index : ℕ} {image : ImageDesc}
    (himage : ImageAt bytes layout header index image) (tail : List UInt8) :
    ImageAt (bytes ++ tail) layout header index image where
  types := himage.types.append tail fun _ _ hty => hty.append tail
  typeCount := by
    obtain ⟨count, hcount, hword⟩ := himage.typeCount
    exact ⟨count, hcount, hword.append tail⟩

theorem Describes.append {images : List ImageDesc}
    (hblob : Describes bytes layout header images) (tail : List UInt8) :
    Describes (bytes ++ tail) layout header images := by
  have hlonger : bytes.length ≤ (bytes ++ tail).length := by simp
  exact {
    magic := hblob.magic.append tail
    stringOffset := hblob.stringOffset.append tail
    typeDefsOffset := hblob.typeDefsOffset.append tail
    fieldsOffset := hblob.fieldsOffset.append tail
    imagesOffset := hblob.imagesOffset.append tail
    imagesSize := hblob.imagesSize.append tail
    string_lt := Nat.lt_of_lt_of_le hblob.string_lt hlonger
    typeDefs_lt := Nat.lt_of_lt_of_le hblob.typeDefs_lt hlonger
    fields_lt := Nat.lt_of_lt_of_le hblob.fields_lt hlonger
    images_lt := Nat.lt_of_lt_of_le hblob.images_lt hlonger
    imagesSize_eq := hblob.imagesSize_eq
    imagesSize_pos := hblob.imagesSize_pos
    images_le := Nat.le_trans hblob.images_le hlonger
    images := fun idx hidx => (hblob.images idx hidx).append tail }

/-- The window of the magic scan at an offset. -/
def magicAt (bytes : List UInt8) (offset : ℕ) : List ℕ :=
  if (bytes.drop offset).take 4 = magicBytes then [offset] else []

theorem returns_findMagicOffsets (hlong : 4 ≤ bytes.length) :
    Returns (findMagicOffsets bytes)
      (some ((List.range (bytes.length - 4 + 1)).flatMap (magicAt bytes))) := by
  rw [findMagicOffsets, if_neg (Nat.not_lt.mpr hlong)]
  apply returns_collect
  intro offset hoffset
  rw [List.mem_range] at hoffset
  have hrange := returns_range (Nat.le_add_right offset 4)
    (by omega : offset + 4 ≤ bytes.length)
  rw [Nat.add_sub_cancel_left] at hrange
  exact hrange.step (Returns.pure _)

/-- No byte of the magic but its first begins the magic, so it cannot straddle the
border between bytes without it and a blob that starts with it. -/
theorem magicAt_before {front blob : List UInt8} {offset : ℕ}
    (hfront : ¬ magicBytes <:+: front) (hblob : magicBytes <+: blob)
    (hoffset : offset < front.length) : magicAt (front ++ blob) offset = [] := by
  apply if_neg
  intro hwindow
  by_cases hinside : offset + 4 ≤ front.length
  · apply hfront
    rw [List.drop_append_of_le_length (by omega), List.take_append_of_le_length (by
      rw [List.length_drop]
      omega)] at hwindow
    rw [← hwindow]
    exact (List.take_prefix _ _).isInfix.trans (List.drop_suffix _ _).isInfix
  · obtain ⟨rest, rfl⟩ := hblob
    have hget : magicBytes[front.length - offset]? = some 0xAF := by
      rw [← hwindow, List.getElem?_take_of_lt (by omega), List.getElem?_drop,
        List.getElem?_append_right (by omega),
        (by omega : offset + (front.length - offset) - front.length = 0)]
      rfl
    have hgap : front.length - offset = 1 ∨ front.length - offset = 2 ∨
        front.length - offset = 3 := by omega
    rcases hgap with hgap | hgap | hgap
    all_goals
      rw [hgap] at hget
      exact absurd hget (by decide)

theorem magicOffsets_embedded {front blob : List UInt8}
    (hfront : ¬ magicBytes <:+: front) (hblob : magicBytes <+: blob) :
    ∃ later, Returns (findMagicOffsets (front ++ blob))
      (some (front.length :: later)) := by
  have hlong : 4 ≤ blob.length := hblob.length_le
  have hlonger : 4 ≤ (front ++ blob).length := by
    rw [List.length_append]
    omega
  have hreturns := returns_findMagicOffsets hlonger
  have hbefore : (List.range front.length).flatMap (magicAt (front ++ blob)) = [] := by
    rw [List.flatMap_eq_nil_iff]
    intro offset hoffset
    exact magicAt_before hfront hblob (List.mem_range.mp hoffset)
  have hhere : magicAt (front ++ blob) front.length = [front.length] := by
    apply if_pos
    rw [List.drop_left' rfl]
    exact (List.prefix_iff_eq_take.mp hblob).symm
  have hsplit : (front ++ blob).length - 4 + 1 = front.length + (blob.length - 4 + 1) := by
    rw [List.length_append]
    omega
  rw [hsplit, List.range_add, List.flatMap_append, hbefore, List.nil_append,
    List.range_succ_eq_map, List.map_cons, List.flatMap_cons, Nat.add_zero, hhere] at hreturns
  exact ⟨_, hreturns⟩

theorem returns_firstDump {front blob : List UInt8} {version : UInt32}
    {layoutFor : UInt32 → Option MetadataLayout} {dump : Dump} {later : List ℕ}
    (hlength : (front ++ blob).length < 2 ^ 64) (hversion : U32At blob 4 version)
    (hlayout : layoutFor version = some layout)
    (hdump : Returns (parseMetadata blob layout) (some dump))
    (hclasses : dump.classes ≠ []) :
    Returns (firstDump (front ++ blob) layoutFor (front.length :: later))
      (some (front.length, dump)) := by
  have hword : U32At (front ++ blob) (front.length + 4) version := by
    rw [U32At, HoldsAt, List.drop_append, List.drop_eq_nil_of_le (by omega),
      List.nil_append, Nat.add_sub_cancel_left]
    exact hversion
  have hread := readU32_of_at hlength hword
  have hblob : Returns (rangeFrom (front ++ blob) front.length) (some blob) := by
    have hrange := returns_rangeFrom
      (by simp : front.length ≤ (front ++ blob).length)
    rwa [List.drop_left' rfl] at hrange
  have hfour := hword.le_length
  apply (returns_add (by omega)).step
  simp only [hread, Option.bind_some, hlayout]
  apply hblob.step
  apply hdump.attempt.step
  have hnonempty : ¬ dump.classes.isEmpty = true := by
    rwa [List.isEmpty_iff]
  simp only [if_neg hnonempty]
  exact Returns.pure _

end Embedding

/-- The parser returns exactly the described classes in order, and the scan finds
the blob behind every front without the magic and before every tail. -/
theorem parse_described {blob : List UInt8} {layout : MetadataLayout}
    {header : MetaHeader} {images : List ImageDesc}
    (hblob : Describes blob layout header images) (hlength : blob.length < 2 ^ 64) :
    Returns (parseMetadata blob layout) (some (dumpOf images)) ∧
    ∀ (front tail : List UInt8) (version : UInt32)
      (layoutFor : UInt32 → Option MetadataLayout),
      (dumpOf images).classes ≠ [] → U32At blob 4 version →
      layoutFor version = some layout → ¬ magicBytes <:+: front →
      (front ++ blob ++ tail).length < 2 ^ 64 →
      Returns (findAndParseWithOffset (front ++ blob ++ tail) layoutFor)
        (some (front.length, dumpOf images)) := by
  apply And.intro (returns_parseMetadata hlength hblob)
  intro front tail version layoutFor hclasses hversion hlayout hfront hfits
  rw [List.append_assoc] at hfits ⊢
  have hlonger : (blob ++ tail).length < 2 ^ 64 := by
    rw [List.length_append] at hfits
    omega
  have hdump := returns_parseMetadata hlonger (hblob.append tail)
  have hmagic : magicBytes <+: blob ++ tail := (hblob.append tail).magic
  obtain ⟨later, hoffsets⟩ := magicOffsets_embedded hfront hmagic
  apply hoffsets.step
  exact returns_firstDump hfits (hversion.append tail) hlayout hdump hclasses

def sampleLayout : MetadataLayout where
  hStringOffset := 8
  hStringSize := 12
  hTypeDefsOffset := 16
  hTypeDefsSize := 20
  hFieldsOffset := 24
  hFieldsSize := 28
  hImagesOffset := 32
  hImagesSize := 36
  imageSize := 16
  imageNameIndex := 0
  imageTypeStart := 4
  imageTypeCount := 8
  typeSize := 20
  typeNameIndex := 0
  typeNamespaceIndex := 4
  typeByvalTypeIndex := 8
  typeFieldStart := 12
  typeFieldCount := 16
  fieldSize := 8
  fieldNameIndex := 0
  fieldTypeIndex := 4

/-- The blob of the source's own tests, with one field less. -/
def sampleBlob : List UInt8 :=
  [0xAF, 0x1B, 0xB1, 0xFA, 29, 0, 0, 0, 40, 0, 0, 0, 24, 0, 0, 0,
    80, 0, 0, 0, 20, 0, 0, 0, 100, 0, 0, 0, 8, 0, 0, 0, 64, 0, 0, 0, 16, 0, 0, 0] ++
  -- "Game", "Player", "health" and "mana"
  [71, 97, 109, 101, 0, 80, 108, 97, 121, 101, 114, 0,
    104, 101, 97, 108, 116, 104, 0, 109, 97, 110, 97, 0] ++
  [0, 0, 0, 0, 0, 0, 0, 0, 1, 0, 0, 0, 0, 0, 0, 0] ++
  [5, 0, 0, 0, 0, 0, 0, 0, 3, 0, 0, 0, 0, 0, 0, 0, 1, 0, 0, 0] ++
  [12, 0, 0, 0, 6, 0, 0, 0]

def sampleHeader : MetaHeader := ⟨40, 80, 100, 64, 16⟩

def sampleImages : List ImageDesc := [⟨[⟨"Game", "Player", 3, [⟨"health", 6⟩]⟩]⟩]

theorem fieldAt_sampleBlob :
    FieldAt sampleBlob sampleLayout sampleHeader 0 ⟨"health", 6⟩ where
  name := ⟨12, by decide +kernel, by decide +kernel⟩
  typeIndex := by decide +kernel

theorem typeAt_sampleBlob : TypeAt sampleBlob sampleLayout sampleHeader 0
    ⟨"Game", "Player", 3, [⟨"health", 6⟩]⟩ where
  name := ⟨5, by decide +kernel, by decide +kernel⟩
  «namespace» := ⟨0, by decide +kernel, by decide +kernel⟩
  byvalTypeIndex := by decide +kernel
  fields := by
    refine ⟨0, by decide +kernel, fun _ => by decide, ?_⟩
    intro idx hidx
    cases Nat.lt_one_iff.mp hidx
    exact fieldAt_sampleBlob
  fieldCount := ⟨1, rfl, by decide +kernel⟩

theorem describes_sampleBlob :
    Describes sampleBlob sampleLayout sampleHeader sampleImages where
  magic := by decide +kernel
  stringOffset := by decide +kernel
  typeDefsOffset := by decide +kernel
  fieldsOffset := by decide +kernel
  imagesOffset := by decide +kernel
  imagesSize := by decide +kernel
  string_lt := by decide
  typeDefs_lt := by decide
  fields_lt := by decide
  images_lt := by decide
  imagesSize_eq := rfl
  imagesSize_pos := by decide
  images_le := by decide
  images := by
    intro idx hidx
    cases Nat.lt_one_iff.mp hidx
    refine ⟨⟨0, by decide +kernel, fun _ => by decide, ?_⟩, ⟨1, rfl, by decide +kernel⟩⟩
    intro idx hidx
    cases Nat.lt_one_iff.mp hidx
    exact typeAt_sampleBlob

theorem parse_embedded_sampleBlob :
    Returns (parseMetadata sampleBlob sampleLayout) (some (dumpOf sampleImages)) ∧
    Returns (findAndParseWithOffset ([0xAF, 0x1B] ++ sampleBlob ++ [0])
        fun version => if version = 29 then some sampleLayout else none)
      (some (2, dumpOf sampleImages)) := by
  have hparse := parse_described describes_sampleBlob (by decide)
  apply And.intro hparse.1
  exact hparse.2 [0xAF, 0x1B] [0] 29 _ (by decide) (by decide +kernel) rfl
    (by decide) (by decide)

end FrogAgent.Metadata
