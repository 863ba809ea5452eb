import FrogAgent.Core.PackedArg
import FrogAgent.Lib.Slice

/-!
# Global metadata

The parser of `metadata.rs` for a decrypted `global-metadata` blob: a header with
table offsets, image, type and field records of a version-dependent layout, and a
heap of NUL-terminated names; and the scan that finds such a blob inside a larger
region.  Unchecked `usize` arithmetic and slicing are checked here.
-/

namespace FrogAgent.Metadata

open FrogAgent.LittleEndian
open FrogAgent.PackedArg
open FrogAgent.Slice

/-- `Il2CppGlobalMetadataHeader.sanity` -/
def metadataMagic : UInt32 := 0xFAB11BAF

/-- Byte layout for one metadata version: `h…` are positions within the header,
`…Size` are record sizes, the rest are offsets within their record. -/
structure MetadataLayout where
  hStringOffset : ℕ
  hStringSize : ℕ
  hTypeDefsOffset : ℕ
  hTypeDefsSize : ℕ
  hFieldsOffset : ℕ
  hFieldsSize : ℕ
  hImagesOffset : ℕ
  hImagesSize : ℕ
  imageSize : ℕ
  imageNameIndex : ℕ
  imageTypeStart : ℕ
  imageTypeCount : ℕ
  typeSize : ℕ
  typeNameIndex : ℕ
  typeNamespaceIndex : ℕ
  typeByvalTypeIndex : ℕ
  typeFieldStart : ℕ
  typeFieldCount : ℕ
  fieldSize : ℕ
  fieldNameIndex : ℕ
  fieldTypeIndex : ℕ

structure DumpedField where
  name : String
  typeName : String
  typeIndex : Option UInt32
  deriving DecidableEq

structure DumpedClass where
  «namespace» : String
  name : String
  fields : List DumpedField
  methods : List String
  typeIndex : UInt32
  deriving DecidableEq

structure Dump where
  classes : List DumpedClass
  deriving DecidableEq

/-- `bytes.get(pos..pos.checked_add(width)?)` -/
def getBytes (bytes : List UInt8) (pos width : ℕ) : Option (List UInt8) :=
  if pos + width < 2 ^ 64 ∧ pos + width ≤ bytes.length then
    some ((bytes.drop pos).take width)
  else none

def readU32 (bytes : List UInt8) (pos : ℕ) : Option UInt32 :=
  (getBytes bytes pos 4).map fun word => UInt32.ofNat (leValue word)

def readI32 (bytes : List UInt8) (pos : ℕ) : Option ℤ :=
  (readU32 bytes pos).map fun word => word.toBitVec.toInt

def readU16 (bytes : List UInt8) (pos : ℕ) : Option UInt16 :=
  (getBytes bytes pos 2).map fun word => UInt16.ofNat (leValue word)

def readCstr (bytes : List UInt8) (pos : ℕ) : Checked String :=
  if bytes.length ≤ pos then return ""
  else do
    let stop := pos + ((bytes.drop pos).takeWhile (· ≠ 0)).length
    let text ← range bytes pos stop
    return fromUtf8Lossy text

structure MetaHeader where
  stringOffset : UInt32
  typeDefsOffset : UInt32
  fieldsOffset : UInt32
  imagesOffset : UInt32
  imagesSize : UInt32

def parseHeader (bytes : List UInt8) (layout : MetadataLayout) : Option MetaHeader := do
  if (← readU32 bytes 0) ≠ metadataMagic then none
  else
    return {
      stringOffset := ← readU32 bytes layout.hStringOffset
      typeDefsOffset := ← readU32 bytes layout.hTypeDefsOffset
      fieldsOffset := ← readU32 bytes layout.hFieldsOffset
      imagesOffset := ← readU32 bytes layout.hImagesOffset
      imagesSize := ← readU32 bytes layout.hImagesSize }

/-- A header whose tables lie outside the blob is not one. -/
def MetaHeader.inBounds (header : MetaHeader) (length : ℕ) : Bool :=
  header.stringOffset.toNat < length && header.typeDefsOffset.toNat < length &&
    header.fieldsOffset.toNat < length && header.imagesOffset.toNat < length &&
    header.imagesSize ≠ 0 &&
    min (header.imagesOffset.toNat + header.imagesSize.toNat) (2 ^ 64 - 1) ≤ length

/-- `string_base.wrapping_add(idx as usize)` -/
def readName (bytes : List UInt8) (header : MetaHeader) (idx : UInt32) :
    Checked String :=
  readCstr bytes ((header.stringOffset.toNat + idx.toNat) % 2 ^ 64)

/-- `base + index * size` -/
def recordAt (base : UInt32) (index size : ℕ) : Checked ℕ := do
  let offset ← mul index size
  add base.toNat offset

/-- The record `start + idx` of a table. -/
def recordFrom (base : UInt32) (start idx size : ℕ) : Checked ℕ := do
  let index ← add start idx
  recordAt base index size

/-- One round of the field loop. -/
def parseField (bytes : List UInt8) (layout : MetadataLayout) (header : MetaHeader)
    (start idx : ℕ) : Checked (List DumpedField) := do
  let fdef ← recordFrom header.fieldsOffset start idx layout.fieldSize
  let nameAt ← add fdef layout.fieldNameIndex
  match readU32 bytes nameAt with
  | none => return []
  | some nameIdx => do
      let typeAt ← add fdef layout.fieldTypeIndex
      let name ← readName bytes header nameIdx
      return [⟨name, "", readU32 bytes typeAt⟩]

def parseFields (bytes : List UInt8) (layout : MetadataLayout) (header : MetaHeader)
    (start : ℤ) (count : UInt16) : Checked (List DumpedField) :=
  if 0 ≤ start then
    collect (List.range count.toNat) (parseField bytes layout header start.toNat)
  else return []

/-- One round of the type loop. -/
def parseType (bytes : List UInt8) (layout : MetadataLayout) (header : MetaHeader)
    (start idx : ℕ) : Checked (List DumpedClass) := do
  let tdef ← recordFrom header.typeDefsOffset start idx layout.typeSize
  let nameAt ← add tdef layout.typeNameIndex
  match readU32 bytes nameAt with
  | none => return []
  | some nameIdx => do
      let namespaceAt ← add tdef layout.typeNamespaceIndex
      let byvalAt ← add tdef layout.typeByvalTypeIndex
      let startAt ← add tdef layout.typeFieldStart
      let countAt ← add tdef layout.typeFieldCount
      let fields ← parseFields bytes layout header
        ((readI32 bytes startAt).getD (-1)) ((readU16 bytes countAt).getD 0)
      let «namespace» ← readName bytes header ((readU32 bytes namespaceAt).getD 0)
      let name ← readName bytes header nameIdx
      return [⟨«namespace», name, fields, [], (readU32 bytes byvalAt).getD 0⟩]

/-- One round of the image loop. -/
def parseImage (bytes : List UInt8) (layout : MetadataLayout) (header : MetaHeader)
    (idx : ℕ) : Checked (List DumpedClass) := do
  let img ← recordAt header.imagesOffset idx layout.imageSize
  let startAt ← add img layout.imageTypeStart
  match readI32 bytes startAt with
  | none => return []
  | some start =>
      if 0 ≤ start then do
        let countAt ← add img layout.imageTypeCount
        let typeCount := (readU32 bytes countAt).getD 0
        collect (List.range typeCount.toNat) (parseType bytes layout header start.toNat)
      else return []

def parseMetadata (bytes : List UInt8) (layout : MetadataLayout) : Checked Dump := do
  let header ← lift (parseHeader bytes layout)
  if header.inBounds bytes.length then
    let numImages := header.imagesSize.toNat / max layout.imageSize 1
    let classes ← collect (List.range numImages) (parseImage bytes layout header)
    return ⟨classes⟩
  else failure

def magicBytes : List UInt8 := leBytes 4 metadataMagic.toNat

def findMagicOffsets (bytes : List UInt8) : Checked (List ℕ) :=
  if bytes.length < 4 then return []
  else
    collect (List.range (bytes.length - 4 + 1)) fun offset => do
      let window ← range bytes offset (offset + 4)
      return if window = magicBytes then [offset] else []

/-- The candidates in turn; the first with a non-empty dump is the answer. -/
def firstDump (bytes : List UInt8) (layoutFor : UInt32 → Option MetadataLayout) :
    List ℕ → Checked (ℕ × Dump)
  | [] => failure
  | offset :: offsets => do
      let versionAt ← add offset 4
      match (readU32 bytes versionAt).bind layoutFor with
      | none => firstDump bytes layoutFor offsets
      | some layout => do
          let blob ← rangeFrom bytes offset
          match ← attempt (parseMetadata blob layout) with
          | some dump =>
              if dump.classes.isEmpty then firstDump bytes layoutFor offsets
              else return (offset, dump)
          | none => firstDump bytes layoutFor offsets

def findAndParseWithOffset (bytes : List UInt8)
    (layoutFor : UInt32 → Option MetadataLayout) : Checked (ℕ × Dump) := do
  let offsets ← findMagicOffsets bytes
  firstDump bytes layoutFor offsets

end FrogAgent.Metadata
