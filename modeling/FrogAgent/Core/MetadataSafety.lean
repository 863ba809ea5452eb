import FrogAgent.Core.MetadataLayouts
import FrogAgent.Core.MetadataParse
import Mathlib.Data.List.Forall2

/-!
# The metadata parser on arbitrary bytes

Whatever a slice holds, no header word, count or start index makes the parser overflow
or leave the slice: the counts are 32-bit words, the start indices are below `2 ^ 31`,
and records are at most `2 ^ 8` bytes.  The names it returns are decoded from the slice.
-/

namespace FrogAgent.Metadata

open FrogAgent.PackedArg
open FrogAgent.Slice

/-- The lossy decoding of a subslice of the input. -/
def Decodes (bytes : List UInt8) (text : String) : Prop :=
  ∃ part, part <:+: bytes ∧ text = fromUtf8Lossy part

/-- The namespace, the name and every field name of a class. -/
def NamesDecode (bytes : List UInt8) (cls : DumpedClass) : Prop :=
  Decodes bytes cls.namespace ∧ Decodes bytes cls.name ∧
    ∀ field ∈ cls.fields, Decodes bytes field.name

/-- The `type_count` word of an image, zero if it cannot be read. -/
def imageTypeCountOf (bytes : List UInt8) (layout : MetadataLayout) (header : MetaHeader)
    (idx : ℕ) : ℕ :=
  ((readU32 bytes (header.imagesOffset.toNat + idx * layout.imageSize +
    layout.imageTypeCount)).getD 0).toNat

/-- The names of the dump come from the input, and the dump is put together from the
images, each with at most as many classes as its `type_count`. -/
structure Sound (bytes : List UInt8) (layout : MetadataLayout) (dump : Dump) : Prop where
  names : ∀ cls ∈ dump.classes, NamesDecode bytes cls
  images : ∃ header parts, parseHeader bytes layout = some header ∧
    dump.classes = parts.flatten ∧
    List.Forall₂ (fun idx part => part.length ≤ imageTypeCountOf bytes layout header idx)
      (List.range (header.imagesSize.toNat / max layout.imageSize 1)) parts

theorem safe_readCstr (bytes : List UInt8) (pos : ℕ) :
    Safe (readCstr bytes pos) (Decodes bytes) := by
  rw [readCstr]
  split
  case isTrue => exact Safe.pure ⟨[], List.nil_infix, rfl⟩
  case isFalse hpos =>
    have hwhile : ((bytes.drop pos).takeWhile (· ≠ 0)).length ≤ (bytes.drop pos).length :=
      (List.takeWhile_prefix _).length_le
    rw [List.length_drop] at hwhile
    apply (returns_range (Nat.le_add_right pos _) (by omega)).stepSafe
    apply Safe.pure
    exact ⟨_, (List.take_prefix _ _).isInfix.trans (List.drop_suffix _ _).isInfix, rfl⟩

section Records

variable {bytes : List UInt8} {layout : MetadataLayout} {header : MetaHeader}

theorem safe_readName (bytes : List UInt8) (header : MetaHeader) (idx : UInt32) :
    Safe (readName bytes header idx) (Decodes bytes) :=
  safe_readCstr bytes _

/-- No record of a table starts beyond `2 ^ 49`. -/
theorem record_lt (base : UInt32) {index size : ℕ} (hindex : index < 2 ^ 40)
    (hsize : size ≤ 2 ^ 8) : base.toNat + index * size < 2 ^ 49 := by
  have hbase := base.toNat_lt
  have hproduct : index * size ≤ 2 ^ 40 * 2 ^ 8 :=
    Nat.mul_le_mul (Nat.le_of_lt hindex) hsize
  omega

theorem safe_parseField (hsmall : layout.Small) {start idx : ℕ}
    (hindex : start + idx < 2 ^ 40) :
    Safe (parseField bytes layout header start idx) fun output =>
      ∀ field ∈ output, Decodes bytes field.name := by
  have hrecord := record_lt header.fieldsOffset hindex hsmall.fieldSize
  have hname := hsmall.fieldNameIndex
  have htype := hsmall.fieldTypeIndex
  apply (returns_recordFrom (by omega) (by omega)).stepSafe
  apply (returns_add (by omega)).stepSafe
  split
  case h_1 => exact Safe.pure nofun
  case h_2 nameIdx _ =>
    apply (returns_add (by omega)).stepSafe
    apply (safe_readName bytes header nameIdx).bind
    intro name hdecodes
    apply Safe.pure
    intro field hfield
    rw [List.mem_singleton] at hfield
    rw [hfield]
    exact hdecodes

theorem toNat_lt_of_toInt {word : UInt32} (hnonneg : 0 ≤ word.toBitVec.toInt) :
    word.toBitVec.toInt.toNat < 2 ^ 31 := by
  have hlt := BitVec.toInt_lt (x := word.toBitVec)
  omega

/-- A start index read from the slice, or the `-1` that stands for none. -/
theorem readI32_getD_lt (bytes : List UInt8) (pos : ℕ)
    (hnonneg : 0 ≤ (readI32 bytes pos).getD (-1)) :
    ((readI32 bytes pos).getD (-1)).toNat < 2 ^ 31 := by
  rw [readI32] at hnonneg ⊢
  cases hword : readU32 bytes pos with
  | none =>
      rw [hword] at hnonneg
      contradiction
  | some word =>
      rw [hword] at hnonneg
      exact toNat_lt_of_toInt hnonneg

theorem safe_parseFields (hsmall : layout.Small) (pos : ℕ) (count : UInt16) :
    Safe (parseFields bytes layout header ((readI32 bytes pos).getD (-1)) count)
      fun output => ∀ field ∈ output, Decodes bytes field.name := by
  rw [parseFields]
  split
  case isTrue hnonneg =>
    have hstart := readI32_getD_lt bytes pos hnonneg
    have hloop : Safe
        (collect (List.range count.toNat)
          (parseField bytes layout header ((readI32 bytes pos).getD (-1)).toNat))
        fun output => ∃ parts, output = parts.flatten ∧
          List.Forall₂ (fun _ part => ∀ field ∈ part, Decodes bytes field.name)
            (List.range count.toNat) parts := by
      apply Safe.collect
      intro idx hidx
      have hcount := count.toNat_lt
      have hlt := List.mem_range.mp hidx
      exact safe_parseField hsmall (by omega)
    apply hloop.mono
    rintro _ ⟨parts, rfl, hparts⟩
    exact forall_mem_flatten hparts
  case isFalse => exact Safe.pure nofun

theorem safe_parseType (hsmall : layout.Small) {start idx : ℕ}
    (hindex : start + idx < 2 ^ 40) :
    Safe (parseType bytes layout header start idx) fun output =>
      output.length ≤ 1 ∧ ∀ cls ∈ output, NamesDecode bytes cls := by
  have hrecord := record_lt header.typeDefsOffset hindex hsmall.typeSize
  have hname := hsmall.typeNameIndex
  have hnamespace := hsmall.typeNamespaceIndex
  have hbyval := hsmall.typeByvalTypeIndex
  have hstart := hsmall.typeFieldStart
  have hcount := hsmall.typeFieldCount
  apply (returns_recordFrom (by omega) (by omega)).stepSafe
  apply (returns_add (by omega)).stepSafe
  split
  case h_1 => exact Safe.pure ⟨Nat.zero_le _, nofun⟩
  case h_2 nameIdx _ =>
    apply (returns_add (by omega)).stepSafe
    apply (returns_add (by omega)).stepSafe
    apply (returns_add (by omega)).stepSafe
    apply (returns_add (by omega)).stepSafe
    apply (safe_parseFields hsmall _ _).bind
    intro fields hfields
    apply (safe_readName bytes header _).bind
    intro «namespace» hspace
    apply (safe_readName bytes header nameIdx).bind
    intro name hdecodes
    apply Safe.pure
    apply And.intro (Nat.le_refl 1)
    intro cls hcls
    rw [List.mem_singleton] at hcls
    rw [hcls]
    exact ⟨hspace, hdecodes, hfields⟩

/-- The type loop of one image. -/
theorem safe_parseTypes (hsmall : layout.Small) {start : ℕ} (hstart : start < 2 ^ 31)
    (count : UInt32) :
    Safe (collect (List.range count.toNat) (parseType bytes layout header start))
      fun output => output.length ≤ count.toNat ∧
        ∀ cls ∈ output, NamesDecode bytes cls := by
  have hloop : Safe (collect (List.range count.toNat) (parseType bytes layout header start))
      fun output => ∃ parts, output = parts.flatten ∧
        List.Forall₂
          (fun _ part => part.length ≤ 1 ∧ ∀ cls ∈ part, NamesDecode bytes cls)
          (List.range count.toNat) parts := by
    apply Safe.collect
    intro idx hidx
    have hcount := count.toNat_lt
    have hlt := List.mem_range.mp hidx
    exact safe_parseType hsmall (by omega)
  apply hloop.mono
  rintro _ ⟨parts, rfl, hparts⟩
  have hlength := length_flatten_le (hparts.imp fun _ _ hpart => hpart.1)
  rw [List.length_range] at hlength
  exact ⟨hlength, forall_mem_flatten (hparts.imp fun _ _ hpart => hpart.2)⟩

theorem safe_parseImage (hsmall : layout.Small) {idx : ℕ} (hidx : idx < 2 ^ 40) :
    Safe (parseImage bytes layout header idx) fun output =>
      output.length ≤ imageTypeCountOf bytes layout header idx ∧
        ∀ cls ∈ output, NamesDecode bytes cls := by
  have hrecord := record_lt header.imagesOffset hidx hsmall.imageSize
  have hstart := hsmall.imageTypeStart
  have hcount := hsmall.imageTypeCount
  apply (returns_recordAt (by omega)).stepSafe
  apply (returns_add (by omega)).stepSafe
  cases hword : readU32 bytes (header.imagesOffset.toNat + idx * layout.imageSize +
      layout.imageTypeStart) with
  | none =>
      rw [readI32, hword]
      exact Safe.pure ⟨Nat.zero_le _, List.forall_mem_nil _⟩
  | some word =>
      rw [readI32, hword]
      dsimp only [Option.map_some]
      split
      case isTrue hnonneg =>
        apply (returns_add (by omega)).stepSafe
        exact safe_parseTypes hsmall (toNat_lt_of_toInt hnonneg) _
      case isFalse => exact Safe.pure ⟨Nat.zero_le _, List.forall_mem_nil _⟩

theorem safe_parseMetadata (hsmall : layout.Small) :
    Safe (parseMetadata bytes layout) (Sound bytes layout) := by
  rw [parseMetadata]
  cases hheader : parseHeader bytes layout with
  | none =>
      have hnone : Safe (lift (none : Option MetaHeader)) fun _ => False :=
        (Returns.lift none).safe fun _ hmem => absurd hmem (Option.not_mem_none _)
      exact hnone.bind fun _ hfalse => hfalse.elim
  | some header =>
      apply (Returns.lift (some header)).stepSafe
      split
      case isTrue =>
        have hloop : Safe
            (collect (List.range (header.imagesSize.toNat / max layout.imageSize 1))
              (parseImage bytes layout header))
            fun output => ∃ parts, output = parts.flatten ∧
              List.Forall₂
                (fun idx part => part.length ≤ imageTypeCountOf bytes layout header idx ∧
                  ∀ cls ∈ part, NamesDecode bytes cls)
                (List.range (header.imagesSize.toNat / max layout.imageSize 1)) parts := by
          apply Safe.collect
          intro idx hidx
          have hsize := header.imagesSize.toNat_lt
          have hdiv : header.imagesSize.toNat / max layout.imageSize 1 ≤
              header.imagesSize.toNat := Nat.div_le_self _ _
          have hlt := List.mem_range.mp hidx
          exact safe_parseImage hsmall (by omega)
        apply hloop.bind
        rintro _ ⟨parts, rfl, hparts⟩
        apply Safe.pure
        exact {
          names := forall_mem_flatten (hparts.imp fun _ _ hpart => hpart.2)
          images := ⟨header, parts, hheader, rfl, hparts.imp fun _ _ hpart => hpart.1⟩ }
      case isFalse => exact Safe.failure _

end Records

section Search

variable {bytes : List UInt8} {layoutFor : UInt32 → Option MetadataLayout}

theorem findMagicOffsets_fits (bytes : List UInt8) :
    ∃ offsets, Returns (findMagicOffsets bytes) (some offsets) ∧
      ∀ offset ∈ offsets, offset + 4 ≤ bytes.length := by
  by_cases hlong : 4 ≤ bytes.length
  case neg =>
    rw [findMagicOffsets, if_pos (Nat.lt_of_not_le hlong)]
    exact ⟨[], Returns.pure _, List.forall_mem_nil _⟩
  case pos =>
    refine ⟨_, returns_findMagicOffsets hlong, ?_⟩
    intro offset hoffset
    rw [List.mem_flatMap] at hoffset
    obtain ⟨place, hplace, hmagic⟩ := hoffset
    rw [List.mem_range] at hplace
    rw [magicAt] at hmagic
    split at hmagic
    · rw [List.mem_singleton] at hmagic
      omega
    · contradiction

/-- A found dump is sound for the blob it was found in. -/
def SoundAt (bytes : List UInt8) (layoutFor : UInt32 → Option MetadataLayout)
    (found : ℕ × Dump) : Prop :=
  ∃ version layout, layoutFor version = some layout ∧
    Sound (bytes.drop found.1) layout found.2

theorem safe_firstDump (hlength : bytes.length < 2 ^ 64)
    (hsmall : ∀ version layout, layoutFor version = some layout → layout.Small)
    {offsets : List ℕ} (hoffsets : ∀ offset ∈ offsets, offset + 4 ≤ bytes.length) :
    Safe (firstDump bytes layoutFor offsets) (SoundAt bytes layoutFor) := by
  induction offsets with
  | nil => exact Safe.failure _
  | cons offset offsets ih =>
      have hfits := hoffsets offset List.mem_cons_self
      have hrest := ih fun other hother => hoffsets other (List.mem_cons_of_mem _ hother)
      rw [firstDump]
      apply (returns_add (by omega)).stepSafe
      cases hlayout : (readU32 bytes (offset + 4)).bind layoutFor with
      | none => exact hrest
      | some layout =>
          obtain ⟨version, -, hversion⟩ := Option.bind_eq_some_iff.mp hlayout
          apply (returns_rangeFrom (by omega)).stepSafe
          apply (safe_parseMetadata (hsmall version layout hversion)).attempt.bind
          intro answer hanswer
          cases answer with
          | none => exact hrest
          | some dump =>
              dsimp only
              split
              case isTrue => exact hrest
              case isFalse => exact Safe.pure ⟨version, layout, hversion, hanswer dump rfl⟩

theorem safe_findAndParse (hlength : bytes.length < 2 ^ 64)
    (hsmall : ∀ version layout, layoutFor version = some layout → layout.Small) :
    Safe (findAndParseWithOffset bytes layoutFor) (SoundAt bytes layoutFor) := by
  obtain ⟨offsets, hreturns, hoffsets⟩ := findMagicOffsets_fits bytes
  exact hreturns.stepSafe (safe_firstDump hlength hsmall hoffsets)

end Search

/-- On every slice and with every computed layout the parser and both searches end
without a panic, and what they return is sound. -/
theorem parse_safe {bytes : List UInt8} (hlength : bytes.length < 2 ^ 64) :
    (∀ version layout, computeLayout version = some layout →
      Safe (parseMetadata bytes layout) (Sound bytes layout)) ∧
    (∃ offsets, Returns (findMagicOffsets bytes) (some offsets)) ∧
    ∀ layoutFor : UInt32 → Option MetadataLayout,
      (∀ version layout, layoutFor version = some layout →
        ∃ computed, computeLayout computed = some layout) →
      Safe (findAndParseWithOffset bytes layoutFor) (SoundAt bytes layoutFor) := by
  refine ⟨?_, ?_, ?_⟩
  · intro version layout hlayout
    exact safe_parseMetadata (small_of_computeLayout hlayout)
  · obtain ⟨offsets, hreturns, -⟩ := findMagicOffsets_fits bytes
    exact ⟨offsets, hreturns⟩
  · intro layoutFor hcomputed
    apply safe_findAndParse hlength
    intro version layout hlayout
    obtain ⟨computed, hcompute⟩ := hcomputed version layout hlayout
    exact small_of_computeLayout hcompute

/-- Behind the version every word is `0x80`: the tables overlap, every count is 128 and
most records lie outside the slice. -/
def garbageBlob : List UInt8 :=
  [0xAF, 0x1B, 0xB1, 0xFA, 29, 0, 0, 0] ++ (List.replicate 75 [0x80, 0, 0, 0]).flatten

theorem parse_safe_garbageBlob :
    Safe (findAndParseWithOffset garbageBlob computeLayout)
      (SoundAt garbageBlob computeLayout) := by
  have hlength : garbageBlob.length < 2 ^ 64 := by decide +kernel
  apply (parse_safe hlength).2.2
  intro version layout hlayout
  exact ⟨version, hlayout⟩

end FrogAgent.Metadata
