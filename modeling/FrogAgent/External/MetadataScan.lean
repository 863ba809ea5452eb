import FrogAgent.Core.MetadataSafety
import FrogAgent.External.RegionMap
import FrogAgent.Lib.Lowest

/-!
# The scan for the metadata

`scan_process_for_metadata` of `external/scan.rs` walks the address space and tries the parser
on every readable region.  It answers the blob at the lowest address at which one parses, with
the version it was parsed as and the number of its type definitions, and `None` exactly if
there is no such address.
-/

namespace FrogAgent.MetadataScan

open FrogAgent.ByteMemory
open FrogAgent.LittleEndian
open FrogAgent.Lowest
open FrogAgent.Metadata
open FrogAgent.RegionMap
open FrogAgent.Slice
open FrogAgent.VirtualMemory

structure MetadataResult where
  dump : Dump
  blobAddr : ℕ
  version : UInt32
  typeCount : UInt32
  deriving DecidableEq

/-- The division by a size that is a multiple of `2 ^ 32` would be a panic. -/
def computeTypeCount (bytes : List UInt8) (layout : MetadataLayout) : Checked UInt32 := do
  let _ ← lift (parseHeader bytes layout)
  let typeDefsSize ← lift (readU32 bytes layout.hTypeDefsSize)
  if layout.typeSize = 0 then failure
  else if UInt32.ofNat layout.typeSize = 0 then fault .overflow
  else
    let count := typeDefsSize / UInt32.ofNat layout.typeSize
    if count = 0 then failure else return count

/-- The word behind the magic of a blob that was found. -/
def versionAt (slice : List UInt8) (offset : ℕ) : Checked UInt32 := do
  let behind ← add offset 8
  if behind ≤ slice.length then do
    let word ← range slice (offset + 4) behind
    return UInt32.ofNat (leValue word)
  else return 0

def typeCountAt (slice : List UInt8) (offset : ℕ) (version : UInt32) : Checked UInt32 :=
  match computeLayout version with
  | none => return 0
  | some layout => do
      let blob ← rangeFrom slice offset
      let count ← attempt (computeTypeCount blob layout)
      return count.getD 0

/-- One round: what the region holds. -/
def scanRegion (memory : Memory UInt8) (mbi : MemoryBasicInformation) :
    Checked (Option MetadataResult) :=
  if recorded mbi then do
    let slice := load memory mbi.baseAddress mbi.regionSize
    match ← attempt (findAndParseWithOffset slice computeLayout) with
    | none => return none
    | some (offset, dump) => do
        let blobAddr ← add mbi.baseAddress offset
        let version ← versionAt slice offset
        let typeCount ← typeCountAt slice offset version
        return some ⟨dump, blobAddr, version, typeCount⟩
  else return none

def scanFrom (virtualQuery : ℕ → Option MemoryBasicInformation) (memory : Memory UInt8)
    (addr : ℕ) : Checked MetadataResult :=
  match virtualQuery addr with
  | none => failure
  | some mbi => do
      match ← scanRegion memory mbi with
      | some result => return result
      | none =>
          if saturatingAdd mbi.baseAddress mbi.regionSize ≤ addr then failure
          else scanFrom virtualQuery memory (saturatingAdd mbi.baseAddress mbi.regionSize)
termination_by 2 ^ 64 - addr
decreasing_by
  have hlimit : saturatingAdd mbi.baseAddress mbi.regionSize ≤ 2 ^ 64 - 1 :=
    Nat.min_le_right _ _
  omega

def scanProcessForMetadata (virtualQuery : ℕ → Option MemoryBasicInformation)
    (memory : Memory UInt8) : Checked MetadataResult :=
  scanFrom virtualQuery memory 0

def probeMetadataVersion (virtualQuery : ℕ → Option MemoryBasicInformation)
    (memory : Memory UInt8) : Checked UInt32 := do
  let result ← scanProcessForMetadata virtualQuery memory
  return result.version

/-! ## Blobs -/

/-- The bytes start with a blob that parses, up to their end, into some classes. -/
structure Parses (bytes : List UInt8) (version : UInt32) (layout : MetadataLayout)
    (dump : Dump) : Prop where
  magic : bytes.take 4 = magicBytes
  word : readU32 bytes 4 = some version
  known : computeLayout version = some layout
  parsed : Returns (parseMetadata bytes layout) (some dump)
  classes : dump.classes ≠ []

/-- The type definitions that the header announces. -/
def typeDefsCount (bytes : List UInt8) (layout : MetadataLayout) : UInt32 :=
  (readU32 bytes layout.hTypeDefsSize).getD 0 / UInt32.ofNat layout.typeSize

/-- A blob at an address, read up to the end of its readable region. -/
def BlobAt (layout : Layout) (memory : Memory UInt8) (address : ℕ)
    (result : MetadataResult) : Prop :=
  ∃ tile metadataLayout, layout.IsTile tile ∧ tile.Readable ∧ tile.start ≤ address ∧
    address < tile.stop ∧
    Parses (load memory address (tile.stop - address)) result.version metadataLayout
      result.dump ∧
    result.blobAddr = address ∧
    result.typeCount =
      typeDefsCount (load memory address (tile.stop - address)) metadataLayout

/-! ## In one region -/

section Region

variable {bytes : List UInt8} {version : UInt32} {layout : MetadataLayout} {dump : Dump}

theorem returns_unique {α : Type} {code : Checked α} {first second : Option α}
    (hfirst : Returns code first) (hsecond : Returns code second) : first = second :=
  Except.ok.inj (hfirst.symm.trans hsecond)

theorem readU32_drop {offset : ℕ} (hlength : bytes.length < 2 ^ 64)
    (hoffset : offset ≤ bytes.length) (place : ℕ) (hplace : place < 2 ^ 32) :
    readU32 (bytes.drop offset) place = readU32 bytes (offset + place) := by
  have hfits : (place + 4 < 2 ^ 64 ∧ place + 4 ≤ (bytes.drop offset).length) ↔
      (offset + place + 4 < 2 ^ 64 ∧ offset + place + 4 ≤ bytes.length) := by
    rw [List.length_drop]
    omega
  rw [readU32, readU32, getBytes, getBytes, List.drop_drop]
  by_cases hinside : place + 4 < 2 ^ 64 ∧ place + 4 ≤ (bytes.drop offset).length
  · rw [if_pos hinside, if_pos (hfits.mp hinside)]
  · rw [if_neg hinside, if_neg (mt hfits.mpr hinside)]

theorem Parses.long (hparses : Parses bytes version layout dump) : 8 ≤ bytes.length := by
  have hversion := hparses.word
  rw [readU32, Option.map_eq_some_iff] at hversion
  obtain ⟨word, hword, -⟩ := hversion
  rw [getBytes, Option.ite_none_right_eq_some] at hword
  exact hword.1.2

theorem Parses.unique {otherVersion : UInt32} {otherLayout : MetadataLayout} {other : Dump}
    (hparses : Parses bytes version layout dump)
    (hother : Parses bytes otherVersion otherLayout other) :
    version = otherVersion ∧ layout = otherLayout ∧ dump = other := by
  have hversion : version = otherVersion :=
    Option.some.inj (hparses.word.symm.trans hother.word)
  subst hversion
  have hlayout : layout = otherLayout :=
    Option.some.inj (hparses.known.symm.trans hother.known)
  subst hlayout
  exact ⟨rfl, rfl, Option.some.inj (returns_unique hparses.parsed hother.parsed)⟩

/-- One candidate: it is the answer, or the search goes on. -/
theorem firstDump_cons (hlength : bytes.length < 2 ^ 64) {offset : ℕ}
    (hfits : offset + 4 ≤ bytes.length) (hmagic : (bytes.drop offset).take 4 = magicBytes)
    {offsets : List ℕ} {answer : Option (ℕ × Dump)}
    (hrest : Returns (firstDump bytes computeLayout offsets) answer) :
    (∃ version layout dump, Parses (bytes.drop offset) version layout dump ∧
      Returns (firstDump bytes computeLayout (offset :: offsets)) (some (offset, dump))) ∨
    (∀ version layout dump, ¬ Parses (bytes.drop offset) version layout dump) ∧
      Returns (firstDump bytes computeLayout (offset :: offsets)) answer := by
  have hword := readU32_drop hlength (by omega : offset ≤ bytes.length) 4 (by decide)
  have hadd : Returns (add offset 4) (some (offset + 4)) := returns_add (by omega)
  rw [firstDump]
  cases hlayout : (readU32 bytes (offset + 4)).bind computeLayout with
  | none =>
      refine .inr ⟨fun version layout dump hparses => ?_, hadd.step ?_⟩
      · rw [← hword, hparses.word, Option.bind_some, hparses.known] at hlayout
        contradiction
      · simp only [hlayout]
        exact hrest
  | some layout =>
      obtain ⟨version, hversion, hknown⟩ := Option.bind_eq_some_iff.mp hlayout
      have hblob : Returns (rangeFrom bytes offset) (some (bytes.drop offset)) :=
        returns_rangeFrom (by omega)
      obtain ⟨parsed, hparsed, -⟩ := @safe_parseMetadata (bytes.drop offset) layout
        (small_of_computeLayout hknown)
      have honly : ∀ other otherLayout dump, Parses (bytes.drop offset) other otherLayout dump →
          parsed = some dump := by
        intro other otherLayout dump hparses
        have hsame := hparses.word.symm.trans (hword.trans hversion)
        cases hsame
        cases hparses.known.symm.trans hknown
        exact returns_unique hparsed hparses.parsed
      cases parsed with
      | none =>
          refine .inr ⟨fun other otherLayout dump hparses => ?_, hadd.step ?_⟩
          · exact absurd (honly other otherLayout dump hparses) (Option.some_ne_none dump).symm
          · simp only [hlayout]
            exact hblob.step (hparsed.attempt.step hrest)
      | some dump =>
          by_cases hempty : dump.classes = []
          · refine .inr ⟨fun other otherLayout _ hparses => ?_, hadd.step ?_⟩
            · cases honly other otherLayout _ hparses
              exact hparses.classes hempty
            · simp only [hlayout]
              refine hblob.step (hparsed.attempt.step ?_)
              simp only [List.isEmpty_iff.mpr hempty, if_true]
              exact hrest
          · refine .inl ⟨version, layout, dump,
              ⟨hmagic, hword.trans hversion, hknown, hparsed, hempty⟩, hadd.step ?_⟩
            simp only [hlayout]
            refine hblob.step (hparsed.attempt.step ?_)
            simp only [if_neg (mt List.isEmpty_iff.mp hempty)]
            exact Returns.pure _

/-- What the search through a slice is after. -/
def DumpAt (bytes : List UInt8) (offset : ℕ) (found : ℕ × Dump) : Prop :=
  found.1 = offset ∧ ∃ version layout, Parses (bytes.drop offset) version layout found.2

/-- The candidates from `start` on: the lowest that parses is the answer. -/
theorem firstDump_lowest (hlength : bytes.length < 2 ^ 64) {start count : ℕ}
    (hfits : start + count + 3 ≤ bytes.length) :
    ∃ answer, Returns (firstDump bytes computeLayout
        ((List.range' start count).flatMap (magicAt bytes))) answer ∧
      Answers (DumpAt bytes) start (start + count) answer := by
  induction count generalizing start with
  | zero => exact ⟨none, Returns.failure, .absent (nothing_of_le (Nat.le_refl _))⟩
  | succ count ih =>
      obtain ⟨answer, hreturns, hanswers⟩ := @ih (start + 1) (by omega)
      rw [Nat.add_right_comm, Nat.add_assoc] at hanswers
      have hskip : (∀ version layout dump,
          ¬ Parses (bytes.drop start) version layout dump) →
          Answers (DumpAt bytes) start (start + (count + 1)) answer := by
        intro hnone
        refine hanswers.skip (Nat.le_succ start) ?_
        rintro place hplace hlt found ⟨-, version, layout, hparses⟩
        have hsame : place = start := Nat.le_antisymm (Nat.le_of_lt_succ hlt) hplace
        exact hnone version layout found.2 (hsame ▸ hparses)
      rw [List.range'_succ, List.flatMap_cons]
      by_cases hmagic : (bytes.drop start).take 4 = magicBytes
      case neg =>
        rw [magicAt, if_neg hmagic, List.nil_append]
        exact ⟨answer, hreturns, hskip fun _ _ _ hparses => hmagic hparses.magic⟩
      case pos =>
        rw [magicAt, if_pos hmagic, List.singleton_append]
        obtain ⟨version, layout, dump, hparses, hfirst⟩ | ⟨hnone, hfirst⟩ :=
          firstDump_cons hlength (by omega) hmagic hreturns
        · exact ⟨_, hfirst, .present (Nat.le_refl start) (by omega)
            ⟨rfl, version, layout, hparses⟩ (nothing_of_le (Nat.le_refl start))⟩
        · exact ⟨answer, hfirst, hskip hnone⟩

/-- Close to the end of a slice no blob parses. -/
theorem nothing_near_end {start : ℕ} (hstart : bytes.length < start + 4) (stop : ℕ) :
    Nothing (DumpAt bytes) start stop := by
  rintro place hplace - found ⟨-, version, layout, hparses⟩
  have hlong := hparses.long
  rw [List.length_drop] at hlong
  omega

theorem findAndParse_lowest (hlength : bytes.length < 2 ^ 64) :
    ∃ answer, Returns (findAndParseWithOffset bytes computeLayout) answer ∧
      Answers (DumpAt bytes) 0 bytes.length answer := by
  by_cases hlong : 4 ≤ bytes.length
  case neg =>
    have hshort := Nat.lt_of_not_le hlong
    have hnone : Returns (findMagicOffsets bytes) (some []) := by
      rw [findMagicOffsets, if_pos hshort]
      exact Returns.pure _
    exact ⟨none, hnone.step Returns.failure, .absent (nothing_near_end (by omega) _)⟩
  case pos =>
    obtain ⟨answer, hreturns, hanswers⟩ := @firstDump_lowest bytes hlength 0
      (bytes.length - 4 + 1) (by omega)
    rw [← List.range_eq_range'] at hreturns
    refine ⟨answer, (returns_findMagicOffsets hlong).step hreturns, ?_⟩
    cases hanswers with
    | absent hnothing =>
        exact .absent (hnothing.trans (nothing_near_end (by omega) _))
    | present hstart hstop hfound hbefore =>
        exact .present hstart (by omega) hfound hbefore

theorem returns_versionAt {offset : ℕ} (hlength : bytes.length < 2 ^ 64)
    (hparses : Parses (bytes.drop offset) version layout dump) :
    Returns (versionAt bytes offset) (some version) := by
  have hlong := hparses.long
  have hword := hparses.word
  rw [List.length_drop] at hlong
  rw [readU32, getBytes, if_pos (by rw [List.length_drop]; omega), Option.map_some,
    Option.some.injEq, List.drop_drop] at hword
  apply (returns_add (by omega)).step
  rw [if_pos (by omega)]
  have hrange := returns_range (by omega : offset + 4 ≤ offset + 8)
    (by omega : offset + 8 ≤ bytes.length)
  rw [Nat.add_sub_add_left] at hrange
  rw [← hword]
  exact hrange.step (Returns.pure _)

theorem Parses.header (hparses : Parses bytes version layout dump) :
    ∃ header, parseHeader bytes layout = some header := by
  obtain ⟨answer, hreturns, hsound⟩ := @safe_parseMetadata bytes layout
    (small_of_computeLayout hparses.known)
  cases returns_unique hparses.parsed hreturns
  obtain ⟨header, -, hheader, -⟩ := (hsound dump rfl).images
  exact ⟨header, hheader⟩

/-- Whatever `compute_type_count` refuses counts as zero, as the division does. -/
theorem computeTypeCount_getD (hparses : Parses bytes version layout dump) :
    ∃ count, Returns (computeTypeCount bytes layout) count ∧
      count.getD 0 = typeDefsCount bytes layout := by
  obtain ⟨header, hheader⟩ := hparses.header
  have hsmall := (small_of_computeLayout hparses.known).typeSize
  rw [computeTypeCount, hheader, typeDefsCount]
  have hlift : Returns (lift (some header)) (some header) := Returns.lift _
  cases hread : readU32 bytes layout.hTypeDefsSize with
  | none =>
      refine ⟨none, hlift.step ?_, UInt32.zero_div.symm⟩
      exact @Returns.bind _ _ _ _ _ (fun _ => none) (Returns.lift none) nofun
  | some size =>
      have hsize : Returns (lift (some size)) (some size) := Returns.lift _
      by_cases hzero : layout.typeSize = 0
      · refine ⟨none, hlift.step (hsize.step ?_), ?_⟩
        · rw [if_pos hzero]
          exact Returns.failure
        · rw [hzero]
          exact UInt32.div_zero.symm
      · have hword : UInt32.ofNat layout.typeSize ≠ 0 := by
          intro hword
          have hnat := congrArg UInt32.toNat hword
          rw [UInt32.toNat_ofNat_of_lt' (by rw [UInt32.size]; omega)] at hnat
          exact hzero hnat
        by_cases hcount : size / UInt32.ofNat layout.typeSize = 0
        · refine ⟨none, hlift.step (hsize.step ?_), hcount.symm⟩
          rw [if_neg hzero, if_neg hword, if_pos hcount]
          exact Returns.failure
        · refine ⟨some _, hlift.step (hsize.step ?_), rfl⟩
          rw [if_neg hzero, if_neg hword, if_neg hcount]
          exact Returns.pure _

theorem returns_typeCountAt {offset : ℕ} (hoffset : offset ≤ bytes.length)
    (hparses : Parses (bytes.drop offset) version layout dump) :
    Returns (typeCountAt bytes offset version)
      (some (typeDefsCount (bytes.drop offset) layout)) := by
  obtain ⟨count, hcount, hsame⟩ := computeTypeCount_getD hparses
  rw [typeCountAt, hparses.known]
  apply (returns_rangeFrom hoffset).step
  apply hcount.attempt.step
  rw [← hsame]
  exact Returns.pure _

end Region

/-! ## Through the address space -/

section Walk

variable {layout : Layout} {memory : Memory UInt8} {tile other : Tile}

theorem same_tile (htile : layout.IsTile tile) (hother : layout.IsTile other) {address : ℕ}
    (hin : tile.start ≤ address ∧ address < tile.stop)
    (hinOther : other.start ≤ address ∧ address < other.stop) : other = tile := by
  have hat := htile.tileAt_eq hin.1 hin.2
  rw [hother.tileAt_eq hinOther.1 hinOther.2] at hat
  exact Option.some.inj hat

/-- The region of one tile: its lowest blob, or nothing. -/
theorem scanRegion_lowest (memory : Memory UInt8) (htile : layout.IsTile tile) :
    ∃ answer, Returns (scanRegion memory
        ⟨tile.start, tile.stop - tile.start, tile.state, tile.protect⟩) (some answer) ∧
      Answers (BlobAt layout memory) tile.start tile.stop answer := by
  have hnonempty := htile.nonempty
  have htop := htile.stop_lt
  by_cases hrecorded :
      recorded ⟨tile.start, tile.stop - tile.start, tile.state, tile.protect⟩ = true
  case neg =>
    refine ⟨none, ?_, .absent ?_⟩
    · rw [scanRegion, if_neg hrecorded]
      exact Returns.pure _
    · rintro address hstart hstop result
        ⟨other, metadataLayout, hother, hreadable, hlow, hhigh, hparses, -⟩
      obtain rfl := same_tile htile hother ⟨hstart, hstop⟩ ⟨hlow, hhigh⟩
      have hlong := hparses.long
      rw [length_load] at hlong
      apply hrecorded
      simp only [recorded, Bool.and_eq_true, beq_iff_eq, decide_eq_true_eq]
      exact ⟨hreadable, by omega⟩
  case pos =>
    have hreadable := readable_of_recorded hrecorded
    have hlength : (load memory tile.start (tile.stop - tile.start)).length < 2 ^ 64 := by
      rw [length_load]
      omega
    obtain ⟨answer, hreturns, hanswers⟩ := findAndParse_lowest hlength
    rw [length_load] at hanswers
    have hdrop : ∀ offset, (load memory tile.start (tile.stop - tile.start)).drop offset =
        load memory (tile.start + offset) (tile.stop - (tile.start + offset)) := by
      intro offset
      rw [drop_load, Nat.sub_sub]
    have hnothing : ∀ last ≤ tile.stop - tile.start,
        Nothing (DumpAt (load memory tile.start (tile.stop - tile.start))) 0 last →
        Nothing (BlobAt layout memory) tile.start (tile.start + last) := by
      intro last hlast hnone
      apply hnone.shift tile.start
      rintro offset result hoffset
        ⟨other, metadataLayout, hother, -, hlow, hhigh, hparses, -⟩
      obtain rfl := same_tile htile hother ⟨Nat.le_add_right _ _, by omega⟩ ⟨hlow, hhigh⟩
      rw [← hdrop] at hparses
      exact ⟨(offset, result.dump), rfl, result.version, metadataLayout, hparses⟩
    rw [scanRegion, if_pos hrecorded]
    cases hanswers with
    | absent hnone =>
        refine ⟨none, hreturns.attempt.step (Returns.pure _), .absent ?_⟩
        have hall := hnothing _ (Nat.le_refl _) hnone
        rwa [Nat.add_sub_cancel' (Nat.le_of_lt hnonempty)] at hall
    | @present offset found _ hoffset hfound hnone =>
        obtain ⟨found, dump⟩ := found
        obtain ⟨rfl, version, metadataLayout, hparses⟩ := hfound
        have hversion := returns_versionAt hlength hparses
        have htypes := returns_typeCountAt (by rw [length_load]; omega) hparses
        refine ⟨some ⟨dump, tile.start + found, version, typeDefsCount
          ((load memory tile.start (tile.stop - tile.start)).drop found) metadataLayout⟩, ?_,
          .present (Nat.le_add_right _ _) (by omega) ?_ (hnothing _ (Nat.le_of_lt hoffset) hnone)⟩
        · have hsum : Returns (add tile.start found) (some (tile.start + found)) :=
            returns_add (by omega)
          apply hreturns.attempt.step
          exact hsum.step (hversion.step (htypes.step (Returns.pure _)))
        · dsimp only at hparses ⊢
          rw [hdrop] at hparses ⊢
          exact ⟨tile, metadataLayout, htile, hreadable, Nat.le_add_right _ _, by omega,
            hparses, rfl, rfl⟩

theorem scanFrom_lowest (memory : Memory UInt8) (addr : ℕ)
    (hstart : ∀ tile, layout.tileAt addr = some tile → tile.start = addr) :
    ∃ answer, Returns (scanFrom layout.virtualQuery memory addr) answer ∧
      Answers (BlobAt layout memory) addr layout.top answer := by
  rw [scanFrom]
  cases hquery : layout.virtualQuery addr with
  | none =>
      refine ⟨none, Returns.failure, .absent (nothing_of_le (Nat.not_lt.mp fun hbelow => ?_))⟩
      obtain ⟨tile, htile⟩ := Option.isSome_iff_exists.mp ((layout.tileAt_isSome addr).mpr hbelow)
      obtain ⟨base, -, -, hsome⟩ := layout.query_some addr tile htile
      rw [hquery] at hsome
      contradiction
  | some mbi =>
      obtain ⟨tile, htile, rfl, rfl⟩ := query_start hstart hquery
      have hnonempty := htile.nonempty
      have htop := (layout.inside tile.start tile htile).2.2
      have hnext := saturatingAdd_tile htile (Nat.le_of_lt hnonempty)
      obtain ⟨answer, hreturns, hanswers⟩ := scanRegion_lowest memory htile
      dsimp only
      cases answer with
      | some result =>
          exact ⟨some result, hreturns.step (Returns.pure _), hanswers.widen htop⟩
      | none =>
          obtain ⟨answer, hrest, hbehind⟩ := scanFrom_lowest memory tile.stop
            fun other hother => htile.next_start hother
          refine ⟨answer, hreturns.step ?_,
            hbehind.skip (Nat.le_of_lt hnonempty) hanswers.nothing⟩
          dsimp only
          rw [hnext, if_neg (Nat.not_le.mpr hnonempty)]
          exact hrest
termination_by layout.top - addr
decreasing_by omega

end Walk

/-- Whatever the address space holds, the scan ends without a panic.  It answers the lowest
address of readable memory at which a blob parses into some classes, up to the end of its
region, together with its dump, the version it was parsed as and the number of its type
definitions; and it answers nothing only if there is no such address. -/
theorem scanProcessForMetadata_lowest (layout : Layout) (memory : Memory UInt8) :
    ∃ answer, Returns (scanProcessForMetadata layout.virtualQuery memory) answer ∧
      Answers (BlobAt layout memory) 0 layout.top answer :=
  scanFrom_lowest memory 0 fun tile htile => Nat.le_zero.mp (layout.inside 0 tile htile).1

/-! ## A described blob -/

theorem magic_of_describes {blob : List UInt8} {metadataLayout : MetadataLayout}
    {header : MetaHeader} {images : List ImageDesc}
    (hblob : Describes blob metadataLayout header images) : blob.take 4 = magicBytes :=
  (List.prefix_iff_eq_take.mp hblob.magic).symm

theorem BlobAt.unique {layout : Layout} {memory : Memory UInt8} {address : ℕ}
    {first second : MetadataResult} (hfirst : BlobAt layout memory address first)
    (hsecond : BlobAt layout memory address second) : first = second := by
  obtain ⟨tile, metadataLayout, htile, -, hlow, hhigh, hparses, haddress, htypes⟩ := hfirst
  obtain ⟨other, otherLayout, hother, -, hotherLow, hotherHigh, hotherParses, hotherAddress,
    hotherTypes⟩ := hsecond
  obtain rfl := same_tile htile hother ⟨hlow, hhigh⟩ ⟨hotherLow, hotherHigh⟩
  obtain ⟨hversion, hlayout, hdump⟩ := hparses.unique hotherParses
  cases first
  cases second
  simp only [MetadataResult.mk.injEq] at *
  exact ⟨hdump, haddress.trans hotherAddress.symm, hversion,
    htypes.trans (hlayout ▸ hotherTypes.symm)⟩

theorem typeSize_pos {version : UInt32} {layout : MetadataLayout}
    (hlayout : computeLayout version = some layout) : 0 < layout.typeSize := by
  rw [computeLayout] at hlayout
  split at hlayout
  case isTrue => contradiction
  case isFalse =>
    iterate 17 obtain ⟨_, _, hlayout⟩ := Option.bind_eq_some_iff.mp hlayout
    obtain rfl := Option.some.inj hlayout
    exact Nat.lt_of_lt_of_le (by decide : 0 < 4) (Nat.le_add_right 4 _)

theorem typeDefsCount_of_at {bytes : List UInt8} {version size : UInt32}
    {layout : MetadataLayout} {count : ℕ} (hlength : bytes.length < 2 ^ 64)
    (hlayout : computeLayout version = some layout)
    (hsize : U32At bytes layout.hTypeDefsSize size)
    (hcount : size.toNat = count * layout.typeSize) :
    typeDefsCount bytes layout = UInt32.ofNat count := by
  have hpos := typeSize_pos hlayout
  have hsmall := (small_of_computeLayout hlayout).typeSize
  have hle : count ≤ size.toNat := by
    rw [hcount]
    exact Nat.le_mul_of_pos_right count hpos
  have hlt := size.toNat_lt
  rw [typeDefsCount, readU32_of_at hlength hsize, Option.getD_some, ← UInt32.toNat_inj,
    UInt32.toNat_div, UInt32.toNat_ofNat_of_lt' (by rw [UInt32.size]; omega),
    UInt32.toNat_ofNat_of_lt' (by rw [UInt32.size]; omega), hcount,
    Nat.mul_div_cancel _ hpos]

/-- A described blob anywhere in a readable region, with no magic in readable memory before
it, is what the scan finds: its classes in order, its address, its version and the number of
its type definitions. -/
theorem scan_finds_described {layout : Layout} {memory : Memory UInt8} {blob : List UInt8}
    {metadataLayout : MetadataLayout} {header : MetaHeader} {images : List ImageDesc}
    {version size : UInt32} {count address : ℕ} {tile : Tile}
    (hblob : Describes blob metadataLayout header images)
    (hclasses : (dumpOf images).classes ≠ []) (hversion : U32At blob 4 version)
    (hlayout : computeLayout version = some metadataLayout)
    (hsize : U32At blob metadataLayout.hTypeDefsSize size)
    (hcount : size.toNat = count * metadataLayout.typeSize)
    (htile : layout.IsTile tile) (hreadable : tile.Readable) (hstart : tile.start ≤ address)
    (hstop : address + blob.length ≤ tile.stop)
    (hmemory : load memory address blob.length = blob)
    (hbefore : ∀ other place, layout.IsTile other → other.Readable → other.start ≤ place →
      place + 4 ≤ other.stop → place < address → load memory place 4 ≠ magicBytes) :
    Returns (scanProcessForMetadata layout.virtualQuery memory)
      (some ⟨dumpOf images, address, version, UInt32.ofNat count⟩) := by
  have htop := htile.stop_lt
  have htileTop := (layout.inside tile.start tile htile).2.2
  have hlong := hblob.images_lt
  obtain ⟨tail, htail⟩ : ∃ tail, load memory address (tile.stop - address) = blob ++ tail := by
    refine ⟨(load memory address (tile.stop - address)).drop blob.length, ?_⟩
    have htake := @take_load _ memory address (tile.stop - address) blob.length (by omega)
    rw [hmemory] at htake
    have hsplit := List.take_append_drop blob.length (load memory address (tile.stop - address))
    rw [htake] at hsplit
    exact hsplit.symm
  have hlength : (blob ++ tail).length < 2 ^ 64 := by
    rw [← htail, length_load]
    omega
  have hdescribed := hblob.append tail
  have hparses : Parses (blob ++ tail) version metadataLayout (dumpOf images) :=
    ⟨magic_of_describes hdescribed, readU32_of_at hlength (hversion.append tail), hlayout,
      returns_parseMetadata hlength hdescribed, hclasses⟩
  have hfound : BlobAt layout memory address
      ⟨dumpOf images, address, version, UInt32.ofNat count⟩ := by
    refine ⟨tile, metadataLayout, htile, hreadable, hstart, by omega, ?_, rfl, ?_⟩
    · rw [htail]
      exact hparses
    · rw [htail]
      exact (typeDefsCount_of_at hlength hlayout (hsize.append tail) hcount).symm
  have hnothing : Nothing (BlobAt layout memory) 0 address := by
    rintro place - hlt result ⟨other, otherLayout, hother, hotherReadable, hlow, hhigh, hplace, -⟩
    have height := hplace.long
    rw [length_load] at height
    have hmagic := hplace.magic
    rw [take_load memory (by omega)] at hmagic
    exact hbefore other place hother hotherReadable hlow (by omega) hlt hmagic
  obtain ⟨answer, hreturns, hanswers⟩ := @scanFrom_lowest layout memory 0
    fun first hfirst => Nat.le_zero.mp (layout.inside 0 first hfirst).1
  have hanswer := hanswers.eq_some (Nat.zero_le address) (by omega) hfound hnothing
    fun other hother => hother.unique hfound
  rw [← hanswer]
  exact hreturns

def layout29 : MetadataLayout where
  hStringOffset := 24
  hStringSize := 28
  hTypeDefsOffset := 160
  hTypeDefsSize := 164
  hFieldsOffset := 96
  hFieldsSize := 100
  hImagesOffset := 168
  hImagesSize := 172
  imageSize := 40
  imageNameIndex := 0
  imageTypeStart := 8
  imageTypeCount := 12
  typeSize := 88
  typeNameIndex := 0
  typeNamespaceIndex := 4
  typeByvalTypeIndex := 8
  typeFieldStart := 32
  typeFieldCount := 68
  fieldSize := 12
  fieldNameIndex := 0
  fieldTypeIndex := 4

/-- The header, the texts, and one record of each table. -/
def blob29 : List UInt8 :=
  ([0xFAB11BAF, 29, 0, 0, 0, 0, 176] ++ List.replicate 17 0 ++ [324] ++ List.replicate 15 0 ++
    [236, 88, 196, 40]).flatMap (leBytes 4) ++
  -- "Game", "Player" and "health"
  [71, 97, 109, 101, 0, 80, 108, 97, 121, 101, 114, 0, 104, 101, 97, 108, 116, 104, 0, 0] ++
  ([0, 0, 0, 1, 0, 0, 0, 0, 0, 0] ++ ([5, 0, 3] ++ List.replicate 14 0 ++ [1, 0, 0, 0, 0]) ++
    [12, 6, 0]).flatMap (leBytes 4)

def header29 : MetaHeader := ⟨176, 236, 324, 196, 40⟩

theorem computeLayout_29 : computeLayout 29 = some layout29 := rfl

theorem fieldAt_blob29 : FieldAt blob29 layout29 header29 0 ⟨"health", 6⟩ where
  name := ⟨12, by decide +kernel, by decide +kernel⟩
  typeIndex := by decide +kernel

theorem typeAt_blob29 :
    TypeAt blob29 layout29 header29 0 ⟨"Game", "Player", 3, [⟨"health", 6⟩]⟩ where
  name := ⟨5, by decide +kernel, by decide +kernel⟩
  «namespace» := ⟨0, by decide +kernel, by decide +kernel⟩
  byvalTypeIndex := by decide +kernel
  fields := by
    refine ⟨0, by decide +kernel, fun _ => by decide, ?_⟩
    intro idx hidx
    cases Nat.lt_one_iff.mp hidx
    exact fieldAt_blob29
  fieldCount := ⟨1, rfl, by decide +kernel⟩

theorem describes_blob29 : Describes blob29 layout29 header29 sampleImages where
  magic := by decide +kernel
  stringOffset := by decide +kernel
  typeDefsOffset := by decide +kernel
  fieldsOffset := by decide +kernel
  imagesOffset := by decide +kernel
  imagesSize := by decide +kernel
  string_lt := by decide +kernel
  typeDefs_lt := by decide +kernel
  fields_lt := by decide +kernel
  images_lt := by decide +kernel
  imagesSize_eq := rfl
  imagesSize_pos := by decide
  images_le := by decide +kernel
  images := by
    intro idx hidx
    cases Nat.lt_one_iff.mp hidx
    refine ⟨⟨0, by decide +kernel, fun _ => by decide, ?_⟩, ⟨1, rfl, by decide +kernel⟩⟩
    intro idx hidx
    cases Nat.lt_one_iff.mp hidx
    exact typeAt_blob29

/-- The blob in the middle of zeros. -/
def memory29 : Memory UInt8 := fun address =>
  if address < 0x1010 then 0 else (blob29[address - 0x1010]?).getD 0

theorem scan_finds_described_blob29 :
    Returns (scanProcessForMetadata sampleLayout.virtualQuery memory29)
      (some ⟨dumpOf sampleImages, 0x1010, 29, 1⟩) := by
  refine @scan_finds_described sampleLayout memory29 blob29 layout29 header29 sampleImages 29 88 1
    0x1010 ⟨0x1000, 0x3000, memCommit, pageReadwrite⟩ describes_blob29 (by decide)
    (by decide +kernel) computeLayout_29 (by decide +kernel) rfl rfl ⟨rfl, rfl⟩ (by decide)
    (by decide +kernel) (by decide +kernel) ?_
  intro other place _ _ _ _ hplace hmagic
  have hfirst := congrArg List.head? hmagic
  have hzero : memory29 place = 0 := if_pos hplace
  rw [load, List.range_succ_eq_map, List.map_cons, List.head?_cons, Nat.add_zero, hzero] at hfirst
  exact absurd hfirst (by decide)

end FrogAgent.MetadataScan
