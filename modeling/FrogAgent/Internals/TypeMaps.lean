import FrogAgent.External.ClassTable
import FrogAgent.Internals.TypeNameRender
import FrogAgent.Lib.Tally

/-!
# The string heap

`build_type_maps` of `internals/resolve.rs` finds the base of the string heap.  Every class of
the table whose name pointer and name index are both readable votes for the difference of the
two, and the base with most votes is taken, in whatever order the hash map gives its entries.
The types of the classes that voted for it then get the names that these classes have.
-/

namespace FrogAgent.TypeMaps

open FrogAgent.ByteMemory
open FrogAgent.Calibration
open FrogAgent.ClassTable
open FrogAgent.Dump
open FrogAgent.LittleEndian
open FrogAgent.PackedArg
open FrogAgent.Scan
open FrogAgent.Signature (wrap)
open FrogAgent.Tally
open FrogAgent.TypeNames

/-- The process with its region map, and the config. -/
structure Source where
  image : Image
  regions : List Region
  inRegion_eq : image.inRegion = RegionMap.inRegion regions
  cfg : Il2CppConfig
  tableMaxSlots : ℕ

section Votes

variable (source : Source)

/-- The base that the class in a slot votes for. -/
def classVote (k : ℕ) : Option ℕ := do
  if k = 0 then none
  else
    let td ← source.image.mapRead 8 (k + source.cfg.klassTypeDef)
    if td = 0 then none
    else if (classFields source.regions source.image.memory k).isNone then none
    else if source.image.classGetName k = "" then none
    else
      let np ← source.image.mapRead 8 (k + 0x10)
      let nameIdx ← source.image.mapRead 4 td
      if nameIdx < np then some (np - nameIdx) else none

/-- The class in a slot of the table. -/
def slotClass (i : ℕ) : Option ℕ :=
  source.image.mapRead 8 (source.image.tableBase + i * source.cfg.classTableStep)

def slotVote (i : ℕ) : Option ℕ := (slotClass source i).bind (classVote source)

/-- One round of the loop over the slots. -/
def walkSlot (baseVotes : Std.HashMap ℕ ℕ) (i : ℕ) : Std.HashMap ℕ ℕ :=
  match slotVote source i with
  | none => baseVotes
  | some base => vote baseVotes base

def slots : List ℕ := List.range (min source.image.tableCount source.tableMaxSlots)

/-- The votes that a base needs. -/
def minVotes : ℕ := 8

/-- `string_heap_base`, when the map goes through its entries in the given order. -/
def buildTypeMaps (order : Order (ℕ × ℕ)) : Option ℕ :=
  winner order minVotes ((slots source).foldl (walkSlot source) ∅)

/-- The number of slots that vote for a base. -/
def support (base : ℕ) : ℕ := (slots source).countP fun i => slotVote source i == some base

end Votes

/-! ## The election -/

section Election

variable (source : Source) (order : Order (ℕ × ℕ))

theorem foldl_walkSlot :
    (slots source).foldl (walkSlot source) ∅ =
      tally ((slots source).filterMap (slotVote source)) := by
  rw [tally, List.foldl_filterMap]
  congr 1
  funext baseVotes i
  rw [walkSlot]
  cases slotVote source i <;> rfl

theorem count_ballots (base : ℕ) :
    ((slots source).filterMap (slotVote source)).count base = support source base := by
  rw [support, List.count_filterMap]

end Election

/-! ## The two readers of a name -/

/-- What the strict reader accepts is a run of printable bytes before a NUL. -/
theorem printable_eq_some {bytes : List UInt8} {chars : List Char}
    (hprintable : printable bytes = some chars) :
    ∃ text rest, bytes = text ++ 0 :: rest ∧
      chars = text.map (fun byte => Char.ofNat byte.toNat) ∧
      ∀ byte ∈ text, 0x20 ≤ byte ∧ byte ≤ 0x7E := by
  induction bytes generalizing chars with
  | nil => contradiction
  | cons byte bytes ih =>
      rw [printable] at hprintable
      split at hprintable
      · rename_i hnul
        obtain rfl := Option.some.inj hprintable
        exact ⟨[], bytes, by rw [hnul, List.nil_append], rfl, nofun⟩
      · split at hprintable
        · rename_i hclean
          obtain ⟨chars, htail, rfl⟩ := Option.map_eq_some_iff.mp hprintable
          obtain ⟨text, rest, rfl, rfl, htext⟩ := ih htail
          refine ⟨byte :: text, rest, rfl, rfl, ?_⟩
          exact List.forall_mem_cons.mpr ⟨hclean, htext⟩
        · contradiction

theorem utf8EncodeChar_printable {byte : UInt8} (hlast : byte ≤ 0x7E) :
    String.utf8EncodeChar (Char.ofNat byte.toNat) = [byte] := by
  have hsmall : byte.toNat ≤ 0x7E := hlast
  have hnat : (Char.ofNat byte.toNat).val.toNat = byte.toNat := by
    rw [Char.ofNat, dif_pos (.inl (by omega))]
    rfl
  simp only [String.utf8EncodeChar, hnat]
  rw [if_pos (by omega), UInt8.ofNat_toNat]

/-- On printable bytes the two decoders agree. -/
theorem fromUtf8Lossy_printable {text : List UInt8} (htext : ∀ byte ∈ text, byte ≤ 0x7E) :
    fromUtf8Lossy text = String.ofList (text.map fun byte => Char.ofNat byte.toNat) := by
  rw [← fromUtf8Lossy_utf8 (String.ofList _), utf8_eq_flatMap, String.toList_ofList,
    List.flatMap_map]
  congr 1
  induction text with
  | nil => rfl
  | cons byte text ih =>
      obtain ⟨hbyte, hrest⟩ := List.forall_mem_cons.mp htext
      rw [List.flatMap_cons, utf8EncodeChar_printable hbyte, ← ih hrest, List.singleton_append]

section Readers

variable {source : Source} {addr : ℕ} {name : String}

theorem lt_of_inRegion {regions : List Region} {len : ℕ}
    (hregion : RegionMap.inRegion regions addr len = true) : addr + len < 2 ^ 64 := by
  by_contra hwraps
  rw [RegionMap.inRegion, VirtualMemory.checkedAdd, if_neg hwraps] at hregion
  contradiction

/-- A name that the strict reader accepts is what the lenient reader reads, where its larger
window is readable too. -/
theorem readName_of_strict
    (hstrict : readNameStrict source.regions source.image.memory addr = some name)
    (hwindow : source.image.inRegion addr 1024 = true) :
    source.image.readName addr = some name := by
  have hinside : addr + 1024 < 2 ^ 64 := lt_of_inRegion (source.inRegion_eq ▸ hwindow)
  have hwrap : ∀ place, place ≤ 1024 → wrap (addr + place) = addr + place := by
    intro place hplace
    rw [wrap, Nat.mod_eq_of_lt (by omega)]
  rw [readNameStrict] at hstrict
  split at hstrict
  case isFalse => contradiction
  case isTrue =>
    obtain ⟨chars, hprintable, hname⟩ := Option.bind_eq_some_iff.mp hstrict
    obtain ⟨text, rest, hbytes, rfl, htext⟩ := printable_eq_some hprintable
    have hlength := congrArg List.length hbytes
    rw [length_load, List.length_append, List.length_cons] at hlength
    have hload : ∀ place, place < 64 →
        (text ++ 0 :: rest)[place]? = some (source.image.memory (addr + place)) := by
      intro place hplace
      rw [← hbytes, load, List.getElem?_map, List.getElem?_range hplace, Option.map_some]
    have hnonempty : text ≠ [] := by
      rintro rfl
      rw [List.map_nil, if_pos rfl] at hname
      exact Option.some_ne_none name hname.symm
    have hread : ∀ window, 64 ≤ window → source.image.nameBytes window addr = some text := by
      intro window hlarge
      apply nameBytes_stored (by omega) (fun byte hbyte => (htext byte hbyte).1)
      · intro place hplace
        have hbyte := hload place (by omega)
        rw [List.getElem?_append_left hplace, List.getElem?_eq_getElem hplace] at hbyte
        rw [hwrap place (by omega), Option.some.inj hbyte]
      · have hnul := hload text.length (by omega)
        rw [List.getElem?_append_right (Nat.le_refl _), Nat.sub_self] at hnul
        rw [hwrap _ (by omega), ← Option.some.inj hnul]
    have hdecoded := fromUtf8Lossy_printable fun byte hbyte => (htext byte hbyte).2
    rw [if_neg (by rwa [List.map_eq_nil_iff])] at hname
    have hstart : wrap addr = addr := hwrap 0 (Nat.zero_le _)
    rw [Image.readName, hstart, if_pos hwindow, hread 1024 (by decide),
      Option.bind_some, if_neg (by rwa [List.isEmpty_iff]), hdecoded, hname]

/-- Inside the address space the map reads the word that `class_fields` reads. -/
theorem mapRead_eq_readU64 (hinside : addr < 2 ^ 64) :
    source.image.mapRead 8 addr = readU64 source.regions source.image.memory addr := by
  rw [Image.mapRead, readWord, wrap, Nat.mod_eq_of_lt hinside, source.inRegion_eq, readU64]

end Readers

/-! ## The names of the classes that voted -/

section Names

variable {source : Source} {k base : ℕ}

/-- The name that `class_fields` reads, with the window of `read_name` readable. -/
def Named (source : Source) (k : ℕ) (name : String) : Prop :=
  ∃ np ns, classFields source.regions source.image.memory k = some (name, ns) ∧
    source.image.mapRead 8 (k + 0x10) = some np ∧ source.image.inRegion np 1024 = true

/-- The config with the elected base. -/
def resolver (source : Source) (base : ℕ) (ctx : Option (List ℕ)) : Resolver :=
  ⟨source.image, source.cfg, some base, ctx⟩

/-- An `Il2CppType` of the class: CLASS or VALUETYPE with the type definition as its data. -/
def TypeOf (source : Source) (k typePtr : ℕ) : Prop :=
  ∃ tc td, (tc = 0x11 ∨ tc = 0x12) ∧
    source.image.mapRead 8 (k + source.cfg.klassTypeDef) = some td ∧
    TypeRecord (resolver source 0 none) typePtr tc td

theorem name_of_classFields {regions : List Region} {memory : Memory UInt8} {name ns : String}
    (hfields : classFields regions memory k = some (name, ns)) :
    k + 0x10 < 2 ^ 64 ∧ ∃ namePtr, readU64 regions memory (k + 0x10) = some namePtr ∧
      readNameStrict regions memory namePtr = some name := by
  rw [classFields] at hfields
  obtain ⟨imagePtr, -, hfields⟩ := Option.bind_eq_some_iff.mp hfields
  split at hfields
  · contradiction
  · obtain ⟨namePtr, hnamePtr, hfields⟩ := Option.bind_eq_some_iff.mp hfields
    obtain ⟨nsPtr, -, hfields⟩ := Option.bind_eq_some_iff.mp hfields
    obtain ⟨read, hread, hfields⟩ := Option.bind_eq_some_iff.mp hfields
    obtain ⟨rfl, -⟩ := Prod.mk.inj (Option.some.inj hfields)
    obtain ⟨addr, hadd, hread64⟩ := Option.bind_eq_some_iff.mp hnamePtr
    rw [VirtualMemory.checkedAdd, Option.ite_none_right_eq_some, Option.some.injEq] at hadd
    obtain ⟨hinside, rfl⟩ := hadd
    exact ⟨hinside, namePtr, hread64, hread⟩

theorem classVote_eq_some (hvote : classVote source k = some base) :
    ∃ td np nameIdx, source.image.mapRead 8 (k + source.cfg.klassTypeDef) = some td ∧ td ≠ 0 ∧
      source.image.mapRead 8 (k + 0x10) = some np ∧ source.image.mapRead 4 td = some nameIdx ∧
      base + nameIdx = np := by
  rw [classVote] at hvote
  split at hvote
  · contradiction
  obtain ⟨td, htd, hvote⟩ := Option.bind_eq_some_iff.mp hvote
  split at hvote
  · contradiction
  rename_i hnonnull
  split at hvote
  · contradiction
  split at hvote
  · contradiction
  obtain ⟨np, hnp, hvote⟩ := Option.bind_eq_some_iff.mp hvote
  obtain ⟨nameIdx, hidx, hvote⟩ := Option.bind_eq_some_iff.mp hvote
  rw [Option.ite_none_right_eq_some, Option.some.injEq] at hvote
  obtain ⟨hlt, rfl⟩ := hvote
  exact ⟨td, np, nameIdx, htd, hnonnull, hnp, hidx, Nat.sub_add_cancel (Nat.le_of_lt hlt)⟩

theorem readNameStrict_ne_empty {regions : List Region} {memory : Memory UInt8} {addr : ℕ}
    {name : String} (hstrict : readNameStrict regions memory addr = some name) : name ≠ "" := by
  rw [readNameStrict] at hstrict
  split at hstrict
  · obtain ⟨chars, -, hname⟩ := Option.bind_eq_some_iff.mp hstrict
    rw [Option.ite_none_left_eq_some, Option.some.injEq] at hname
    obtain ⟨hchars, rfl⟩ := hname
    exact fun hempty => hchars (String.ofList_eq_empty_iff.mp hempty)
  · contradiction

/-- The elected base gives the type definition of a class that voted for it the name that the
class has itself. -/
theorem typedefName_of_vote (hvote : classVote source k = some base) {name : String}
    (hnamed : Named source k name) :
    ∃ td ns, source.image.mapRead 8 (k + source.cfg.klassTypeDef) = some td ∧ td ≠ 0 ∧
      typedefName source.image base td = some (fullName (ns, name)) := by
  obtain ⟨td, np, nameIdx, htd, hnonnull, hnp, hidx, hbase⟩ := classVote_eq_some hvote
  obtain ⟨namePtr, ns, hfields, hnamePtr, hwindow⟩ := hnamed
  obtain ⟨hinside, strictPtr, hstrictPtr, hstrict⟩ := name_of_classFields hfields
  rw [← mapRead_eq_readU64 hinside, hnamePtr, Option.some.injEq] at hstrictPtr
  rw [hnp, Option.some.injEq] at hnamePtr
  subst hstrictPtr hnamePtr
  have hnp64 := lt_of_inRegion (source.inRegion_eq ▸ hwindow)
  have hheap : heapName source.image base nameIdx = some name := by
    rw [heapName, checkedAdd, if_pos (by omega), Option.bind_some, hbase,
      readName_of_strict hstrict hwindow]
  refine ⟨td, ((source.image.mapRead 4 (td + 4)).bind (heapName source.image base)).getD "",
    htd, hnonnull, ?_⟩
  simp only [typedefName, hidx, hheap, Option.bind_eq_bind, Option.bind_some,
    if_neg (readNameStrict_ne_empty hstrict)]

theorem il2cppTypeName_of_vote (hvote : classVote source k = some base) {name : String}
    (hnamed : Named source k name) {typePtr : ℕ} (htype : TypeOf source k typePtr)
    (ctx : Option (List ℕ)) (fuel : ℕ) :
    ∃ ns, il2cppTypeName (resolver source base ctx) (fuel + 1) typePtr =
      some (fullName (ns, name)) := by
  obtain ⟨td, ns, htd, hnonnull, hname⟩ := typedefName_of_vote hvote hnamed
  obtain ⟨tc, other, htc, hother, hrecord⟩ := htype
  obtain rfl : td = other := Option.some.inj (htd.symm.trans hother)
  have hklass : klassName (resolver source base ctx) tc td = fullName (ns, name) := by
    rw [klassName, if_neg hnonnull]
    simp only [resolver, Option.bind_some, hname]
  have hat : TypeRecord (resolver source base ctx) typePtr tc td := hrecord
  refine ⟨ns, ?_⟩
  rw [il2cppTypeName, il2cppTypeNameDepth, typeNameBody_of_record hat (Nat.zero_le 8)]
  rcases htc with rfl | rfl
  · exact congrArg some hklass
  · exact congrArg some hklass

end Names

/-- In whatever order the hash map gives its entries, the base of the string heap has at least
eight votes and none has more, and the types of the classes that voted for it get the names of
these classes; a base with enough votes and more than any other is taken; and there is none
exactly if no base has enough votes. -/
theorem buildTypeMaps_elects (source : Source) (order : Order (ℕ × ℕ)) :
    (∀ base, buildTypeMaps source order = some base →
      minVotes ≤ support source base ∧
      (∀ other, support source other ≤ support source base) ∧
      ∀ k name typePtr ctx fuel, classVote source k = some base → Named source k name →
        TypeOf source k typePtr →
        ∃ ns, il2cppTypeName (resolver source base ctx) (fuel + 1) typePtr =
          some (fullName (ns, name))) ∧
    (∀ base, minVotes ≤ support source base →
      (∀ other, other ≠ base → support source other < support source base) →
      buildTypeMaps source order = some base) ∧
    (buildTypeMaps source order = none ↔ ∀ base, support source base < minVotes) := by
  have hleast : 0 < minVotes := by decide
  simp only [buildTypeMaps, foldl_walkSlot, ← count_ballots]
  refine ⟨fun base hbase => ?_, ?_, winner_eq_none order hleast⟩
  · obtain ⟨henough, hmost⟩ := most_of_winner order hbase
    exact ⟨henough, hmost, fun k name typePtr ctx fuel hvote hnamed htype =>
      il2cppTypeName_of_vote hvote hnamed htype ctx fuel⟩
  · intro base henough hmost
    exact winner_of_most order hleast henough hmost

/-- Eight slots with one class, whose type definition has an index into a heap at `0x2000`. -/
def samplePatches : List (Patch UInt8) :=
  (List.range 8).map (fun i => ⟨0x1000 + i * 8, leBytes 8 0x1100⟩) ++
    [⟨0x1100, leBytes 8 0x1200⟩, ⟨0x1110, leBytes 8 0x2010 ++ leBytes 8 0x2020 ++ leBytes 8 0x1300⟩,
      ⟨0x1200, leBytes 8 0x1400⟩, ⟨0x1300, leBytes 4 0x10 ++ leBytes 4 0x20⟩,
      ⟨0x1400, "g.dll".toUTF8.toList⟩, ⟨0x1500, leBytes 8 0x1300 ++ leBytes 8 0x120000⟩,
      ⟨0x2010, "Hero".toUTF8.toList⟩, ⟨0x2020, "Game".toUTF8.toList⟩]

def sampleRegions : List Region := [⟨0x1000, 0x4000, VirtualMemory.pageReadwrite⟩]

def sampleSource : Source where
  image := {
    memory := storeAll (fun _ => 0) samplePatches
    validateRead := RegionMap.inRegion sampleRegions
    inRegion := RegionMap.inRegion sampleRegions
    isExecutable := fun _ => false
    classGetName := fun _ => "Hero"
    classGetNamespace := fun _ => "Game"
    tableBase := 0x1000
    tableCount := 8 }
  regions := sampleRegions
  inRegion_eq := rfl
  cfg := fallbackConstants
  tableMaxSlots := 20000

theorem buildTypeMaps_elects_sample :
    buildTypeMaps sampleSource (.asStored _) = some 0x2000 ∧
      ∃ ns, il2cppTypeName (resolver sampleSource 0x2000 none) 10 0x1500 =
        some (fullName (ns, "Hero")) := by
  have hvotes : ∀ i ∈ slots sampleSource, slotVote sampleSource i = some 0x2000 := by
    decide +kernel
  have hothers : ∀ other, other ≠ 0x2000 → support sampleSource other = 0 := by
    intro other hother
    rw [support, List.countP_eq_zero]
    intro i hi hvote
    rw [hvotes i hi, beq_iff_eq, Option.some.injEq] at hvote
    exact hother hvote.symm
  have helected := (buildTypeMaps_elects sampleSource (.asStored _)).2.1 0x2000
    (by decide +kernel) fun other hother => by
      rw [hothers other hother]
      decide +kernel
  obtain ⟨-, -, hnames⟩ := (buildTypeMaps_elects sampleSource (.asStored _)).1 0x2000 helected
  refine ⟨helected, hnames 0x1100 "Hero" 0x1500 none 9 (by decide +kernel) ?_ ?_⟩
  · exact ⟨0x2010, "Game", by decide +kernel, by decide +kernel, by decide +kernel⟩
  · exact ⟨0x12, 0x1300, .inr rfl, by decide +kernel, by decide +kernel, 0x120000,
      by decide +kernel, by decide +kernel⟩

end FrogAgent.TypeMaps
