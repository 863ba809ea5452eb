import FrogAgent.External.ClassTable
import FrogAgent.Internals.Calibration
import Mathlib.Data.List.ProdSigma

/-!
# The probes of classes, types and parameters

The phases of `Il2CppConfig::probe` besides the second one: the offsets within a class are
those under which the classes of the table show what the runtime says of them, the recipe
for type codes is the one that gives the codes of known types, and the layout of
parameters is read off `System::String.PadLeft`.
-/

namespace FrogAgent.Calibration

open FrogAgent.BestScore (best best_eq_some)
open FrogAgent.ByteMemory
open FrogAgent.Consensus
open FrogAgent.Signature

/-- `map.read_name_strict` -/
def Image.readNameStrict (image : Image) (address : ℕ) : Option String := do
  if image.inRegion (wrap address) 64 then
    let chars ← ClassTable.printable (load image.memory (wrap address) 64)
    if chars = [] then none else some (String.ofList chars)
  else none

/-- The outcome of a search that kept the best candidate with its count of matches. -/
def outcomeOf (name : String) (result : Option (ℕ × ℕ)) (total : ℕ)
    (candidates : List ℕ) : ProbeOutcome :=
  match result with
  | some (offset, count) => ⟨name, some offset, count, total, false, candidates⟩
  | none => ⟨name, none, 0, total, true, candidates⟩

/-! ## Phase 1: the class -/

def anchorCount : ℕ := 50

section Klass

variable {Truth : Type} (image : Image)

/-- The class in a slot, if it looks like one, with what is known of it. -/
def klassAnchor (extractTruth : ℕ → Option Truth) (slot : ℕ) : Option (ℕ × Truth) := do
  let klass ← image.mapRead 8 (image.tableBase + slot * fallbackConstants.classTableStep)
  if klass = 0 then none
  else if image.isKlassShape klass then
    (extractTruth klass).map fun truth => (klass, truth)
  else none

/-- The first `n` anchors of the table. -/
def sampleKlassAnchors (n : ℕ) (extractTruth : ℕ → Option Truth) : List (ℕ × Truth) :=
  ((List.range image.tableCount).filterMap (klassAnchor image extractTruth)).take n

/-- The common shape of the class probes. -/
def probeKlassField [DecidableEq Truth] (fieldName : String) (candidates : List ℕ)
    (ratio : ℕ) (extractTruth : ℕ → Option Truth) (extract : ℕ → ℕ → Option Truth) :
    ProbeOutcome :=
  let anchors := sampleKlassAnchors image anchorCount extractTruth
  finalize fieldName (pickOffsetByConsensus candidates anchors extract ratio)
    anchors.length candidates

def klassNamespaceCandidates : List ℕ := [0x10, 0x18, 0x20, 0x28]

def probeKlassNamespace : ProbeOutcome :=
  probeKlassField image "klass_namespace" klassNamespaceCandidates minRatio
    (fun klass =>
      let ns := image.classGetNamespace klass
      if ns = "" then none else some ns)
    fun klass offset => do
      let nsPtr ← image.mapRead 8 (klass + offset)
      let ns := (image.readNameStrict nsPtr).getD ""
      if ns = "" then none else some ns

/-- A class that has a name. -/
def named (klass : ℕ) : Option Unit :=
  if image.classGetName klass = "" then none else some ()

/-- The types among these that are in the table, with the type code of each. -/
def foundTypes (types : List (String × ℕ)) : List (ℕ × ℕ) :=
  types.filterMap fun type =>
    let klass := localFindClass image type.1
    if klass ≠ 0 then some (klass, type.2) else none

/-- The type code of an `Il2CppType`, by the fallback recipe. -/
def readTc (typePtr : ℕ) : Option ℕ :=
  (image.mapRead 8 (typePtr + fallbackConstants.il2cppTypeDiscrimReadAt)).map fun chunk =>
    (chunk >>> fallbackConstants.discrimShift) % 256

def klassTypeDefCandidates : List ℕ := [0x18, 0x20, 0x28, 0x30]

/-- The number of sampled classes that have a valid type code behind the pointer at this
offset, if they are enough and the known types have exactly theirs there. -/
def typeDefScore (offset : ℕ) : Option ℕ :=
  let known := foundTypes image [("System::Int32", 0x08), ("System::String", 0x0E)]
  let anchors := sampleKlassAnchors image anchorCount (named image)
  let byvalTc (klass : ℕ) : Option ℕ :=
    let byval := (image.mapRead 8 (klass + offset)).getD 0
    if byval ≠ 0 then readTc image byval else none
  let count := anchors.countP fun anchor =>
    (byvalTc anchor.1).any fun tc => 0x01 ≤ tc ∧ tc ≤ 0x21
  -- The ratio of no anchors is zero.
  if (∀ type ∈ known, byvalTc type.1 = some type.2) ∧ anchors ≠ [] ∧
      minRatio * anchors.length ≤ 100 * count then
    some count
  else none

def probeKlassTypeDef : ProbeOutcome :=
  outcomeOf "klass_type_def" (best (typeDefScore image) klassTypeDefCandidates)
    (sampleKlassAnchors image anchorCount (named image)).length klassTypeDefCandidates

/-- The first entry of a field array has a name and a token. -/
def firstField (arr : ℕ) : Option Unit := do
  if arr = 0 then none
  else
    let namePtr ← image.mapRead 8 arr
    let name ← image.readNameStrict namePtr
    let token ← image.mapRead 4 (arr + 28)
    if name = "" ∨ token = 0 then none else some ()

/-- A class that has fields: as the runtime says, where it exports `class_get_fields`,
or else as its memory shows at the fallback offset. -/
def hasFields (classGetFields : Option (ℕ → ℕ)) (klass : ℕ) : Option Unit :=
  match classGetFields with
  | some getFields => if getFields klass = 0 then none else some ()
  | none => do
      let arr ← image.mapRead 8 (klass + fallbackConstants.klassFields)
      if arr = 0 then none
      else
        let namePtr ← image.mapRead 8 arr
        if namePtr = 0 then none else firstField image arr

def klassFieldsCandidates : List ℕ := [0x70, 0x78, 0x80, 0x88, 0x90]

def probeKlassFields (classGetFields : Option (ℕ → ℕ)) : ProbeOutcome :=
  probeKlassField image "klass_fields" klassFieldsCandidates minRatio
    (hasFields image classGetFields)
    fun klass offset => do
      let arr ← image.mapRead 8 (klass + offset)
      firstField image arr

def klassMethodsCandidates : List ℕ := [0x88, 0x90, 0x98, 0xA0, 0xA8]

def probeKlassMethods : ProbeOutcome :=
  probeKlassField image "klass_methods" klassMethodsCandidates minRatio (named image)
    fun klass offset => do
      let arr ← image.mapRead 8 (klass + offset)
      if arr = 0 then none
      else
        let info ← image.mapRead 8 arr
        if info = 0 then none
        else
          let pointer ← image.mapRead 8 (info + 0x08)
          if pointer < 0x100000 then none else some ()

def klassStaticFieldsCandidates : List ℕ := [0xA8, 0xB0, 0xB8, 0xC0, 0xC8]

/-- Most classes have no static fields, and this ratio lets no offset pass on which they
differ. -/
def staticFieldsRatio : ℕ := 99

def probeKlassStaticFields : ProbeOutcome :=
  probeKlassField image "klass_static_fields" klassStaticFieldsCandidates staticFieldsRatio
    (named image)
    fun klass offset => do
      let pointer ← image.mapRead 8 (klass + offset)
      if 0x100000 < pointer then some () else none

/-- The classes among these that are in the table. -/
def foundKlasses (names : List String) : List ℕ :=
  names.filterMap fun name =>
    let klass := localFindClass image name
    if klass ≠ 0 then some klass else none

def valueTypes : List ℕ :=
  foundKlasses image ["System::Int32", "System::Single", "System::Boolean", "System::Byte",
    "System::Double"]

def referenceTypes : List ℕ :=
  foundKlasses image ["System::String", "System::Object", "System::Type",
    "System::Exception"]

def valuetypeCandidates : List (ℕ × ℕ) :=
  List.range 0x200 ×ˢ (List.range 8).map fun bit => 1 <<< bit

/-- The number of anchors, if the bit tells the value types from the reference types. -/
def valuetypeScore (candidate : ℕ × ℕ) : Option ℕ :=
  let vtMatch := (valueTypes image).countP fun klass =>
    (image.mapRead 1 (klass + candidate.1)).any fun byte => byte &&& candidate.2 ≠ 0
  let rtClear := (referenceTypes image).countP fun klass =>
    (image.mapRead 1 (klass + candidate.1)).any fun byte => byte &&& candidate.2 = 0
  let total := (valueTypes image).length + (referenceTypes image).length
  if vtMatch + rtClear = total then some (vtMatch + rtClear) else none

def probeKlassValuetype : ProbeOutcome × Option ℕ :=
  if (valueTypes image).length < 4 ∨ (referenceTypes image).length < 3 then
    (⟨"klass_valuetype_off", none, 0, 0, true, []⟩, none)
  else
    let found := best (valuetypeScore image) valuetypeCandidates
    (outcomeOf "klass_valuetype_off" (found.map fun found => (found.1.1, found.2))
        ((valueTypes image).length + (referenceTypes image).length) [],
      found.map fun found => found.1.2)

end Klass

/-! ## Phase 3: the type discriminator -/

section TypeDiscrim

variable (image : Image) (klassTypeDef : ℕ)

def typeAnchors : List (ℕ × ℕ) :=
  foundTypes image [("System::Int32", 0x08), ("System::String", 0x0E),
    ("System::Object", 0x1C), ("System::Single", 0x0C), ("System::Double", 0x0D)]

def readCandidates : List ℕ := [0x00, 0x08]

def shiftCandidates : List ℕ := [0, 8, 16, 24]

/-- The type code of a class, read and shifted by this recipe. -/
def discrimTc (recipe : ℕ × ℕ) (klass : ℕ) : Option ℕ :=
  (image.mapRead 8 (klass + (klassTypeDef + recipe.1))).map fun chunk =>
    (chunk >>> recipe.2) % 256

def discrimMatches (recipe : ℕ × ℕ) : ℕ :=
  (typeAnchors image).countP fun anchor =>
    discrimTc image klassTypeDef recipe anchor.1 = some anchor.2

def discrimScore (recipe : ℕ × ℕ) : Option ℕ :=
  -- Without anchors the ratio is no number, and clears nothing.
  if typeAnchors image ≠ [] ∧
      minRatio * (typeAnchors image).length ≤ 100 * discrimMatches image klassTypeDef recipe
    then some (discrimMatches image klassTypeDef recipe)
  else none

def probeTypeDiscrim : ProbeOutcome × ProbeOutcome :=
  let found := best (discrimScore image klassTypeDef) (readCandidates ×ˢ shiftCandidates)
  (outcomeOf "il2cpp_type_discrim_read_at" (found.map fun found => (found.1.1, found.2))
      (typeAnchors image).length readCandidates,
    outcomeOf "discrim_shift" (found.map fun found => (found.1.2, found.2))
      (typeAnchors image).length shiftCandidates)

end TypeDiscrim

/-! ## Phase 4: the parameters -/

section ParamInfo

variable (image : Image) (klassTypeDef discrimReadAt discrimShift methodParametersOff : ℕ)

/-- `System::String.PadLeft`, searched with the fallback offsets; zero when it is not
found. -/
def padLeftAnchor : ℕ :=
  let string := localFindClass image "System::String"
  if string ≠ 0 then localFindMethod image fallbackConstants string "PadLeft" 2 else 0

def paramsBase : ℕ :=
  (image.mapRead 8 (padLeftAnchor image + methodParametersOff)).getD 0

def paramTc (typePtr : ℕ) : Option ℕ := do
  let _ ← image.mapRead 8 (typePtr + klassTypeDef - klassTypeDef + discrimReadAt)
  let chunk ← image.mapRead 8 (typePtr + discrimReadAt)
  some ((chunk >>> discrimShift) % 256)

def strideCandidates : List ℕ := [0x08, 0x10, 0x18, 0x20, 0x28]

def typeOffCandidates : List ℕ := [0x00, 0x08, 0x10, 0x18]

/-- Two matches, where both parameters of `PadLeft(Int32, Char)` have their type codes. -/
def paramScore (candidate : ℕ × ℕ) : Option ℕ :=
  let base := paramsBase image methodParametersOff
  let p0Type := (image.mapRead 8 (base + 0 + candidate.2)).getD 0
  let p1Type := (image.mapRead 8 (base + candidate.1 + candidate.2)).getD 0
  if p0Type = 0 ∨ p1Type = 0 then none
  else
    let tc (typePtr : ℕ) : ℕ :=
      (paramTc image klassTypeDef discrimReadAt discrimShift typePtr).getD 0
    let count := (if tc p0Type = 0x08 then 1 else 0) + (if tc p1Type = 0x03 then 1 else 0)
    if count = 2 then some count else none

def probeParamInfo : ProbeOutcome × ProbeOutcome :=
  if padLeftAnchor image = 0 ∨ paramsBase image methodParametersOff = 0 then
    (⟨"param_info_size", none, 0, 0, true, []⟩,
      ⟨"param_info_type_off", none, 0, 0, true, []⟩)
  else
    let found := best
      (paramScore image klassTypeDef discrimReadAt discrimShift methodParametersOff)
      (strideCandidates ×ˢ typeOffCandidates)
    (outcomeOf "param_info_size" (found.map fun found => (found.1.1, found.2)) 2
        strideCandidates,
      outcomeOf "param_info_type_off" (found.map fun found => (found.1.2, found.2)) 2
        typeOffCandidates)

end ParamInfo

/-! ## All phases -/

/-- The probes of these phases, as `probe` calls them. -/
def layoutProbes (image : Image) (classGetFields : Option (ℕ → ℕ)) : OtherPhases where
  klassNamespace := probeKlassNamespace image
  klassTypeDef := probeKlassTypeDef image
  klassFields := probeKlassFields image classGetFields
  klassMethods := probeKlassMethods image
  klassStaticFields := probeKlassStaticFields image
  klassValuetype := probeKlassValuetype image
  typeDiscrim := fun cfg => probeTypeDiscrim image cfg.klassTypeDef
  paramInfo := fun cfg =>
    probeParamInfo image cfg.klassTypeDef cfg.il2cppTypeDiscrimReadAt cfg.discrimShift
      cfg.methodParametersOff

/-- The configuration that `Il2CppConfig::probe` returns. -/
def probedConfig (image : Image) (classGetFields : Option (ℕ → ℕ)) : Il2CppConfig :=
  (probe image (layoutProbes image classGetFields)).1

end FrogAgent.Calibration
