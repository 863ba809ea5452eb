import FrogAgent.Core.Consensus
import FrogAgent.Core.PackedArg
import FrogAgent.Hook.Signature

/-!
# Calibration of the method layout

Phase 2 of `Il2CppConfig::probe`: the two anchor methods `System::Math.Pow` and
`System::String.PadLeft` are searched in the live class table, and each offset
within `MethodInfo` is the candidate under which both anchors show what is known of
them.  The outcomes of the other phases are parameters.
-/

namespace FrogAgent.Calibration

open FrogAgent.ByteMemory
open FrogAgent.Consensus
open FrogAgent.LittleEndian
open FrogAgent.PackedArg
open FrogAgent.Signature

/-- The process as calibration sees it: its bytes, the ranges the region cache and
the region map accept, and the class-name accessors of the runtime. -/
structure Image where
  memory : Memory UInt8
  validateRead : ℕ → ℕ → Bool
  inRegion : ℕ → ℕ → Bool
  isExecutable : ℕ → Bool
  classGetName : ℕ → String
  classGetNamespace : ℕ → String
  tableBase : ℕ
  tableCount : ℕ

def readWord (readable : ℕ → ℕ → Bool) (memory : Memory UInt8) (width address : ℕ) :
    Option ℕ :=
  if readable (wrap address) width then
    some (leValue (load memory (wrap address) width))
  else none

/-- `cache::read_u64` and `cache::read_u8` -/
def Image.cacheRead (image : Image) (width address : ℕ) : Option ℕ :=
  readWord image.validateRead image.memory width address

/-- `map.read_u64`, `map.read_u32` and `map.read_u8` -/
def Image.mapRead (image : Image) (width address : ℕ) : Option ℕ :=
  readWord image.inRegion image.memory width address

/-- The bytes up to a NUL or the end of the window, each read on its own. -/
def Image.cstrBytes (image : Image) : ℕ → ℕ → Option (List UInt8)
  | 0, _ => some []
  | window + 1, address => do
      let byte ← image.cacheRead 1 address
      if byte = 0 then some []
      else (image.cstrBytes window (address + 1)).map (UInt8.ofNat byte :: ·)

/-- `cache::read_cstr` -/
def Image.readCstr (image : Image) (address : ℕ) : Option String :=
  (image.cstrBytes 255 address).map fromUtf8Lossy

/-- The bytes up to a NUL inside the window; a control byte is garbage. -/
def Image.nameBytes (image : Image) : ℕ → ℕ → Option (List UInt8)
  | 0, _ => none
  | window + 1, address =>
      let byte := image.memory (wrap address)
      if byte = 0 then some []
      else if byte < 0x20 then none
      else (image.nameBytes window (address + 1)).map (byte :: ·)

/-- `map.read_name` -/
def Image.readName (image : Image) (address : ℕ) : Option String :=
  if image.inRegion (wrap address) 1024 then
    (image.nameBytes 1024 address).bind fun bytes =>
      if bytes.isEmpty then none else some (fromUtf8Lossy bytes)
  else none

/-- `cache::is_klass_shape`: the class points to an image whose name ends in
`.dll`. -/
def Image.isKlassShape (image : Image) (address : ℕ) : Bool :=
  if address = 0 then false
  else
    match image.cacheRead 8 address with
    | none | some 0 => false
    | some imagePtr =>
        match image.cacheRead 8 imagePtr with
        | none | some 0 => false
        | some namePtr =>
            match image.readCstr namePtr with
            | none => false
            | some name => 4 < name.utf8ByteSize && ".dll".toList.isSuffixOf name.toList

structure Il2CppConfig where
  classTableStep : ℕ
  klassNamespace : ℕ
  klassTypeDef : ℕ
  klassGenericClass : ℕ
  klassFields : ℕ
  il2cppTypeDiscrimReadAt : ℕ
  discrimShift : ℕ
  klassMethods : ℕ
  klassStaticFields : ℕ
  methodNameOff : ℕ
  methodKlassOff : ℕ
  methodParamCountOff : ℕ
  klassValuetypeOff : ℕ
  klassValuetypeBit : ℕ
  methodPointerOff : ℕ
  methodReturnTypeOff : ℕ
  methodParametersOff : ℕ
  methodFlagsOff : ℕ
  paramInfoSize : ℕ
  paramInfoTypeOff : ℕ
  deriving DecidableEq

def fallbackConstants : Il2CppConfig where
  classTableStep := 8
  klassNamespace := 0x18
  klassTypeDef := 0x20
  klassGenericClass := 0x48
  klassFields := 0x80
  il2cppTypeDiscrimReadAt := 0x08
  discrimShift := 16
  klassMethods := 0x98
  klassStaticFields := 0xB8
  methodNameOff := 0x18
  methodKlassOff := 0x20
  methodParamCountOff := 0x52
  klassValuetypeOff := 0x2B
  klassValuetypeBit := 0x80
  methodPointerOff := 0x08
  methodReturnTypeOff := 0x28
  methodParametersOff := 0x30
  methodFlagsOff := 0x4C
  paramInfoSize := 0x18
  paramInfoTypeOff := 0x00

/-! ## The anchors -/

/-- The class in a slot, if it has the name, bare or with its namespace. -/
def slotMatch (image : Image) (name : String) (slot : ℕ) : Option ℕ :=
  match image.cacheRead 8 (image.tableBase + slot * fallbackConstants.classTableStep) with
  | none | some 0 => none
  | some klass =>
      if image.isKlassShape klass then
        let cn := image.classGetName klass
        let ns := image.classGetNamespace klass
        if cn = "" then none
        else if cn = name ∨ (if ns = "" then cn else ns ++ "::" ++ cn) = name then
          some klass
        else none
      else none

/-- `local_find_class`; zero when no slot matches. -/
def localFindClass (image : Image) (name : String) : ℕ :=
  ((List.range image.tableCount).findSome? (slotMatch image name)).getD 0

/-- The walk over a method array: it ends at a null entry or at a method of another
class, and goes past methods without a name. -/
def methodWalk (image : Image) (cfg : Il2CppConfig) (klass : ℕ) (name : String)
    (argc methods : ℕ) : ℕ → ℕ → ℕ
  | 0, _ => 0
  | remaining + 1, idx =>
      match image.cacheRead 8 (methods + idx * 8) with
      | none | some 0 => 0
      | some info =>
          if (image.cacheRead 8 (info + cfg.methodKlassOff)).getD 0 ≠ klass then 0
          else
            let namePtr := (image.cacheRead 8 (info + cfg.methodNameOff)).getD 0
            let count := (image.cacheRead 1 (info + cfg.methodParamCountOff)).getD 0
            if (image.readCstr namePtr).getD "" ≠ "" ∧
                (image.readCstr namePtr).getD "" = name ∧ count = argc then info
            else methodWalk image cfg klass name argc methods remaining (idx + 1)

/-- `local_find_method`; zero when the walk finds none. -/
def localFindMethod (image : Image) (cfg : Il2CppConfig) (klass : ℕ) (name : String)
    (argc : ℕ) : ℕ :=
  let methods := (image.cacheRead 8 (klass + cfg.klassMethods)).getD 0
  if methods = 0 then 0 else methodWalk image cfg klass name argc methods 4096 0

/-- The anchors are searched with the fallback offsets, whatever the layout is. -/
def anchorMethods (image : Image) : Option (ℕ × ℕ) :=
  let cfg := fallbackConstants
  let math := localFindClass image "System::Math"
  let pow := if math ≠ 0 then localFindMethod image cfg math "Pow" 2 else 0
  let string := localFindClass image "System::String"
  let padLeft := if string ≠ 0 then localFindMethod image cfg string "PadLeft" 2 else 0
  if pow = 0 ∨ padLeft = 0 then none else some (pow, padLeft)

/-! ## The probes -/

structure ProbeOutcome where
  fieldName : String
  winningOffset : Option ℕ
  matchCount : ℕ
  anchorCount : ℕ
  fellBack : Bool
  candidatesTried : List ℕ
  deriving DecidableEq

def finalize (name : String) (result : Option (ℕ × CandidateScore)) (total : ℕ)
    (candidates : List ℕ) : ProbeOutcome :=
  match result with
  | some (offset, score) => ⟨name, some offset, score.matches, total, false, candidates⟩
  | none => ⟨name, none, 0, total, true, candidates⟩

def minRatio : ℕ := 90

/-- The common shape of the method probes: both anchors with the value expected of
each. -/
def probeMethodField {Value : Type*} [DecidableEq Value] (image : Image)
    (fieldName : String) (powValue padLeftValue : Value) (candidates : List ℕ)
    (extract : ℕ → ℕ → Option Value) : ProbeOutcome :=
  match anchorMethods image with
  | none => ⟨fieldName, none, 0, 0, true, []⟩
  | some (pow, padLeft) =>
      let anchors := [(pow, powValue), (padLeft, padLeftValue)]
      finalize fieldName (pickOffsetByConsensus candidates anchors extract minRatio)
        anchors.length candidates

def probeMethodPointerOff (image : Image) : ProbeOutcome :=
  probeMethodField image "method_pointer_off" () () [0x00, 0x08, 0x10]
    fun method offset => do
      let pointer ← image.mapRead 8 (method + offset)
      if pointer = 0 ∨ image.isExecutable pointer = false then none else some ()

def nameCandidates : List ℕ := [0x10, 0x18, 0x20]

def extractName (image : Image) (method offset : ℕ) : Option String := do
  let namePtr ← image.mapRead 8 (method + offset)
  let name := (image.readName namePtr).getD ""
  if name = "Pow" ∨ name = "PadLeft" then some name else none

def probeMethodNameOff (image : Image) : ProbeOutcome :=
  probeMethodField image "method_name_off" "Pow" "PadLeft" nameCandidates (extractName image)

def klassCandidates : List ℕ := [0x18, 0x20, 0x28]

def extractKlass (image : Image) (method offset : ℕ) : Option ℕ :=
  image.mapRead 8 (method + offset)

def probeMethodKlassOff (image : Image) : ProbeOutcome :=
  probeMethodField image "method_klass_off" (localFindClass image "System::Math")
    (localFindClass image "System::String") klassCandidates (extractKlass image)

def probeMethodFlagsOff (image : Image) : ProbeOutcome :=
  probeMethodField image "method_flags_off" true false [0x40, 0x44, 0x48, 0x4C, 0x50]
    fun method offset =>
      (image.mapRead 4 (method + offset)).map fun flags => decide (flags &&& 0x10 ≠ 0)

/-- The type code of an `Il2CppType`, by the fallback recipe, if it is a valid one. -/
def validTypeCode (image : Image) (typePtr : ℕ) : Option Unit := do
  let chunk ← image.mapRead 8 (typePtr + fallbackConstants.il2cppTypeDiscrimReadAt)
  let tc := (chunk >>> fallbackConstants.discrimShift) % 256
  if 0x01 ≤ tc ∧ tc ≤ 0x45 then some () else none

def probeMethodParametersOff (image : Image) : ProbeOutcome :=
  probeMethodField image "method_parameters_off" () () [0x28, 0x30, 0x38]
    fun method offset => do
      let params ← image.mapRead 8 (method + offset)
      if params = 0 then none
      else
        let count ← image.mapRead 1 (method + fallbackConstants.methodParamCountOff)
        if count = 0 then some ()
        else if 32 < count then none
        else
          (List.range (min count 4)).forM fun idx => do
            let info := params + idx * fallbackConstants.paramInfoSize
            let typePtr ← image.mapRead 8 (info + fallbackConstants.paramInfoTypeOff)
            if typePtr = 0 then none else validTypeCode image typePtr

def probeMethodReturnTypeOff (image : Image) : ProbeOutcome :=
  probeMethodField image "method_return_type_off" () () [0x20, 0x28, 0x30]
    fun method offset => do
      let typePtr ← image.mapRead 8 (method + offset)
      if typePtr = 0 then none else validTypeCode image typePtr

def paramCountCandidates : List ℕ := [0x50, 0x52, 0x54]

def extractParamCount (image : Image) (method offset : ℕ) : Option ℕ :=
  image.mapRead 1 (method + offset)

def probeMethodParamCountOff (image : Image) : ProbeOutcome :=
  probeMethodField image "method_param_count_off" 2 2 paramCountCandidates
    (extractParamCount image)

/-! ## The configuration -/

def minOverrideAnchors : ℕ := 3

def minOverrideAnchorsPhase2 : ℕ := 2

/-- A probe overrides the fallback when it has a winner and enough anchors. -/
def applyOffsetWithThreshold (field : ℕ) (outcome : ProbeOutcome) (minAnchors : ℕ) : ℕ :=
  match outcome.winningOffset with
  | some offset => if outcome.anchorCount < minAnchors then field else offset
  | none => field

def applyOffset (field : ℕ) (outcome : ProbeOutcome) : ℕ :=
  applyOffsetWithThreshold field outcome minOverrideAnchors

def applyOffsetPhase2 (field : ℕ) (outcome : ProbeOutcome) : ℕ :=
  applyOffsetWithThreshold field outcome minOverrideAnchorsPhase2

/-- The outcomes of the phases that probe other structures; the later ones see the
configuration as it is when they run. -/
structure OtherPhases where
  klassNamespace : ProbeOutcome
  klassTypeDef : ProbeOutcome
  klassFields : ProbeOutcome
  klassMethods : ProbeOutcome
  klassStaticFields : ProbeOutcome
  klassValuetype : ProbeOutcome × Option ℕ
  typeDiscrim : Il2CppConfig → ProbeOutcome × ProbeOutcome
  paramInfo : Il2CppConfig → ProbeOutcome × ProbeOutcome

structure ConfidenceReport where
  phase1Klass : List ProbeOutcome
  phase2Method : List ProbeOutcome
  phase3TypeDiscrim : List ProbeOutcome
  phase4FieldParam : List ProbeOutcome

def phase1 (others : OtherPhases) (cfg : Il2CppConfig) : Il2CppConfig :=
  { cfg with
    klassNamespace := applyOffset cfg.klassNamespace others.klassNamespace
    klassTypeDef := applyOffset cfg.klassTypeDef others.klassTypeDef
    klassFields := applyOffset cfg.klassFields others.klassFields
    klassMethods := applyOffset cfg.klassMethods others.klassMethods
    klassStaticFields := applyOffset cfg.klassStaticFields others.klassStaticFields
    klassValuetypeOff := applyOffset cfg.klassValuetypeOff others.klassValuetype.1
    klassValuetypeBit := others.klassValuetype.2.getD cfg.klassValuetypeBit }

def phase2 (image : Image) (cfg : Il2CppConfig) : Il2CppConfig :=
  { cfg with
    methodPointerOff := applyOffsetPhase2 cfg.methodPointerOff (probeMethodPointerOff image)
    methodNameOff := applyOffsetPhase2 cfg.methodNameOff (probeMethodNameOff image)
    methodKlassOff := applyOffsetPhase2 cfg.methodKlassOff (probeMethodKlassOff image)
    methodFlagsOff := applyOffsetPhase2 cfg.methodFlagsOff (probeMethodFlagsOff image)
    methodParametersOff :=
      applyOffsetPhase2 cfg.methodParametersOff (probeMethodParametersOff image)
    methodReturnTypeOff :=
      applyOffsetPhase2 cfg.methodReturnTypeOff (probeMethodReturnTypeOff image)
    methodParamCountOff :=
      applyOffsetPhase2 cfg.methodParamCountOff (probeMethodParamCountOff image) }

def phase3 (others : OtherPhases) (cfg : Il2CppConfig) : Il2CppConfig :=
  let (read, shift) := others.typeDiscrim cfg
  { cfg with
    il2cppTypeDiscrimReadAt := applyOffset cfg.il2cppTypeDiscrimReadAt read
    -- The shift is kept in a byte.
    discrimShift := (applyOffset cfg.discrimShift shift) % 256 }

def phase4 (others : OtherPhases) (cfg : Il2CppConfig) : Il2CppConfig :=
  let (size, typeOff) := others.paramInfo cfg
  { cfg with
    paramInfoSize := applyOffset cfg.paramInfoSize size
    paramInfoTypeOff := applyOffset cfg.paramInfoTypeOff typeOff }

def probe (image : Image) (others : OtherPhases) : Il2CppConfig × ConfidenceReport :=
  let klass := phase1 others fallbackConstants
  let method := phase2 image klass
  let discrim := phase3 others method
  (phase4 others discrim,
    { phase1Klass := [others.klassNamespace, others.klassTypeDef, others.klassFields,
        others.klassMethods, others.klassStaticFields, others.klassValuetype.1]
      phase2Method := [probeMethodPointerOff image, probeMethodNameOff image,
        probeMethodKlassOff image, probeMethodFlagsOff image,
        probeMethodParametersOff image, probeMethodReturnTypeOff image,
        probeMethodParamCountOff image]
      phase3TypeDiscrim := [(others.typeDiscrim method).1, (others.typeDiscrim method).2]
      phase4FieldParam := [(others.paramInfo discrim).1, (others.paramInfo discrim).2] })

end FrogAgent.Calibration
