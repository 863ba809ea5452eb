import FrogAgent.Internals.CalibratedConfig
import FrogAgent.Internals.LayoutRecovery

/-!
# When a found parameter layout takes effect

Phase 4 of `Il2CppConfig::probe` looks for the pair of stride and type offset under which
both parameters of `System::String.PadLeft` have the type codes of an `Int32` and a `Char`.
Its two parameters are two anchors, and the gate asks for three, so a pair it finds is in
the configuration only when it is the fallback pair.
-/

namespace FrogAgent.Calibration

open FrogAgent.BestScore (best best_of_const)
open FrogAgent.ByteMemory
open FrogAgent.Consensus
open FrogAgent.LittleEndian
open FrogAgent.Signature
open FrogAgent.TypedValue

/-- The offsets of the configuration that signatures use. -/
def Il2CppConfig.signatureConfig (cfg : Il2CppConfig) : Signature.Config where
  methodPointerOff := cfg.methodPointerOff
  methodReturnTypeOff := cfg.methodReturnTypeOff
  methodParametersOff := cfg.methodParametersOff
  methodFlagsOff := cfg.methodFlagsOff
  methodParamCountOff := cfg.methodParamCountOff
  paramInfoSize := cfg.paramInfoSize
  paramInfoTypeOff := cfg.paramInfoTypeOff
  typeDiscrimReadAt := cfg.il2cppTypeDiscrimReadAt
  discrimShift := cfg.discrimShift

/-- The internals once the worker has stored this configuration. -/
def Image.internals (image : Image) (cfg : Il2CppConfig) : Internals :=
  ⟨some cfg.signatureConfig, image.validateRead⟩

/-- The configuration as it is when Phase 4 runs. -/
def configBeforePhase4 (image : Image) (classGetFields : Option (ℕ → ℕ)) : Il2CppConfig :=
  let others := layoutProbes image classGetFields
  phase3 others (phase2 image (phase1 others fallbackConstants))

theorem probedConfig_eq_phase4 (image : Image) (classGetFields : Option (ℕ → ℕ)) :
    probedConfig image classGetFields =
      phase4 (layoutProbes image classGetFields) (configBeforePhase4 image classGetFields) :=
  rfl

section Decoding

variable (image : Image) (cfg : Il2CppConfig)

/-- `probe_param_info` with the offsets of a configuration. -/
def probeParamInfoWith : ProbeOutcome × ProbeOutcome :=
  probeParamInfo image cfg.klassTypeDef cfg.il2cppTypeDiscrimReadAt cfg.discrimShift
    cfg.methodParametersOff

/-- The type pointer of a parameter of `PadLeft` under a pair; zero when it cannot be
read. -/
def paramType (pair : ℕ × ℕ) (idx : ℕ) : ℕ :=
  (image.mapRead 8
    (paramsBase image cfg.methodParametersOff + idx * pair.1 + pair.2)).getD 0

/-- A parameter of `PadLeft` has this type code under a pair. -/
def HasTypeCode (pair : ℕ × ℕ) (idx tc : ℕ) : Prop :=
  paramType image cfg pair idx ≠ 0 ∧
    paramTc image cfg.klassTypeDef cfg.il2cppTypeDiscrimReadAt cfg.discrimShift
      (paramType image cfg pair idx) = some tc

instance (pair : ℕ × ℕ) (idx tc : ℕ) : Decidable (HasTypeCode image cfg pair idx tc) :=
  inferInstanceAs (Decidable (_ ∧ _))

/-- Under this pair the parameters of `PadLeft` decode as an `Int32` and a `Char`. -/
def Decodes (pair : ℕ × ℕ) : Prop :=
  HasTypeCode image cfg pair 0 0x08 ∧ HasTypeCode image cfg pair 1 0x03

instance (pair : ℕ × ℕ) : Decidable (Decodes image cfg pair) :=
  inferInstanceAs (Decidable (_ ∧ _))

/-- The pair that the outcomes of Phase 4 report. -/
def foundPair : Option (ℕ × ℕ) :=
  match (probeParamInfoWith image cfg).1.winningOffset,
    (probeParamInfoWith image cfg).2.winningOffset with
  | some stride, some typeOff => some (stride, typeOff)
  | _, _ => none

/-- The fallback pair decodes, and none that is tried before it does. -/
def FallbackFirst : Prop :=
  Decodes image cfg (0x18, 0x00) ∧
    ∀ stride ∈ [0x08, 0x10], ∀ typeOff ∈ typeOffCandidates,
      ¬ Decodes image cfg (stride, typeOff)

instance : Decidable (FallbackFirst image cfg) := inferInstanceAs (Decidable (_ ∧ _))

/-- The region cache accepts what the region map lists, and the flags of the method. -/
structure CacheCovers (method : ℕ) : Prop where
  map : ∀ address width, image.inRegion address width = true →
    image.validateRead address width = true
  flags : image.validateRead (wrap (method + cfg.methodFlagsOff)) 4 = true

/-- The pair is in the configuration, with which `read_signature` then reads the parameter
types of `PadLeft` as they are. -/
structure TakesEffect (pair : ℕ × ℕ) : Prop where
  size : cfg.paramInfoSize = pair.1
  typeOff : cfg.paramInfoTypeOff = pair.2
  signature : CacheCovers image cfg (padLeftAnchor image) →
    ∃ sig, readSignature (image.internals cfg) image.memory (padLeftAnchor image) = .ok sig ∧
      sig.paramTypes = [.i32, .u16]

end Decoding

/-! ## The search for the pair -/

section Search

variable {image : Image} {cfg : Il2CppConfig} {pair : ℕ × ℕ}

/-- A value other than the default was there. -/
theorem getD_zero_eq_iff {value : Option ℕ} {expected : ℕ} (hexpected : expected ≠ 0) :
    value.getD 0 = expected ↔ value = some expected := by
  cases value with
  | none => simpa using hexpected.symm
  | some found => simp

/-- A pair has a score when it decodes both parameters, and then it is two. -/
theorem paramScore_eq_some {count : ℕ} :
    paramScore image cfg.klassTypeDef cfg.il2cppTypeDiscrimReadAt cfg.discrimShift
        cfg.methodParametersOff pair = some count ↔
      Decodes image cfg pair ∧ count = 2 := by
  have hfirst : paramsBase image cfg.methodParametersOff + 0 * pair.1 + pair.2 =
      paramsBase image cfg.methodParametersOff + 0 + pair.2 := by rw [Nat.zero_mul]
  have hsecond : paramsBase image cfg.methodParametersOff + 1 * pair.1 + pair.2 =
      paramsBase image cfg.methodParametersOff + pair.1 + pair.2 := by rw [Nat.one_mul]
  unfold paramScore
  dsimp only
  rw [Decodes, HasTypeCode, HasTypeCode, paramType, paramType, hfirst, hsecond]
  generalize (image.mapRead 8
    (paramsBase image cfg.methodParametersOff + 0 + pair.2)).getD 0 = p0Type
  generalize (image.mapRead 8
    (paramsBase image cfg.methodParametersOff + pair.1 + pair.2)).getD 0 = p1Type
  rw [← getD_zero_eq_iff (by decide : (0x08 : ℕ) ≠ 0),
    ← getD_zero_eq_iff (by decide : (0x03 : ℕ) ≠ 0)]
  by_cases hnull : p0Type = 0 ∨ p1Type = 0
  · rw [if_pos hnull]
    simp only [reduceCtorEq, false_iff]
    rintro ⟨⟨⟨hp0, -⟩, hp1, -⟩, -⟩
    exact hnull.elim hp0 hp1
  · rw [if_neg hnull]
    obtain ⟨hp0, hp1⟩ := not_or.mp hnull
    simp only [hp0, hp1, ne_eq, not_false_eq_true, true_and]
    split_ifs <;> simp_all [eq_comm]

/-- Phase 4 finds the first pair that decodes, if `PadLeft` has parameters at all. -/
theorem foundPair_eq_some (hfound : foundPair image cfg = some pair) :
    padLeftAnchor image ≠ 0 ∧ paramsBase image cfg.methodParametersOff ≠ 0 ∧
      (strideCandidates ×ˢ typeOffCandidates).find? (fun pair => Decodes image cfg pair) =
        some pair := by
  rw [foundPair, probeParamInfoWith, probeParamInfo] at hfound
  by_cases hnone : padLeftAnchor image = 0 ∨ paramsBase image cfg.methodParametersOff = 0
  · rw [if_pos hnone] at hfound
    cases hfound
  · rw [if_neg hnone] at hfound
    obtain ⟨hpadLeft, hbase⟩ := not_or.mp hnone
    refine ⟨hpadLeft, hbase, ?_⟩
    have hscore : ∀ pair : ℕ × ℕ,
        (paramScore image cfg.klassTypeDef cfg.il2cppTypeDiscrimReadAt cfg.discrimShift
          cfg.methodParametersOff pair).isSome = decide (Decodes image cfg pair) := by
      intro pair
      rw [Bool.eq_iff_iff, Option.isSome_iff_exists, decide_eq_true_iff]
      simp only [paramScore_eq_some, exists_eq_right]
    have hconst : ∀ pair ∈ strideCandidates ×ˢ typeOffCandidates, ∀ count,
        paramScore image cfg.klassTypeDef cfg.il2cppTypeDiscrimReadAt cfg.discrimShift
          cfg.methodParametersOff pair = some count → count = 2 :=
      fun _ _ _ hcount => (paramScore_eq_some.mp hcount).2
    rw [best_of_const hconst] at hfound
    simp only [hscore] at hfound
    cases hfind : (strideCandidates ×ˢ typeOffCandidates).find?
        fun pair => Decodes image cfg pair with
    | none =>
        rw [hfind] at hfound
        cases hfound
    | some first =>
        rw [hfind] at hfound
        exact hfound

/-- The pairs in the order in which they are tried. -/
theorem pairs_eq :
    strideCandidates ×ˢ typeOffCandidates =
      [0x08, 0x10] ×ˢ typeOffCandidates ++
        (0x18, 0x00) :: ([0x18] ×ˢ [0x08, 0x10, 0x18] ++ [0x20, 0x28] ×ˢ typeOffCandidates) :=
  rfl

/-- The pair found is the fallback pair exactly when that decodes first. -/
theorem fallbackFirst_iff
    (hfind : (strideCandidates ×ˢ typeOffCandidates).find?
      (fun pair => Decodes image cfg pair) = some pair) :
    FallbackFirst image cfg ↔ pair = (0x18, 0x00) := by
  rw [pairs_eq, List.find?_append] at hfind
  constructor
  · rintro ⟨hdecodes, hbefore⟩
    have hnone : ([0x08, 0x10] ×ˢ typeOffCandidates).find?
        (fun pair => Decodes image cfg pair) = none := by
      rw [List.find?_eq_none]
      rintro ⟨stride, typeOff⟩ hmem
      obtain ⟨hstride, htypeOff⟩ := List.mem_product.mp hmem
      simpa using hbefore stride hstride typeOff htypeOff
    rw [hnone, Option.none_or, List.find?_cons, decide_eq_true hdecodes] at hfind
    exact (Option.some.inj hfind).symm
  · rintro rfl
    have hnone : ([0x08, 0x10] ×ˢ typeOffCandidates).find?
        (fun pair => Decodes image cfg pair) = none := by
      cases hbefore : ([0x08, 0x10] ×ˢ typeOffCandidates).find?
          fun pair => Decodes image cfg pair with
      | none => rfl
      | some first =>
          -- A pair that decodes earlier would have been found, and its stride is less.
          rw [hbefore, Option.some_or] at hfind
          cases hfind
          have hmem := List.mem_of_find?_eq_some hbefore
          exact absurd hmem (by decide)
    refine ⟨?_, ?_⟩
    · rw [hnone, Option.none_or] at hfind
      have hfirst := List.find?_some hfind
      exact of_decide_eq_true hfirst
    · intro stride hstride typeOff htypeOff hdecodes
      have hnot := List.find?_eq_none.mp hnone (stride, typeOff)
        (List.mem_product.mpr ⟨hstride, htypeOff⟩)
      exact hnot (decide_eq_true hdecodes)

end Search

/-! ## Reading the signature back -/

section Signature

variable {image : Image} {cfg : Il2CppConfig}

theorem CacheCovers.cacheRead_eq_some {method width address value : ℕ}
    (hcovers : CacheCovers image cfg method)
    (hread : image.mapRead width address = some value) :
    image.cacheRead width address = some value := by
  rw [Image.mapRead, readWord] at hread
  split at hread
  · next hregion =>
      rw [Image.cacheRead, readWord, if_pos (hcovers.map _ _ hregion)]
      exact hread
  · cases hread

/-- A method the walk finds has the number of parameters asked for. -/
theorem methodWalk_count {klass argc methods remaining idx method : ℕ} {name : String}
    (hwalk : methodWalk image cfg klass name argc methods remaining idx = method)
    (hmethod : method ≠ 0) :
    (image.cacheRead 1 (method + cfg.methodParamCountOff)).getD 0 = argc := by
  induction remaining generalizing idx with
  | zero => exact absurd hwalk.symm hmethod
  | succ remaining ih =>
      rw [methodWalk] at hwalk
      split at hwalk
      · exact absurd hwalk.symm hmethod
      · exact absurd hwalk.symm hmethod
      · split at hwalk
        · exact absurd hwalk.symm hmethod
        · dsimp only at hwalk
          split at hwalk
          · next hfound =>
              rw [← hwalk]
              exact hfound.2.2
          · exact ih hwalk

theorem padLeftAnchor_count (hpadLeft : padLeftAnchor image ≠ 0) :
    image.cacheRead 1 (padLeftAnchor image + fallbackConstants.methodParamCountOff) =
      some 2 := by
  have hstring : localFindClass image "System::String" ≠ 0 := by
    intro hzero
    apply hpadLeft
    rw [padLeftAnchor]
    exact if_neg (not_not_intro hzero)
  have hanchor : padLeftAnchor image = localFindMethod image fallbackConstants
      (localFindClass image "System::String") "PadLeft" 2 := if_pos hstring
  rw [localFindMethod] at hanchor
  split at hanchor
  · exact absurd hanchor hpadLeft
  · exact (getD_zero_eq_iff (by decide)).mp (methodWalk_count hanchor.symm hpadLeft)

theorem anchorMethods_padLeft {pow padLeft : ℕ}
    (hanchors : anchorMethods image = some (pow, padLeft)) :
    padLeft = padLeftAnchor image := by
  have hsome := (Option.ite_none_left_eq_some.mp hanchors).2
  exact (congrArg Prod.snd (Option.some.inj hsome)).symm

/-- Where the probe overrides the offset of the parameter count, it read two there. -/
theorem paramCount_of_winner {offset : ℕ}
    (hwinner : (probeMethodParamCountOff image).winningOffset = some offset) :
    image.mapRead 1 (padLeftAnchor image + offset) = some 2 := by
  rw [probeMethodParamCountOff, probeMethodField] at hwinner
  cases hanchors : anchorMethods image with
  | none =>
      rw [hanchors] at hwinner
      cases hwinner
  | some methods =>
      obtain ⟨pow, padLeft⟩ := methods
      rw [hanchors] at hwinner
      dsimp only at hwinner
      cases hpick : pickOffsetByConsensus paramCountCandidates [(pow, 2), (padLeft, 2)]
          (extractParamCount image) minRatio with
      | none =>
          rw [hpick] at hwinner
          cases hwinner
      | some picked =>
          rw [hpick] at hwinner
          cases hwinner
          have hclears := clears_pair_iff.mp (pick_eq_some hpick).2
          rw [← anchorMethods_padLeft hanchors]
          exact hclears.2

theorem paramCount_read (classGetFields : Option (ℕ → ℕ))
    (hpadLeft : padLeftAnchor image ≠ 0)
    (hcovers : CacheCovers image (probedConfig image classGetFields) (padLeftAnchor image)) :
    image.cacheRead 1 (padLeftAnchor image +
      (probedConfig image classGetFields).methodParamCountOff) = some 2 := by
  have hgated : Gated 2 0x52 paramCountCandidates (probeMethodParamCountOff image)
      (probedConfig image classGetFields).methodParamCountOff :=
    gated_applyOffset (winsIn_probeMethodField _ _ _ _ _ _) 2 0x52
  rcases hgated with hfallback | ⟨hwinner, -, -⟩
  · rw [hfallback]
    exact padLeftAnchor_count hpadLeft
  · exact hcovers.cacheRead_eq_some (paramCount_of_winner hwinner)

/-- A parameter that decodes under the pair of the configuration is read with its code. -/
theorem readParamType_of_hasTypeCode {method idx tc : ℕ}
    (hcovers : CacheCovers image cfg method)
    (htype : HasTypeCode image cfg (cfg.paramInfoSize, cfg.paramInfoTypeOff) idx tc) :
    readParamType (image.internals cfg) cfg.signatureConfig image.memory
        (paramsBase image cfg.methodParametersOff) idx =
      (valtypeFromTc (UInt8.ofNat tc)).getD .u64 := by
  obtain ⟨hptr, htc⟩ := htype
  have hcache : cacheRead (image.internals cfg) image.memory 8
      (paramsBase image cfg.methodParametersOff + idx * cfg.paramInfoSize +
        cfg.paramInfoTypeOff) =
      some (paramType image cfg (cfg.paramInfoSize, cfg.paramInfoTypeOff) idx) :=
    hcovers.cacheRead_eq_some ((getD_zero_eq_iff hptr).mp rfl)
  have hcode : readTypeCode (image.internals cfg) cfg.signatureConfig image.memory
      (paramType image cfg (cfg.paramInfoSize, cfg.paramInfoTypeOff) idx) =
      UInt8.ofNat tc := by
    rw [paramTc] at htc
    obtain ⟨-, -, hrest⟩ := Option.bind_eq_some_iff.mp htc
    obtain ⟨chunk, hchunk, hsome⟩ := Option.bind_eq_some_iff.mp hrest
    have hcached : cacheRead (image.internals cfg) image.memory 8
        (paramType image cfg (cfg.paramInfoSize, cfg.paramInfoTypeOff) idx +
          cfg.il2cppTypeDiscrimReadAt) = some chunk := hcovers.cacheRead_eq_some hchunk
    rw [← Option.some.inj hsome, UInt8.ofNat_mod_size, readTypeCode]
    exact congrArg (fun read => UInt8.ofNat (Option.getD read 0 >>> cfg.discrimShift)) hcached
  have htypePtr := congrArg (fun read => Option.getD read 0) hcache
  rw [Option.getD_some] at htypePtr
  rw [← hcode, ← htypePtr]
  rfl

theorem signature_of_decodes (classGetFields : Option (ℕ → ℕ))
    (hcfg : cfg = probedConfig image classGetFields)
    (hpadLeft : padLeftAnchor image ≠ 0)
    (hbase : paramsBase image cfg.methodParametersOff ≠ 0)
    (hdecodes : Decodes image cfg (cfg.paramInfoSize, cfg.paramInfoTypeOff))
    (hcovers : CacheCovers image cfg (padLeftAnchor image)) :
    ∃ sig, readSignature (image.internals cfg) image.memory (padLeftAnchor image) = .ok sig ∧
      sig.paramTypes = [.i32, .u16] := by
  have hcount : image.cacheRead 1 (padLeftAnchor image + cfg.methodParamCountOff) =
      some 2 := by
    rw [hcfg] at hcovers ⊢
    exact paramCount_read classGetFields hpadLeft hcovers
  have hparams : image.cacheRead 8 (padLeftAnchor image + cfg.methodParametersOff) =
      some (paramsBase image cfg.methodParametersOff) :=
    hcovers.cacheRead_eq_some ((getD_zero_eq_iff hbase).mp rfl)
  have hflags : image.cacheRead 4 (padLeftAnchor image + cfg.methodFlagsOff) = some _ :=
    if_pos hcovers.flags
  obtain ⟨sig, hsig, htypes⟩ :=
    @readSignature_of_reads (image.internals cfg) _ _ _ _ _ _ rfl hflags hcount hparams
  refine ⟨sig, hsig, ?_⟩
  calc
    sig.paramTypes =
        [readParamType (image.internals cfg) cfg.signatureConfig image.memory
            (paramsBase image cfg.methodParametersOff) 0,
          readParamType (image.internals cfg) cfg.signatureConfig image.memory
            (paramsBase image cfg.methodParametersOff) 1] := htypes
    _ = [.i32, .u16] := by
      rw [readParamType_of_hasTypeCode hcovers hdecodes.1,
        readParamType_of_hasTypeCode hcovers hdecodes.2]
      rfl

end Signature

/-- The gate asks for more anchors than `PadLeft` has parameters. -/
theorem applyOffset_paramInfo (image : Image) (cfg : Il2CppConfig) (size typeOff : ℕ) :
    applyOffset size (probeParamInfoWith image cfg).1 = size ∧
      applyOffset typeOff (probeParamInfoWith image cfg).2 = typeOff := by
  rw [probeParamInfoWith, probeParamInfo]
  split
  · exact ⟨rfl, rfl⟩
  · simp only [applyOffset_outcomeOf]
    exact ⟨rfl, rfl⟩

/-- The layout of parameters is never overridden. -/
theorem probedConfig_paramInfo (image : Image) (classGetFields : Option (ℕ → ℕ)) :
    (probedConfig image classGetFields).paramInfoSize = 0x18 ∧
      (probedConfig image classGetFields).paramInfoTypeOff = 0x00 := by
  rw [probedConfig_eq_phase4]
  exact applyOffset_paramInfo image (configBeforePhase4 image classGetFields) 0x18 0x00

/-! ## A process for a stride -/

/-- A process with the class `System::String` and its method `PadLeft`, page by page, whose
parameters lie this far apart. -/
def paramPage (stride page : ℕ) : List (ℕ × ℕ) :=
  bif page.beq 1 then [(0x0, 0x2000)]
  else bif page.beq 2 then [(0x0, 0x3000), (0x98, 0x4000)]
  -- The image, with the file name `m.dll`.
  else bif page.beq 3 then [(0x0, 0x3100), (0x100, 0x6C6C642E6D)]
  else bif page.beq 4 then [(0x0, 0x5000)]
  else bif page.beq 5 then
    [(0x18, 0x6000), (0x20, 0x2000), (0x30, 0x7000), (0x50, 2 <<< 16)]
  else bif page.beq 6 then [(0x0, padLeftName)]
  else bif page.beq 7 then [(0x0, 0x8000), (stride, 0x9000)]
  -- The types `Int32` and `Char`.
  else bif page.beq 8 then [(0x8, 0x08 <<< 16)]
  else bif page.beq 9 then [(0x8, 0x03 <<< 16)]
  else []

def paramImage (stride : ℕ) : Image where
  memory := fun address =>
    let word := wordAt (paramPage stride (address / 0x1000)) (address % 0x1000 / 8 * 8)
    UInt8.ofNat (word >>> (8 * (address % 8)))
  validateRead := fun _ _ => true
  inRegion := fun _ _ => true
  isExecutable := fun _ => false
  classGetName := fun _ => "String"
  classGetNamespace := fun _ => "System"
  tableBase := 0x1000
  tableCount := 1

/-- One class is too few for any probe to override anything. -/
theorem configBeforePhase4_paramImage (stride : ℕ) (hstride : stride ∈ [0x10, 0x18]) :
    configBeforePhase4 (paramImage stride) none = fallbackConstants := by
  revert stride
  decide +kernel

theorem foundPair_paramImage (stride : ℕ) (hstride : stride ∈ [0x10, 0x18]) :
    foundPair (paramImage stride) (configBeforePhase4 (paramImage stride) none) =
      some (stride, 0x00) := by
  rw [configBeforePhase4_paramImage stride hstride]
  revert stride
  decide +kernel

/-! ## When a pair takes effect -/

/-- A pair that Phase 4 finds takes effect exactly when the fallback pair decodes, and no
pair that is tried before it does. -/
theorem paramLayout_takesEffect_iff (image : Image) (classGetFields : Option (ℕ → ℕ))
    {pair : ℕ × ℕ}
    (hfound : foundPair image (configBeforePhase4 image classGetFields) = some pair) :
    TakesEffect image (probedConfig image classGetFields) pair ↔
      FallbackFirst image (configBeforePhase4 image classGetFields) := by
  obtain ⟨hpadLeft, hbase, hfind⟩ := foundPair_eq_some hfound
  obtain ⟨hsize, htypeOff⟩ := probedConfig_paramInfo image classGetFields
  rw [fallbackFirst_iff hfind]
  constructor
  · intro htakes
    exact Prod.ext (htakes.size.symm.trans hsize) (htakes.typeOff.symm.trans htypeOff)
  · rintro rfl
    refine ⟨hsize, htypeOff, ?_⟩
    intro hcovers
    -- Phase 4 leaves alone what decoding depends on.
    have hdecodes : Decodes image (probedConfig image classGetFields) (0x18, 0x00) := by
      have hfirst := List.find?_some hfind
      exact of_decide_eq_true hfirst
    rw [← hsize, ← htypeOff] at hdecodes
    exact signature_of_decodes classGetFields rfl hpadLeft hbase hdecodes hcovers

theorem paramLayout_takesEffect_sample :
    TakesEffect (paramImage 0x18) (probedConfig (paramImage 0x18) none) (0x18, 0x00) := by
  have hstride : 0x18 ∈ [0x10, 0x18] := by decide
  apply (paramLayout_takesEffect_iff _ _ (foundPair_paramImage _ hstride)).mpr
  rw [configBeforePhase4_paramImage _ hstride]
  decide +kernel

/-- Where the parameters lie sixteen bytes apart, the pair is found and not applied. -/
theorem not_paramLayout_takesEffect :
    ¬ ∀ image classGetFields pair,
      foundPair image (configBeforePhase4 image classGetFields) = some pair →
        TakesEffect image (probedConfig image classGetFields) pair := by
  intro htakes
  have hfound := foundPair_paramImage 0x10 (by decide)
  have hsize := (htakes _ _ _ hfound).size
  rw [(probedConfig_paramInfo _ _).1] at hsize
  exact absurd hsize (by decide)

end FrogAgent.Calibration
