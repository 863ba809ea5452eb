import FrogAgent.Internals.LayoutProbes

/-!
# The configuration calibration returns

Every field keeps its fallback constant or is the winner of its own probe, which had anchors
enough.  The fields that are used together, the recipe for type codes and the value-type
bit, are both the fallback's or both of one candidate.
-/

namespace FrogAgent.Calibration

open FrogAgent.BestScore (best best_eq_some)
open FrogAgent.Consensus

/-- A field that is its fallback constant, unless the outcome of its probe has a winner
among the candidates, and anchors enough. -/
def Gated (minAnchors fallback : ℕ) (candidates : List ℕ) (outcome : ProbeOutcome)
    (field : ℕ) : Prop :=
  field = fallback ∨
    outcome.winningOffset = some field ∧ field ∈ candidates ∧
      minAnchors ≤ outcome.anchorCount

/-- The recipe for type codes is the fallback's, or one that gives nine tenths of three
known types or more the type codes they have. -/
def DiscrimCoherent (image : Image) (cfg : Il2CppConfig) : Prop :=
  let recipe := (cfg.il2cppTypeDiscrimReadAt, cfg.discrimShift)
  let anchors := typeAnchors image
  recipe = (0x08, 16) ∨
    recipe ∈ readCandidates ×ˢ shiftCandidates ∧ 3 ≤ anchors.length ∧
      90 * anchors.length ≤ 100 * anchors.countP fun anchor =>
        discrimTc image cfg.klassTypeDef recipe anchor.1 = some anchor.2

/-- The value-type bit is the fallback's, or one that is set in four value types or more
and clear in three reference types or more, with no exception among those found. -/
def ValuetypeCoherent (image : Image) (cfg : Il2CppConfig) : Prop :=
  let place := (cfg.klassValuetypeOff, cfg.klassValuetypeBit)
  place = (0x2B, 0x80) ∨
    place ∈ valuetypeCandidates ∧
      4 ≤ (valueTypes image).length ∧ 3 ≤ (referenceTypes image).length ∧
      (∀ klass ∈ valueTypes image,
        ∃ byte, image.mapRead 1 (klass + place.1) = some byte ∧ byte &&& place.2 ≠ 0) ∧
      ∀ klass ∈ referenceTypes image,
        ∃ byte, image.mapRead 1 (klass + place.1) = some byte ∧ byte &&& place.2 = 0

/-- What calibration guarantees of the configuration it returns. -/
structure Calibrated (image : Image) (classGetFields : Option (ℕ → ℕ))
    (cfg : Il2CppConfig) : Prop where
  -- Two fields have no probe.
  classTableStep : cfg.classTableStep = 8
  klassGenericClass : cfg.klassGenericClass = 0x48
  klassNamespace :
    Gated 3 0x18 klassNamespaceCandidates (probeKlassNamespace image) cfg.klassNamespace
  klassTypeDef :
    Gated 3 0x20 klassTypeDefCandidates (probeKlassTypeDef image) cfg.klassTypeDef
  klassFields :
    Gated 3 0x80 klassFieldsCandidates (probeKlassFields image classGetFields)
      cfg.klassFields
  klassMethods :
    Gated 3 0x98 klassMethodsCandidates (probeKlassMethods image) cfg.klassMethods
  klassStaticFields :
    Gated 3 0xB8 klassStaticFieldsCandidates (probeKlassStaticFields image)
      cfg.klassStaticFields
  klassValuetypeOff :
    Gated 3 0x2B (List.range 0x200) (probeKlassValuetype image).1 cfg.klassValuetypeOff
  klassValuetypeBit :
    cfg.klassValuetypeBit = 0x80 ∨
      (probeKlassValuetype image).2 = some cfg.klassValuetypeBit ∧
        cfg.klassValuetypeBit ∈ (List.range 8).map (fun bit => 1 <<< bit) ∧
        3 ≤ (probeKlassValuetype image).1.anchorCount
  methodPointerOff :
    Gated 2 0x08 [0x00, 0x08, 0x10] (probeMethodPointerOff image) cfg.methodPointerOff
  methodNameOff : Gated 2 0x18 nameCandidates (probeMethodNameOff image) cfg.methodNameOff
  methodKlassOff :
    Gated 2 0x20 klassCandidates (probeMethodKlassOff image) cfg.methodKlassOff
  methodFlagsOff :
    Gated 2 0x4C [0x40, 0x44, 0x48, 0x4C, 0x50] (probeMethodFlagsOff image)
      cfg.methodFlagsOff
  methodParametersOff :
    Gated 2 0x30 [0x28, 0x30, 0x38] (probeMethodParametersOff image)
      cfg.methodParametersOff
  methodReturnTypeOff :
    Gated 2 0x28 [0x20, 0x28, 0x30] (probeMethodReturnTypeOff image)
      cfg.methodReturnTypeOff
  methodParamCountOff :
    Gated 2 0x52 paramCountCandidates (probeMethodParamCountOff image)
      cfg.methodParamCountOff
  il2cppTypeDiscrimReadAt :
    Gated 3 0x08 readCandidates (probeTypeDiscrim image cfg.klassTypeDef).1
      cfg.il2cppTypeDiscrimReadAt
  discrimShift :
    Gated 3 16 shiftCandidates (probeTypeDiscrim image cfg.klassTypeDef).2
      cfg.discrimShift
  paramInfoSize :
    Gated 3 0x18 strideCandidates
      (probeParamInfo image cfg.klassTypeDef cfg.il2cppTypeDiscrimReadAt cfg.discrimShift
        cfg.methodParametersOff).1 cfg.paramInfoSize
  paramInfoTypeOff :
    Gated 3 0x00 typeOffCandidates
      (probeParamInfo image cfg.klassTypeDef cfg.il2cppTypeDiscrimReadAt cfg.discrimShift
        cfg.methodParametersOff).2 cfg.paramInfoTypeOff
  discrim : DiscrimCoherent image cfg
  valuetype : ValuetypeCoherent image cfg

/-! ## Winners are candidates -/

/-- Whatever the outcome has as its winner is one of the candidates. -/
def ProbeOutcome.WinsIn (outcome : ProbeOutcome) (candidates : List ℕ) : Prop :=
  ∀ offset, outcome.winningOffset = some offset → offset ∈ candidates

theorem gated_applyOffset {outcome : ProbeOutcome} {candidates : List ℕ}
    (hwins : outcome.WinsIn candidates) (minAnchors fallback : ℕ) :
    Gated minAnchors fallback candidates outcome
      (applyOffsetWithThreshold fallback outcome minAnchors) := by
  unfold applyOffsetWithThreshold
  cases hwinner : outcome.winningOffset with
  | none => exact Or.inl rfl
  | some offset =>
      by_cases hfew : outcome.anchorCount < minAnchors
      · left
        exact if_pos hfew
      · right
        simp only [if_neg hfew]
        exact ⟨hwinner, hwins offset hwinner, Nat.le_of_not_lt hfew⟩

theorem winsIn_none (name : String) (count total : ℕ) (tried candidates : List ℕ) :
    (⟨name, none, count, total, true, tried⟩ : ProbeOutcome).WinsIn candidates := by
  intro offset hwinner
  cases hwinner

theorem winsIn_finalize {Subject Value : Type*} [DecidableEq Value] (name : String)
    (candidates : List ℕ) (anchors : List (Subject × Value))
    (extract : Subject → ℕ → Option Value) (ratio total : ℕ) :
    (finalize name (pickOffsetByConsensus candidates anchors extract ratio) total
      candidates).WinsIn candidates := by
  intro offset hwinner
  cases hpick : pickOffsetByConsensus candidates anchors extract ratio with
  | none =>
      rw [hpick] at hwinner
      cases hwinner
  | some picked =>
      rw [hpick] at hwinner
      cases hwinner
      exact (pick_eq_some hpick).1

theorem winsIn_probeKlassField {Truth : Type} [DecidableEq Truth] (image : Image)
    (name : String) (candidates : List ℕ) (ratio : ℕ) (extractTruth : ℕ → Option Truth)
    (extract : ℕ → ℕ → Option Truth) :
    (probeKlassField image name candidates ratio extractTruth extract).WinsIn candidates :=
  winsIn_finalize _ _ _ _ _ _

theorem winsIn_probeMethodField {Value : Type*} [DecidableEq Value] (image : Image)
    (name : String) (powValue padLeftValue : Value) (candidates : List ℕ)
    (extract : ℕ → ℕ → Option Value) :
    (probeMethodField image name powValue padLeftValue candidates extract).WinsIn
      candidates := by
  unfold probeMethodField
  cases anchorMethods image with
  | none => exact winsIn_none _ _ _ _ _
  | some methods => exact winsIn_finalize _ _ _ _ _ _

theorem winsIn_outcomeOf {name : String} {result : Option (ℕ × ℕ)} {total : ℕ}
    {tried candidates : List ℕ}
    (hresult : ∀ found, result = some found → found.1 ∈ candidates) :
    (outcomeOf name result total tried).WinsIn candidates := by
  intro offset hwinner
  cases result with
  | none => cases hwinner
  | some found =>
      cases hwinner
      exact hresult found rfl

/-- A half of the best pair is one of the candidates for that half. -/
theorem winsIn_half {Pair : Type*} {score : Pair → Option ℕ} {pairs : List Pair}
    {half : Pair → ℕ} {name : String} {total : ℕ} {tried candidates : List ℕ}
    (hhalf : ∀ pair ∈ pairs, half pair ∈ candidates) :
    (outcomeOf name ((best score pairs).map fun found => (half found.1, found.2)) total
      tried).WinsIn candidates := by
  apply winsIn_outcomeOf
  intro found hfound
  obtain ⟨pair, hpair, rfl⟩ := Option.map_eq_some_iff.mp hfound
  exact hhalf pair.1 (best_eq_some hpair).1

section Outcomes

variable (image : Image)

theorem winsIn_klassTypeDef : (probeKlassTypeDef image).WinsIn klassTypeDefCandidates :=
  winsIn_outcomeOf fun _ hfound => (best_eq_some hfound).1

theorem winsIn_typeDiscrim (klassTypeDef : ℕ) :
    (probeTypeDiscrim image klassTypeDef).1.WinsIn readCandidates ∧
      (probeTypeDiscrim image klassTypeDef).2.WinsIn shiftCandidates :=
  ⟨winsIn_half fun _ hpair => (List.mem_product.mp hpair).1,
    winsIn_half fun _ hpair => (List.mem_product.mp hpair).2⟩

theorem winsIn_paramInfo (klassTypeDef discrimReadAt discrimShift parametersOff : ℕ) :
    let outcomes := probeParamInfo image klassTypeDef discrimReadAt discrimShift parametersOff
    outcomes.1.WinsIn strideCandidates ∧ outcomes.2.WinsIn typeOffCandidates := by
  unfold probeParamInfo
  split
  · exact ⟨winsIn_none _ _ _ _ _, winsIn_none _ _ _ _ _⟩
  · exact ⟨winsIn_half fun _ hpair => (List.mem_product.mp hpair).1,
      winsIn_half fun _ hpair => (List.mem_product.mp hpair).2⟩

end Outcomes

/-! ## Coupled fields -/

/-- With fewer than three anchors nothing overrides the fallback. -/
theorem applyOffset_outcomeOf (fallback : ℕ) (name : String) (result : Option (ℕ × ℕ))
    (total : ℕ) (tried : List ℕ) :
    applyOffset fallback (outcomeOf name result total tried) =
      if total < 3 then fallback else (result.map Prod.fst).getD fallback := by
  cases result with
  | none => exact (ite_self fallback).symm
  | some found => rfl

section Coupled

variable (image : Image)

theorem discrimScore_eq_some {klassTypeDef count : ℕ} {recipe : ℕ × ℕ}
    (hscore : discrimScore image klassTypeDef recipe = some count) :
    minRatio * (typeAnchors image).length ≤
      100 * discrimMatches image klassTypeDef recipe := by
  rw [discrimScore] at hscore
  split at hscore
  · next hclears => exact hclears.2
  · cases hscore

/-- A shift among the candidates fits in a byte. -/
theorem shift_mod {shift : ℕ} (hshift : shift ∈ shiftCandidates) : shift % 256 = shift := by
  revert shift
  decide

theorem discrimShift_gated (klassTypeDef : ℕ) :
    Gated 3 16 shiftCandidates (probeTypeDiscrim image klassTypeDef).2
      (applyOffset 16 (probeTypeDiscrim image klassTypeDef).2 % 256) := by
  have hgated : Gated 3 16 shiftCandidates (probeTypeDiscrim image klassTypeDef).2
      (applyOffset 16 (probeTypeDiscrim image klassTypeDef).2) :=
    gated_applyOffset (winsIn_typeDiscrim image klassTypeDef).2 3 16
  rcases hgated with hfallback | hwinner
  · rw [hfallback]
    exact Or.inl rfl
  · rw [shift_mod hwinner.2.1]
    exact Or.inr hwinner

/-- Both halves of the recipe come from one pair, since both outcomes have a winner or
neither has, and the same anchors. -/
theorem discrimCoherent_probe (cfg : Il2CppConfig)
    (hread : cfg.il2cppTypeDiscrimReadAt =
      applyOffset 0x08 (probeTypeDiscrim image cfg.klassTypeDef).1)
    (hshift : cfg.discrimShift =
      applyOffset 16 (probeTypeDiscrim image cfg.klassTypeDef).2 % 256) :
    DiscrimCoherent image cfg := by
  rw [probeTypeDiscrim, applyOffset_outcomeOf] at hread hshift
  unfold DiscrimCoherent
  rw [hread, hshift]
  by_cases hfew : (typeAnchors image).length < 3
  · left
    simp only [if_pos hfew]
  · simp only [if_neg hfew]
    cases hbest : best (discrimScore image cfg.klassTypeDef)
        (readCandidates ×ˢ shiftCandidates) with
    | none => exact Or.inl rfl
    | some found =>
        right
        obtain ⟨⟨read, shift⟩, count⟩ := found
        obtain ⟨hmem, hscore⟩ := best_eq_some hbest
        have hsame : shift % 256 = shift := shift_mod (List.mem_product.mp hmem).2
        simp only [Option.map_some, Option.getD_some, hsame]
        exact ⟨hmem, Nat.le_of_not_lt hfew, discrimScore_eq_some image hscore⟩

theorem valuetypeScore_eq_some {place : ℕ × ℕ} {count : ℕ}
    (hscore : valuetypeScore image place = some count) :
    (∀ klass ∈ valueTypes image,
        ∃ byte, image.mapRead 1 (klass + place.1) = some byte ∧ byte &&& place.2 ≠ 0) ∧
      ∀ klass ∈ referenceTypes image,
        ∃ byte, image.mapRead 1 (klass + place.1) = some byte ∧ byte &&& place.2 = 0 := by
  unfold valuetypeScore at hscore
  dsimp only at hscore
  split at hscore
  · next htotal =>
      -- Neither count exceeds its number of anchors, so both reach it.
      have hset := @List.countP_le_length _ (fun klass =>
        (image.mapRead 1 (klass + place.1)).any fun byte => byte &&& place.2 ≠ 0)
        (valueTypes image)
      have hclear := @List.countP_le_length _ (fun klass =>
        (image.mapRead 1 (klass + place.1)).any fun byte => byte &&& place.2 = 0)
        (referenceTypes image)
      constructor
      · have hall := List.countP_eq_length.mp (Nat.le_antisymm hset (by omega))
        intro klass hklass
        simpa [Option.any_eq_true] using hall klass hklass
      · have hall := List.countP_eq_length.mp (Nat.le_antisymm hclear (by omega))
        intro klass hklass
        simpa [Option.any_eq_true] using hall klass hklass
  · cases hscore

/-- Without a winner the probe has no bit; with one, both are of one candidate that tells
the anchors apart. -/
theorem probeKlassValuetype_cases :
    (probeKlassValuetype image).1.winningOffset = none ∧
        (probeKlassValuetype image).2 = none ∨
      ∃ place ∈ valuetypeCandidates,
        (probeKlassValuetype image).1.winningOffset = some place.1 ∧
          (probeKlassValuetype image).2 = some place.2 ∧
          (probeKlassValuetype image).1.anchorCount =
            (valueTypes image).length + (referenceTypes image).length ∧
          4 ≤ (valueTypes image).length ∧ 3 ≤ (referenceTypes image).length ∧
          ∃ count, valuetypeScore image place = some count := by
  rw [probeKlassValuetype]
  split
  · exact Or.inl ⟨rfl, rfl⟩
  · next henough =>
      obtain ⟨hvts, hrts⟩ := not_or.mp henough
      dsimp only
      cases hbest : best (valuetypeScore image) valuetypeCandidates with
      | none => exact Or.inl ⟨rfl, rfl⟩
      | some found =>
          right
          obtain ⟨place, count⟩ := found
          obtain ⟨hmem, hscore⟩ := best_eq_some hbest
          exact ⟨place, hmem, rfl, rfl, rfl, Nat.le_of_not_lt hvts, Nat.le_of_not_lt hrts,
            count, hscore⟩

theorem winsIn_klassValuetype :
    (probeKlassValuetype image).1.WinsIn (List.range 0x200) := by
  intro offset hwinner
  rcases probeKlassValuetype_cases image with ⟨hnone, -⟩ | ⟨place, hmem, hplace, -⟩
  · rw [hnone] at hwinner
    cases hwinner
  · rw [hplace] at hwinner
    cases hwinner
    rw [valuetypeCandidates, List.mem_product] at hmem
    exact hmem.1

/-- Four and three anchors are enough for the gate, so it lets both halves pass. -/
theorem valuetypeCoherent_probe (cfg : Il2CppConfig)
    (hoff : cfg.klassValuetypeOff = applyOffset 0x2B (probeKlassValuetype image).1)
    (hbit : cfg.klassValuetypeBit = (probeKlassValuetype image).2.getD 0x80) :
    ValuetypeCoherent image cfg := by
  rw [applyOffset, applyOffsetWithThreshold] at hoff
  unfold ValuetypeCoherent
  rcases probeKlassValuetype_cases image with
    ⟨hnone, hnobit⟩ | ⟨place, hmem, hplace, hmask, htotal, hvts, hrts, count, hscore⟩
  · left
    rw [hoff, hbit, hnone, hnobit]
    rfl
  · right
    have hanchors : ¬ (valueTypes image).length + (referenceTypes image).length <
        minOverrideAnchors := by
      rw [minOverrideAnchors]
      omega
    simp only [hplace, htotal, if_neg hanchors] at hoff
    rw [hmask, Option.getD_some] at hbit
    rw [hoff, hbit]
    obtain ⟨hset, hclear⟩ := valuetypeScore_eq_some image hscore
    exact ⟨hmem, hvts, hrts, hset, hclear⟩

/-- The bit has no gate of its own, but where there is one there are seven anchors. -/
theorem klassValuetypeBit_gated (cfg : Il2CppConfig)
    (hbit : cfg.klassValuetypeBit = (probeKlassValuetype image).2.getD 0x80) :
    cfg.klassValuetypeBit = 0x80 ∨
      (probeKlassValuetype image).2 = some cfg.klassValuetypeBit ∧
        cfg.klassValuetypeBit ∈ (List.range 8).map (fun bit => 1 <<< bit) ∧
        3 ≤ (probeKlassValuetype image).1.anchorCount := by
  rcases probeKlassValuetype_cases image with
    ⟨-, hnobit⟩ | ⟨place, hmem, -, hmask, htotal, hvts, -⟩
  · left
    rw [hbit, hnobit]
    rfl
  · right
    rw [valuetypeCandidates, List.mem_product] at hmem
    rw [hmask, Option.getD_some] at hbit
    rw [hbit, hmask, htotal]
    exact ⟨rfl, hmem.2, by omega⟩

end Coupled

/-- Calibration returns a configuration whose fields are gated and coherent, whatever the
memory holds and whatever the runtime answers. -/
theorem probedConfig_calibrated (image : Image) (classGetFields : Option (ℕ → ℕ)) :
    Calibrated image classGetFields (probedConfig image classGetFields) := by
  constructor
  case classTableStep => rfl
  case klassGenericClass => rfl
  case klassNamespace =>
    exact gated_applyOffset (winsIn_probeKlassField _ _ _ _ _ _) 3 0x18
  case klassTypeDef => exact gated_applyOffset (winsIn_klassTypeDef image) 3 0x20
  case klassFields =>
    exact gated_applyOffset (winsIn_probeKlassField _ _ _ _ _ _) 3 0x80
  case klassMethods =>
    exact gated_applyOffset (winsIn_probeKlassField _ _ _ _ _ _) 3 0x98
  case klassStaticFields =>
    exact gated_applyOffset (winsIn_probeKlassField _ _ _ _ _ _) 3 0xB8
  case klassValuetypeOff => exact gated_applyOffset (winsIn_klassValuetype image) 3 0x2B
  case klassValuetypeBit => exact klassValuetypeBit_gated image _ rfl
  case methodPointerOff =>
    exact gated_applyOffset (winsIn_probeMethodField _ _ _ _ _ _) 2 0x08
  case methodNameOff =>
    exact gated_applyOffset (winsIn_probeMethodField _ _ _ _ _ _) 2 0x18
  case methodKlassOff =>
    exact gated_applyOffset (winsIn_probeMethodField _ _ _ _ _ _) 2 0x20
  case methodFlagsOff =>
    exact gated_applyOffset (winsIn_probeMethodField _ _ _ _ _ _) 2 0x4C
  case methodParametersOff =>
    exact gated_applyOffset (winsIn_probeMethodField _ _ _ _ _ _) 2 0x30
  case methodReturnTypeOff =>
    exact gated_applyOffset (winsIn_probeMethodField _ _ _ _ _ _) 2 0x28
  case methodParamCountOff =>
    exact gated_applyOffset (winsIn_probeMethodField _ _ _ _ _ _) 2 0x52
  case il2cppTypeDiscrimReadAt =>
    exact gated_applyOffset (winsIn_typeDiscrim image _).1 3 0x08
  case discrimShift => exact discrimShift_gated image _
  case paramInfoSize => exact gated_applyOffset (winsIn_paramInfo image _ _ _ _).1 3 0x18
  case paramInfoTypeOff => exact gated_applyOffset (winsIn_paramInfo image _ _ _ _).2 3 0x00
  case discrim => exact discrimCoherent_probe image _ rfl rfl
  case valuetype => exact valuetypeCoherent_probe image _ rfl rfl

end FrogAgent.Calibration
