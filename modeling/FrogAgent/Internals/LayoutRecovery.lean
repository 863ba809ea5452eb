import FrogAgent.Internals.Calibration

/-!
# Which layouts calibration recovers

A process has a method layout when the two anchors are found by reading their
`MethodInfo` that way and no other candidate offset passes a probe on them.
Calibration looks for its anchors with the fallback offsets, so it recovers the
fallback layout and no other.
-/

namespace FrogAgent.Calibration

open FrogAgent.ByteMemory
open FrogAgent.Consensus
open FrogAgent.LittleEndian

/-- Where `MethodInfo` keeps its name, its declaring class and its parameter
count. -/
structure MethodLayout where
  nameOff : ℕ
  klassOff : ℕ
  paramCountOff : ℕ
  deriving DecidableEq

def Il2CppConfig.methodLayout (cfg : Il2CppConfig) : MethodLayout :=
  ⟨cfg.methodNameOff, cfg.methodKlassOff, cfg.methodParamCountOff⟩

def MethodLayout.config (layout : MethodLayout) : Il2CppConfig :=
  { fallbackConstants with
    methodNameOff := layout.nameOff
    methodKlassOff := layout.klassOff
    methodParamCountOff := layout.paramCountOff }

/-- Each offset is one its probe tries. -/
def MethodLayout.Candidate (layout : MethodLayout) : Prop :=
  layout.nameOff ∈ nameCandidates ∧ layout.klassOff ∈ klassCandidates ∧
    layout.paramCountOff ∈ paramCountCandidates

instance (layout : MethodLayout) : Decidable layout.Candidate :=
  inferInstanceAs (Decidable (_ ∧ _))

/-- The two anchors, read with the layout they really have. -/
def powMethod (image : Image) (layout : MethodLayout) : ℕ :=
  localFindMethod image layout.config (localFindClass image "System::Math") "Pow" 2

def padLeftMethod (image : Image) (layout : MethodLayout) : ℕ :=
  localFindMethod image layout.config (localFindClass image "System::String") "PadLeft" 2

/-- A candidate shows on both anchors what the probe expects of them. -/
def Passes {Value : Type*} (image : Image) (layout : MethodLayout)
    (powValue padLeftValue : Value) (extract : ℕ → ℕ → Option Value) (offset : ℕ) : Prop :=
  extract (powMethod image layout) offset = some powValue ∧
    extract (padLeftMethod image layout) offset = some padLeftValue

instance {Value : Type*} [DecidableEq Value] (image : Image) (layout : MethodLayout)
    (powValue padLeftValue : Value) (extract : ℕ → ℕ → Option Value) (offset : ℕ) :
    Decidable (Passes image layout powValue padLeftValue extract offset) :=
  inferInstanceAs (Decidable (_ ∧ _))

/-- The process holds both anchors in this layout, and on them every other candidate
fails. -/
structure Described (image : Image) (layout : MethodLayout) : Prop where
  math : localFindClass image "System::Math" ≠ 0
  string : localFindClass image "System::String" ≠ 0
  pow : powMethod image layout ≠ 0
  padLeft : padLeftMethod image layout ≠ 0
  name : ∀ offset ∈ nameCandidates,
    Passes image layout "Pow" "PadLeft" (extractName image) offset ↔
      offset = layout.nameOff
  klass : ∀ offset ∈ klassCandidates,
    Passes image layout (localFindClass image "System::Math")
        (localFindClass image "System::String") (extractKlass image) offset ↔
      offset = layout.klassOff
  paramCount : ∀ offset ∈ paramCountCandidates,
    Passes image layout 2 2 (extractParamCount image) offset ↔
      offset = layout.paramCountOff

/-- Only the second phase touches the three offsets. -/
theorem probe_methodLayout (image : Image) (others : OtherPhases) :
    (probe image others).1.methodLayout =
      ⟨applyOffsetPhase2 fallbackConstants.methodNameOff (probeMethodNameOff image),
        applyOffsetPhase2 fallbackConstants.methodKlassOff (probeMethodKlassOff image),
        applyOffsetPhase2 fallbackConstants.methodParamCountOff
          (probeMethodParamCountOff image)⟩ := rfl

/-- Without both anchors every method probe falls back. -/
theorem probe_of_no_anchors {image : Image} (hanchors : anchorMethods image = none)
    (others : OtherPhases) :
    (probe image others).1.methodLayout = fallbackConstants.methodLayout := by
  rw [probe_methodLayout]
  simp only [probeMethodNameOff, probeMethodKlassOff, probeMethodParamCountOff,
    probeMethodField, hanchors]
  rfl

/-- On the anchors of its layout a probe settles on the offset that alone passes. -/
theorem applyOffset_of_anchors {Value : Type*} [DecidableEq Value] {image : Image}
    {layout : MethodLayout} {powValue padLeftValue : Value} {candidates : List ℕ}
    {extract : ℕ → ℕ → Option Value} {winner : ℕ} (fieldName : String) (field : ℕ)
    (hanchors : anchorMethods image =
      some (powMethod image layout, padLeftMethod image layout))
    (hwinner : winner ∈ candidates)
    (honly : ∀ offset ∈ candidates,
      Passes image layout powValue padLeftValue extract offset ↔ offset = winner) :
    applyOffsetPhase2 field
      (probeMethodField image fieldName powValue padLeftValue candidates extract) =
        winner := by
  have hclears : ∀ offset ∈ candidates,
      Clears [(powMethod image layout, powValue), (padLeftMethod image layout, padLeftValue)]
        extract minRatio offset ↔ offset = winner := by
    intro offset hoffset
    exact clears_pair_iff.trans (honly offset hoffset)
  have hpick := pick_unique (List.cons_ne_nil _ _) hwinner hclears
  simp only [probeMethodField, hanchors, hpick]
  rfl

/-- With the fallback layout the search for the anchors reads them as they are. -/
theorem anchorMethods_of_fallback {image : Image}
    (hdescribed : Described image fallbackConstants.methodLayout) :
    anchorMethods image =
      some (powMethod image fallbackConstants.methodLayout,
        padLeftMethod image fallbackConstants.methodLayout) := by
  have hconfig : fallbackConstants.methodLayout.config = fallbackConstants := rfl
  have hpow := hdescribed.pow
  have hpadLeft := hdescribed.padLeft
  simp only [powMethod, padLeftMethod, hconfig] at hpow hpadLeft ⊢
  simp only [anchorMethods, if_pos hdescribed.math, if_pos hdescribed.string, hpow,
    hpadLeft, or_self, if_false]

/-! ## A process for every layout -/

/-- The names of the anchors as words in memory. -/
def powName : ℕ := 0x776F50

def padLeftName : ℕ := 0x7466654C646150

/-- The word stored under a key; what is not stored is zero. -/
def wordAt : List (ℕ × ℕ) → ℕ → ℕ
  | [], _ => 0
  | (key, word) :: words, place => bif key.beq place then word else wordAt words place

/-- A process with two classes of one method each, in the given layout, page by page.
A class starts with the pointer to its image.  Where the layout has one word be both
the name and the class, that pointer spells the name, and the image lies there. -/
def samplePage (layout : MethodLayout) (page : ℕ) : List (ℕ × ℕ) :=
  let shared := layout.nameOff = layout.klassOff
  let count := 2 <<< (8 * (layout.paramCountOff - 0x50))
  bif page.beq 1 then [(0x0, 0x2000), (0x8, 0x3000)]
  else bif page.beq 2 then [(0x0, if shared then powName else 0x4000), (0x98, 0x5000)]
  else bif page.beq 3 then [(0x0, if shared then padLeftName else 0x4000), (0x98, 0x5800)]
  -- The image, with the file name `m.dll`.
  else bif page.beq 4 then [(0x0, 0x4100), (0x100, 0x6C6C642E6D)]
  else bif page.beq 5 then [(0x0, 0x6000), (0x800, 0x7000)]
  else bif page.beq 6 then
    [(layout.klassOff, 0x2000), (layout.nameOff, 0x8000), (0x50, count)]
  else bif page.beq 7 then
    [(layout.klassOff, 0x3000), (layout.nameOff, 0x8800), (0x50, count)]
  else bif page.beq 8 then [(0x0, powName), (0x800, padLeftName)]
  else bif page.beq (powName / 0x1000) then [(powName % 0x1000, 0x4100)]
  else [(padLeftName % 0x1000, 0x4100)]

def sampleImage (layout : MethodLayout) : Image where
  memory := fun address =>
    let word := wordAt (samplePage layout (address / 0x1000)) (address % 0x1000 / 8 * 8)
    UInt8.ofNat (word >>> (8 * (address % 8)))
  validateRead := fun _ _ => true
  inRegion := fun _ _ => true
  isExecutable := fun _ => false
  classGetName := fun klass => if klass = 0x2000 then "Math" else "String"
  classGetNamespace := fun _ => "System"
  tableBase := 0x1000
  tableCount := 2

/-- What holds of the twenty-seven layouts one by one holds of a candidate. -/
theorem forall_candidate {P : MethodLayout → Prop}
    (hall : ∀ nameOff ∈ nameCandidates, ∀ klassOff ∈ klassCandidates,
      ∀ paramCountOff ∈ paramCountCandidates, P ⟨nameOff, klassOff, paramCountOff⟩)
    {layout : MethodLayout} (hlayout : layout.Candidate) : P layout :=
  hall _ hlayout.1 _ hlayout.2.1 _ hlayout.2.2

theorem sampleImage_anchors {layout : MethodLayout} (hlayout : layout.Candidate) :
    localFindClass (sampleImage layout) "System::Math" = 0x2000 ∧
      localFindClass (sampleImage layout) "System::String" = 0x3000 ∧
      localFindMethod (sampleImage layout) layout.config 0x2000 "Pow" 2 = 0x6000 ∧
      localFindMethod (sampleImage layout) layout.config 0x3000 "PadLeft" 2 = 0x7000 := by
  apply forall_candidate _ hlayout
  decide +kernel

theorem sampleImage_probes {layout : MethodLayout} (hlayout : layout.Candidate) :
    (∀ offset ∈ nameCandidates,
      (extractName (sampleImage layout) 0x6000 offset = some "Pow" ∧
          extractName (sampleImage layout) 0x7000 offset = some "PadLeft") ↔
        offset = layout.nameOff) ∧
      (∀ offset ∈ klassCandidates,
        (extractKlass (sampleImage layout) 0x6000 offset = some 0x2000 ∧
            extractKlass (sampleImage layout) 0x7000 offset = some 0x3000) ↔
          offset = layout.klassOff) ∧
      ∀ offset ∈ paramCountCandidates,
        (extractParamCount (sampleImage layout) 0x6000 offset = some 2 ∧
            extractParamCount (sampleImage layout) 0x7000 offset = some 2) ↔
          offset = layout.paramCountOff := by
  apply forall_candidate _ hlayout
  decide +kernel

theorem described_sampleImage {layout : MethodLayout} (hlayout : layout.Candidate) :
    Described (sampleImage layout) layout := by
  obtain ⟨hmath, hstring, hpow, hpadLeft⟩ := sampleImage_anchors hlayout
  obtain ⟨hname, hklass, hcount⟩ := sampleImage_probes hlayout
  have hpow : powMethod (sampleImage layout) layout = 0x6000 := by
    rw [powMethod, hmath, hpow]
  have hpadLeft : padLeftMethod (sampleImage layout) layout = 0x7000 := by
    rw [padLeftMethod, hstring, hpadLeft]
  constructor
  case math => simp [hmath]
  case string => simp [hstring]
  case pow => simp [hpow]
  case padLeft => simp [hpadLeft]
  case name => simpa only [Passes, hpow, hpadLeft] using hname
  case klass => simpa only [Passes, hpow, hpadLeft, hmath, hstring] using hklass
  case paramCount => simpa only [Passes, hpow, hpadLeft] using hcount

/-- A run in which no other phase overrides anything. -/
def noOverrides : OtherPhases :=
  let none : ProbeOutcome := ⟨"", none, 0, 0, true, []⟩
  ⟨none, none, none, none, none, (none, .none), fun _ => (none, none), fun _ => (none, none)⟩

/-- With any other layout the search of the anchors reads the wrong words. -/
theorem sampleImage_no_anchors {layout : MethodLayout} (hlayout : layout.Candidate) :
    layout ≠ fallbackConstants.methodLayout → anchorMethods (sampleImage layout) = none := by
  apply forall_candidate _ hlayout
  decide +kernel

/-- Calibration recovers a layout from every process that has it exactly when it is
the fallback layout. -/
theorem probe_recovers_iff {layout : MethodLayout} (hlayout : layout.Candidate) :
    (∀ image others, Described image layout →
        (probe image others).1.methodLayout = layout) ↔
      layout = fallbackConstants.methodLayout := by
  constructor
  · intro hrecovers
    by_contra hshifted
    apply hshifted
    have hanchors := sampleImage_no_anchors hlayout hshifted
    rw [← probe_of_no_anchors hanchors noOverrides]
    exact (hrecovers _ _ (described_sampleImage hlayout)).symm
  · rintro rfl image others hdescribed
    have hanchors := anchorMethods_of_fallback hdescribed
    rw [probe_methodLayout]
    congr 1
    · exact applyOffset_of_anchors _ _ hanchors hlayout.1 hdescribed.name
    · exact applyOffset_of_anchors _ _ hanchors hlayout.2.1 hdescribed.klass
    · exact applyOffset_of_anchors _ _ hanchors hlayout.2.2 hdescribed.paramCount

theorem probe_recovers_fallback :
    (probe (sampleImage ⟨0x18, 0x20, 0x52⟩) noOverrides).1.methodLayout =
      ⟨0x18, 0x20, 0x52⟩ := by
  have hlayout : (⟨0x18, 0x20, 0x52⟩ : MethodLayout).Candidate := by decide
  exact (probe_recovers_iff hlayout).mpr rfl _ _ (described_sampleImage hlayout)

/-- A name pointer eight bytes earlier is not found again. -/
theorem not_probe_recovers_shifted_name :
    ¬ ∀ layout : MethodLayout, layout.Candidate → ∀ image others,
      Described image layout → (probe image others).1.methodLayout = layout := by
  intro hrecovers
  have hlayout : (⟨0x10, 0x20, 0x52⟩ : MethodLayout).Candidate := by decide
  have hprobe := hrecovers _ hlayout _ noOverrides (described_sampleImage hlayout)
  rw [probe_of_no_anchors (sampleImage_no_anchors hlayout (by decide))] at hprobe
  exact absurd hprobe (by decide)

end FrogAgent.Calibration
