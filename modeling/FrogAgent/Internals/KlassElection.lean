import FrogAgent.Internals.CalibratedConfig

/-!
# The elections of Phase 1

Five offsets within `Il2CppClass` are put to the vote of up to fifty classes: a class votes
for every candidate under which its memory shows what the runtime says of it.  The offset
of the configuration is the elected candidate, or the fallback constant where there are too
few voters or votes.  Where the runtime does not export `class_get_fields`, the voters on
the fields are chosen by what stands at the fallback offset, so a layout that moved the
fields up cannot be found.
-/

namespace FrogAgent.Calibration

open FrogAgent.BestScore (IsFirstBest best best_eq_none best_eq_some_iff)
open FrogAgent.Consensus

/-! ## The votes -/

section Votes

variable (image : Image)

def toldNamespace (klass : ℕ) : Option String :=
  let ns := image.classGetNamespace klass
  if ns = "" then none else some ns

def shownNamespace (klass offset : ℕ) : Option String := do
  let nsPtr ← image.mapRead 8 (klass + offset)
  let ns := (image.readNameStrict nsPtr).getD ""
  if ns = "" then none else some ns

def shownFields (klass offset : ℕ) : Option Unit := do
  let arr ← image.mapRead 8 (klass + offset)
  firstField image arr

def shownMethods (klass offset : ℕ) : Option Unit := do
  let arr ← image.mapRead 8 (klass + offset)
  if arr = 0 then none
  else
    let info ← image.mapRead 8 arr
    if info = 0 then none
    else
      let pointer ← image.mapRead 8 (info + 0x08)
      if pointer < 0x100000 then none else some ()

def shownStaticFields (klass offset : ℕ) : Option Unit := do
  let pointer ← image.mapRead 8 (klass + offset)
  if 0x100000 < pointer then some () else none

end Votes

/-! ## The elections -/

section Election

variable {Truth : Type} [DecidableEq Truth] {image : Image} {name : String}
variable {fallback ratio : ℕ} {candidates : List ℕ} {extractTruth : ℕ → Option Truth}
variable {extract : ℕ → ℕ → Option Truth}

/-- What the vote of the first fifty classes on a field makes of it. -/
def Chosen (image : Image) (fallback : ℕ) (candidates : List ℕ) (ratio : ℕ)
    (extractTruth : ℕ → Option Truth) (extract : ℕ → ℕ → Option Truth) (offset : ℕ) : Prop :=
  let voters := sampleKlassAnchors image anchorCount extractTruth
  3 ≤ voters.length ∧ Elected candidates voters extract offset ∧
      Clears voters extract ratio offset ∨
    (voters.length < 3 ∨ ∀ other ∈ candidates, ¬ Clears voters extract ratio other) ∧
      offset = fallback

/-- With three voters or more the winner counts, where there is one. -/
theorem gated_eq_iff {voters offset : ℕ} {winner : Option ℕ} :
    (if voters < 3 then fallback else winner.getD fallback) = offset ↔
      3 ≤ voters ∧ winner = some offset ∨
        (voters < 3 ∨ winner = none) ∧ offset = fallback := by
  by_cases hfew : voters < 3
  · have hmany : ¬ 3 ≤ voters := Nat.not_le.mpr hfew
    simp only [hfew, hmany, if_true, false_and, false_or, true_or, true_and, eq_comm]
  · have hmany : 3 ≤ voters := Nat.not_lt.mp hfew
    cases winner with
    | none => simp [hfew, hmany, eq_comm]
    | some found => simp [hfew, hmany]

theorem applyOffset_finalize {voters : ℕ} {result : Option (ℕ × CandidateScore)} :
    applyOffset fallback (finalize name result voters candidates) =
      if voters < 3 then fallback else (result.map Prod.fst).getD fallback := by
  cases result with
  | none => exact (ite_self fallback).symm
  | some picked => rfl

/-- A field of the configuration is what the vote made of it. -/
theorem applyOffset_eq_iff {offset : ℕ} :
    applyOffset fallback
        (probeKlassField image name candidates ratio extractTruth extract) = offset ↔
      Chosen image fallback candidates ratio extractTruth extract offset := by
  rw [probeKlassField, applyOffset_finalize, gated_eq_iff, Option.map_eq_none_iff,
    pick_eq_none_iff, Option.map_eq_some_iff]
  unfold Chosen
  dsimp only
  generalize sampleKlassAnchors image anchorCount extractTruth = voters
  have hwinner : (∃ picked, pickOffsetByConsensus candidates voters extract ratio =
        some picked ∧ picked.1 = offset) ↔
      voters ≠ [] ∧ Elected candidates voters extract offset ∧
        Clears voters extract ratio offset := by
    constructor
    · rintro ⟨picked, hpick, rfl⟩
      obtain ⟨hvoters, helected, hclears, -⟩ := pick_eq_some_iff.mp hpick
      exact ⟨hvoters, helected, hclears⟩
    · rintro ⟨hvoters, helected, hclears⟩
      exact ⟨_, pick_eq_some_iff.mpr ⟨hvoters, helected, hclears, rfl⟩, rfl⟩
  rw [hwinner]
  cases voters with
  | nil => simp
  | cons voter voters => simp only [ne_eq, reduceCtorEq, not_false_eq_true, true_and, false_or]

end Election

/-- The vote on `klass_type_def`, in which the known types have a veto. -/
def TypeDefChosen (image : Image) (offset : ℕ) : Prop :=
  let voters := sampleKlassAnchors image anchorCount (named image)
  3 ≤ voters.length ∧
      (∃ votes, IsFirstBest (typeDefScore image) klassTypeDefCandidates offset votes) ∨
    (voters.length < 3 ∨ ∀ other ∈ klassTypeDefCandidates, typeDefScore image other = none) ∧
      offset = 0x20

theorem applyOffset_typeDef_iff {image : Image} {offset : ℕ} :
    applyOffset 0x20 (probeKlassTypeDef image) = offset ↔ TypeDefChosen image offset := by
  have hwinner : (best (typeDefScore image) klassTypeDefCandidates).map Prod.fst =
        some offset ↔
      ∃ votes, IsFirstBest (typeDefScore image) klassTypeDefCandidates offset votes := by
    simp only [← best_eq_some_iff, Option.map_eq_some_iff, Prod.exists, exists_eq_right,
      exists_and_right]
  rw [probeKlassTypeDef, applyOffset_outcomeOf, gated_eq_iff, hwinner, Option.map_eq_none_iff,
    best_eq_none, TypeDefChosen]

/-- The offsets that calibration returns are what the votes made of them, whatever the
memory holds and whatever the runtime answers. -/
theorem klass_offsets_elected (image : Image) (classGetFields : Option (ℕ → ℕ)) (offset : ℕ) :
    let cfg := probedConfig image classGetFields
    (cfg.klassNamespace = offset ↔
        Chosen image 0x18 [0x10, 0x18, 0x20, 0x28] 90 (toldNamespace image)
          (shownNamespace image) offset) ∧
      (cfg.klassTypeDef = offset ↔ TypeDefChosen image offset) ∧
      (cfg.klassFields = offset ↔
        Chosen image 0x80 [0x70, 0x78, 0x80, 0x88, 0x90] 90 (hasFields image classGetFields)
          (shownFields image) offset) ∧
      (cfg.klassMethods = offset ↔
        Chosen image 0x98 [0x88, 0x90, 0x98, 0xA0, 0xA8] 90 (named image)
          (shownMethods image) offset) ∧
      (cfg.klassStaticFields = offset ↔
        Chosen image 0xB8 [0xA8, 0xB0, 0xB8, 0xC0, 0xC8] 99 (named image)
          (shownStaticFields image) offset) :=
  ⟨applyOffset_eq_iff, applyOffset_typeDef_iff, applyOffset_eq_iff, applyOffset_eq_iff,
    applyOffset_eq_iff⟩

/-! ## Voters chosen at the fallback offset -/

/-- Without `class_get_fields`, a class with fields shows them at the fallback offset. -/
theorem shownFields_of_hasFields {image : Image} {klass : ℕ}
    (hfields : hasFields image none klass = some ()) :
    shownFields image klass 0x80 = some () := by
  simp only [hasFields, Option.bind_eq_bind, Option.bind_eq_some_iff] at hfields
  obtain ⟨arr, harr, hfields⟩ := hfields
  split at hfields
  · cases hfields
  · obtain ⟨namePtr, -, hfields⟩ := Option.bind_eq_some_iff.mp hfields
    split at hfields
    · cases hfields
    · have harr : image.mapRead 8 (klass + 0x80) = some arr := harr
      rw [shownFields, harr]
      exact hfields

theorem truth_of_mem_sample {Truth : Type} {image : Image} {n : ℕ}
    {extractTruth : ℕ → Option Truth} {anchor : ℕ × Truth}
    (hanchor : anchor ∈ sampleKlassAnchors image n extractTruth) :
    extractTruth anchor.1 = some anchor.2 := by
  obtain ⟨slot, -, hslot⟩ := List.mem_filterMap.mp (List.mem_of_mem_take hanchor)
  simp only [klassAnchor, Option.bind_eq_bind, Option.bind_eq_some_iff] at hslot
  obtain ⟨klass, -, hslot⟩ := hslot
  split at hslot
  · cases hslot
  · split at hslot
    · obtain ⟨truth, htruth, rfl⟩ := Option.map_eq_some_iff.mp hslot
      exact htruth
    · cases hslot

/-- Every voter shows a field at this offset. -/
def AllShow (image : Image) (offset : ℕ) : Prop :=
  ∀ anchor ∈ sampleKlassAnchors image anchorCount (hasFields image none),
    shownFields image anchor.1 offset = some anchor.2

instance (image : Image) (offset : ℕ) : Decidable (AllShow image offset) :=
  inferInstanceAs (Decidable (∀ anchor ∈ _, _))

theorem allShow_fallback (image : Image) : AllShow image 0x80 :=
  fun _ hanchor => shownFields_of_hasFields (truth_of_mem_sample hanchor)

/-- Without `class_get_fields` the offset of the fields is one of three, and it leaves the
fallback only for a lower offset at which every voter shows a field too.  A layout with
the fields at `0x88` or `0x90` is never found. -/
theorem klassFields_without_export (image : Image) :
    (probedConfig image none).klassFields =
      if (sampleKlassAnchors image anchorCount (hasFields image none)).length < 3 then 0x80
      else if AllShow image 0x70 then 0x70
      else if AllShow image 0x78 then 0x78
      else 0x80 := by
  refine (klass_offsets_elected image none _).2.2.1.mpr ?_
  unfold Chosen
  dsimp only
  have hclears : ∀ {offset}, AllShow image offset →
      Clears (sampleKlassAnchors image anchorCount (hasFields image none))
        (shownFields image) 90 offset := by
    intro offset hall
    have hfull := List.countP_eq_length.mpr fun anchor hanchor =>
      decide_eq_true (hall anchor hanchor)
    rw [Clears, matchCount, hfull]
    omega
  split
  · next hfew => exact Or.inr ⟨Or.inl hfew, rfl⟩
  next hmany =>
  left
  refine ⟨Nat.not_lt.mp hmany, ?_⟩
  split
  · next hlowest =>
      exact ⟨elected_of_unanimous [] _ hlowest (List.forall_mem_nil _), hclears hlowest⟩
  next hlowest =>
  split
  · next hlower =>
      exact ⟨elected_of_unanimous [0x70] _ hlower (List.forall_mem_singleton.mpr hlowest),
        hclears hlower⟩
  next hlower =>
  have hfallback := allShow_fallback image
  have hbefore : ∀ other ∈ [0x70, 0x78], ¬ AllShow image other :=
    List.forall_mem_cons.mpr ⟨hlowest, List.forall_mem_singleton.mpr hlower⟩
  exact ⟨elected_of_unanimous [0x70, 0x78] _ hfallback hbefore, hclears hfallback⟩

end FrogAgent.Calibration
