import Mathlib.Data.List.Infix

/-!
# Longest admissible suffixes

A bounded log that drops its oldest entries keeps the longest suffix of what was
appended that still satisfies its bound.  For a bound that survives removing
entries, the suffix can be computed by dropping heads, and it can be maintained
from one append to the next without the entries already dropped.
-/

namespace FrogAgent.LongestSuffix

variable {α : Type*}

/-- `kept` is the longest suffix of `whole` that satisfies `bound`. -/
structure IsLongest (bound : List α → Prop) (whole kept : List α) : Prop where
  suffix : kept <:+ whole
  within : bound kept
  maximal : ∀ other, other <:+ whole → bound other → other.length ≤ kept.length

variable {bound : List α → Prop} {whole kept : List α}

theorem isLongest_self (hbound : bound whole) : IsLongest bound whole whole where
  suffix := List.suffix_rfl
  within := hbound
  maximal := fun _ hother _ => hother.length_le

/-- A head that breaks the bound can be dropped. -/
theorem IsLongest.cons {head : α} (hkept : IsLongest bound whole kept)
    (hbreaks : ¬ bound (head :: whole)) : IsLongest bound (head :: whole) kept where
  suffix := hkept.suffix.trans (List.suffix_cons head whole)
  within := hkept.within
  maximal := by
    intro other hother hbound
    cases List.suffix_cons_iff.mp hother with
    | inl heq =>
        rw [heq] at hbound
        contradiction
    | inr htail => exact hkept.maximal other htail hbound

/-- Entries dropped earlier are not missed by a later append. -/
theorem IsLongest.concat {later : List α} {entry : α}
    (hclosed : ∀ part list, part.Sublist list → bound list → bound part)
    (hkept : IsLongest bound whole kept)
    (hlater : IsLongest bound (kept ++ [entry]) later) :
    IsLongest bound (whole ++ [entry]) later where
  suffix := by
    apply hlater.suffix.trans
    exact List.suffix_append_self_iff.mpr hkept.suffix
  within := hlater.within
  maximal := by
    intro other hother hbound
    apply hlater.maximal other _ hbound
    cases List.eq_nil_or_concat other with
    | inl hnil =>
        rw [hnil]
        exact List.nil_suffix
    | inr hconcat =>
        obtain ⟨front, last, rfl⟩ := hconcat
        rw [List.concat_eq_append] at hother hbound ⊢
        have hsame : [last].length = [entry].length := rfl
        rw [List.suffix_append_inj_of_length_eq hsame] at hother ⊢
        have hfront : bound front :=
          hclosed front _ (List.sublist_append_left front [last]) hbound
        have hlength := hkept.maximal front hother.1 hfront
        exact ⟨List.suffix_of_suffix_length_le hother.1 hkept.suffix hlength, hother.2⟩

end FrogAgent.LongestSuffix
