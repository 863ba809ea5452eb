import Mathlib.Data.List.Basic

/-!
# Binary search by halving

The search compares the middle of what is left and drops the half that cannot hold a
match.  On a list that is ordered for the comparison it finds a match if there is one, and
otherwise the place between what is too small and what is too large.
-/

namespace FrogAgent.BinarySearch

variable {α : Type*}

/-- The last place of the `size` ones from `base` on that is not too large, or `base`. -/
def narrow (order : α → Ordering) (xs : List α) (base size : ℕ) : ℕ :=
  if 1 < size then
    let half := size / 2
    let mid := base + half
    if xs[mid]?.map order = some .gt then narrow order xs base (size - half)
    else narrow order xs mid (size - half)
  else base
termination_by size

/-- `slice::binary_search_by`: a match, or where one would have to be inserted. -/
def binarySearchBy (order : α → Ordering) (xs : List α) : Except ℕ ℕ :=
  let base := narrow order xs 0 xs.length
  match xs[base]?.map order with
  | none => .error 0
  | some .eq => .ok base
  | some .lt => .error (base + 1)
  | some .gt => .error base

/-- What is too large is followed by what is too large, and what is too small preceded by
what is too small. -/
def Ordered (order : α → Ordering) (xs : List α) : Prop :=
  xs.Pairwise fun left right =>
    (order left = .gt → order right = .gt) ∧ (order right = .lt → order left = .lt)

/-- Nothing up to `base` is too large, apart from the first place, and everything from
`limit` on is. -/
structure Bracket (order : α → Ordering) (xs : List α) (base limit : ℕ) : Prop where
  below : ∀ place x, place ≤ base → 0 < base → xs[place]? = some x → order x ≠ .gt
  above : ∀ place x, limit ≤ place → xs[place]? = some x → order x = .gt

section

variable {order : α → Ordering} {xs : List α}

theorem Ordered.at_places (hordered : Ordered order xs) {first second : ℕ} {left right : α}
    (hplaces : first < second) (hleft : xs[first]? = some left)
    (hright : xs[second]? = some right) :
    (order left = .gt → order right = .gt) ∧ (order right = .lt → order left = .lt) := by
  obtain ⟨hfirst, rfl⟩ := List.getElem?_eq_some_iff.mp hleft
  obtain ⟨hsecond, rfl⟩ := List.getElem?_eq_some_iff.mp hright
  exact List.pairwise_iff_getElem.mp hordered first second hfirst hsecond hplaces

/-- The loop keeps the bracket and ends when it holds one place. -/
theorem narrow_bracket (hordered : Ordered order xs) {base size : ℕ} (hsize : 0 < size)
    (hinside : base + size ≤ xs.length) (hbracket : Bracket order xs base (base + size)) :
    narrow order xs base size < xs.length ∧
      Bracket order xs (narrow order xs base size) (narrow order xs base size + 1) := by
  fun_induction narrow order xs base size with
  | case1 base size hlarge half mid hgreater ih =>
      obtain ⟨x, hx, hgt⟩ := Option.map_eq_some_iff.mp hgreater
      have hhalf : half = size / 2 := rfl
      apply ih (by omega) (by omega)
      refine ⟨hbracket.below, ?_⟩
      intro place y hplace hy
      have hmid : mid ≤ place := by omega
      rcases Nat.eq_or_lt_of_le hmid with rfl | hlater
      · rw [hx, Option.some.injEq] at hy
        rwa [← hy]
      · exact (hordered.at_places hlater hx hy).1 hgt
  | case2 base size hlarge half mid hgreater ih =>
      have hhalf : half = size / 2 := rfl
      have hlimit : mid + (size - half) = base + size := by omega
      apply ih (by omega) (by omega)
      refine ⟨?_, hlimit ▸ hbracket.above⟩
      intro place x hplace _ hx hgt
      have hmid : mid < xs.length := by omega
      have hmiddle : xs[mid]? = some xs[mid] := List.getElem?_eq_getElem hmid
      apply hgreater
      rw [hmiddle, Option.map_some]
      rcases Nat.eq_or_lt_of_le hplace with rfl | hearlier
      · rw [hmiddle, Option.some.injEq] at hx
        rw [hx, hgt]
      · rw [(hordered.at_places hearlier hx hmiddle).1 hgt]
  | case3 base size hsmall =>
      have hone : size = 1 := by omega
      subst hone
      exact ⟨by omega, hbracket⟩

theorem narrow_spec (hordered : Ordered order xs) (hnonempty : xs ≠ []) :
    narrow order xs 0 xs.length < xs.length ∧
      Bracket order xs (narrow order xs 0 xs.length)
        (narrow order xs 0 xs.length + 1) := by
  apply narrow_bracket hordered (List.length_pos_iff.mpr hnonempty) (by omega)
  refine ⟨fun place x _ hpos => absurd hpos (Nat.lt_irrefl 0), ?_⟩
  intro place x hplace hx
  obtain ⟨hlt, -⟩ := List.getElem?_eq_some_iff.mp hx
  omega

/-- A match is found where it is. -/
theorem binarySearchBy_ok {place : ℕ} (hfound : binarySearchBy order xs = .ok place) :
    ∃ x, xs[place]? = some x ∧ order x = .eq := by
  unfold binarySearchBy at hfound
  simp only at hfound
  split at hfound
  case h_2 hmatch =>
    cases hfound
    exact Option.map_eq_some_iff.mp hmatch
  all_goals contradiction

/-- Without a match everything before the place is too small and everything from it on too
large. -/
theorem binarySearchBy_error (hordered : Ordered order xs) {place : ℕ}
    (habsent : binarySearchBy order xs = .error place) :
    place ≤ xs.length ∧
      (∀ index x, index < place → xs[index]? = some x → order x = .lt) ∧
      ∀ index x, place ≤ index → xs[index]? = some x → order x = .gt := by
  rcases List.eq_nil_or_concat xs with rfl | ⟨_, _, hconcat⟩
  · cases habsent
    simp
  · have hnonempty : xs ≠ [] := by simp [hconcat]
    obtain ⟨hinside, hbracket⟩ := narrow_spec hordered hnonempty
    unfold binarySearchBy at habsent
    simp only at habsent
    split at habsent
    case h_1 hmissing =>
      rw [Option.map_eq_none_iff, List.getElem?_eq_none_iff] at hmissing
      omega
    case h_2 => contradiction
    case h_3 hless =>
      cases habsent
      obtain ⟨x, hx, hlt⟩ := Option.map_eq_some_iff.mp hless
      refine ⟨by omega, ?_, hbracket.above⟩
      intro index y hindex hy
      rcases Nat.eq_or_lt_of_le (Nat.le_of_lt_succ hindex) with rfl | hearlier
      · rw [hx, Option.some.injEq] at hy
        rwa [← hy]
      · exact (hordered.at_places hearlier hy hx).2 hlt
    case h_4 hgreater =>
      cases habsent
      obtain ⟨x, hx, hgt⟩ := Option.map_eq_some_iff.mp hgreater
      -- Only the first place can be too large.
      have hzero : narrow order xs 0 xs.length = 0 := by
        by_contra hpos
        exact hbracket.below _ x (Nat.le_refl _) (Nat.pos_of_ne_zero hpos) hx hgt
      rw [hzero] at hx hbracket ⊢
      refine ⟨Nat.zero_le _, fun index y hindex => absurd hindex (Nat.not_lt_zero _), ?_⟩
      intro index y _ hy
      cases index with
      | zero =>
          rw [hx, Option.some.injEq] at hy
          rwa [← hy]
      | succ index => exact hbracket.above _ y (by omega) hy

end

end FrogAgent.BinarySearch
