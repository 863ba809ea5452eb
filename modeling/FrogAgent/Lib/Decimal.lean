import Mathlib.Algebra.Order.Ring.Nat
import Mathlib.Data.List.Lex
import Mathlib.Data.Char

/-!
# Decimal numbers of a fixed width

Numbers written in decimal and filled with zeros to a width.  Below the power of ten that the
width allows, the texts of one width are ordered as the numbers are, and so are texts made of
several such fields behind one another.
-/

namespace FrogAgent.Decimal

/-- At least `width` digits, filled with zeros from the left. -/
def padded (width n : ℕ) : List Char := List.leftpad width '0' (Nat.toDigits 10 n)

/-- The last `width` digits. -/
def digits : ℕ → ℕ → List Char
  | 0, _ => []
  | width + 1, n => digits width (n / 10) ++ [Nat.digitChar (n % 10)]

@[simp]
theorem length_digits (width n : ℕ) : (digits width n).length = width := by
  induction width generalizing n with
  | zero => rfl
  | succ width ih => rw [digits, List.length_append, ih, List.length_singleton]

theorem digits_zero (width : ℕ) : digits width 0 = List.replicate width '0' := by
  induction width with
  | zero => rfl
  | succ width ih => rw [digits, Nat.zero_div, ih, List.replicate_succ']; rfl

theorem leftpad_concat (width : ℕ) (front : List Char) (last : Char) :
    List.leftpad (width + 1) '0' (front ++ [last]) =
      List.leftpad width '0' front ++ [last] := by
  rw [List.leftpad, List.leftpad, List.length_append, List.length_singleton,
    Nat.add_sub_add_right, List.append_assoc]

/-- A number that is not too long is written with its last digits. -/
theorem padded_eq_digits {width n : ℕ} (hn : n < 10 ^ (width + 1)) :
    padded (width + 1) n = digits (width + 1) n := by
  induction width generalizing n with
  | zero =>
      rw [Nat.zero_add, Nat.pow_one] at hn
      rw [padded, Nat.toDigits_of_lt_base hn, digits, digits, Nat.mod_eq_of_lt hn]
      rfl
  | succ width ih =>
      by_cases hsmall : n < 10
      · have hzero := leftpad_concat (width + 1) [] (Nat.digitChar n)
        rw [padded, Nat.toDigits_of_lt_base hsmall, digits, Nat.div_eq_of_lt hsmall,
          digits_zero, Nat.mod_eq_of_lt hsmall]
        rw [List.nil_append] at hzero
        rw [hzero, List.leftpad, List.append_nil]
        rfl
      · have hshort : n / 10 < 10 ^ (width + 1) := by
          rw [Nat.pow_succ] at hn
          exact Nat.div_lt_of_lt_mul (by omega)
        have hrest := ih hshort
        rw [padded] at hrest
        rw [padded, Nat.toDigits_of_base_le (by decide) (Nat.le_of_not_lt hsmall),
          leftpad_concat, hrest]
        rfl

/-! ## Order -/

theorem digitChar_lt_digitChar {first second : ℕ} (hlt : first < second)
    (hsecond : second < 10) : Nat.digitChar first < Nat.digitChar second := by
  rw [Char.lt_def, UInt32.lt_iff_toNat_lt]
  have hfirst := Nat.toNat_digitChar_of_lt_ten (Nat.lt_trans hlt hsecond)
  have hlast := Nat.toNat_digitChar_of_lt_ten hsecond
  rw [Char.toNat] at hfirst hlast
  rw [hfirst, hlast]
  exact Nat.add_lt_add_left hlt 48

/-- The first fields that differ decide, whatever stands behind them. -/
theorem append_lt_append {first second : List Char} (hlength : first.length = second.length)
    (hlt : first < second) (firstRest secondRest : List Char) :
    first ++ firstRest < second ++ secondRest := by
  induction first generalizing second with
  | nil =>
      rw [List.length_nil] at hlength
      rw [List.length_eq_zero_iff.mp hlength.symm] at hlt
      exact absurd hlt (List.lt_irrefl [])
  | cons char first ih =>
      cases second with
      | nil => contradiction
      | cons other second =>
          rw [List.cons_lt_cons_iff] at hlt
          rw [List.cons_append, List.cons_append, List.cons_lt_cons_iff]
          rcases hlt with hchar | ⟨heq, hrest⟩
          · exact .inl hchar
          · exact .inr ⟨heq, ih (Nat.succ.inj hlength) hrest⟩

theorem digits_lt_digits {width first second : ℕ} (hlt : first < second)
    (hsecond : second < 10 ^ width) : digits width first < digits width second := by
  induction width generalizing first second with
  | zero => omega
  | succ width ih =>
      have hshort : second / 10 < 10 ^ width := by
        rw [Nat.pow_succ] at hsecond
        exact Nat.div_lt_of_lt_mul (by omega)
      rw [digits, digits]
      rcases Nat.lt_or_eq_of_le (Nat.div_le_div_right (Nat.le_of_lt hlt)) with hfront | hsame
      · exact append_lt_append (by rw [length_digits, length_digits]) (ih hfront hshort) _ _
      · rw [hsame]
        apply List.append_left_lt
        rw [List.cons_lt_cons_iff]
        exact .inl (digitChar_lt_digitChar (by omega) (by omega))

/-! ## Numbers in a text -/

/-- Two texts that begin with characters of one kind, up to the first of another kind. -/
theorem append_cons_inj {α : Type*} {kind : α → Bool} {first second : List α}
    {firstEnd secondEnd : α} {firstRest secondRest : List α}
    (hfirst : ∀ item ∈ first, kind item = true) (hsecond : ∀ item ∈ second, kind item = true)
    (hfirstEnd : kind firstEnd = false) (hsecondEnd : kind secondEnd = false)
    (htexts : first ++ firstEnd :: firstRest = second ++ secondEnd :: secondRest) :
    first = second ∧ firstRest = secondRest := by
  induction first generalizing second with
  | nil =>
      cases second with
      | nil => exact ⟨rfl, (List.cons.inj htexts).2⟩
      | cons item second =>
          have hend : firstEnd = item := (List.cons.inj htexts).1
          rw [hend, hsecond item List.mem_cons_self] at hfirstEnd
          contradiction
  | cons item first ih =>
      cases second with
      | nil =>
          have hend : item = secondEnd := (List.cons.inj htexts).1
          rw [← hend, hfirst item List.mem_cons_self] at hsecondEnd
          contradiction
      | cons other second =>
          obtain ⟨rfl, hrest⟩ := List.cons.inj htexts
          obtain ⟨rfl, hsame⟩ := ih
            (fun item hitem => hfirst item (List.mem_cons_of_mem _ hitem))
            (fun item hitem => hsecond item (List.mem_cons_of_mem _ hitem)) hrest
          exact ⟨rfl, hsame⟩

/-- A number at the front of a text that goes on with something else than a digit. -/
theorem toDigits_append_inj {first second : ℕ} {firstEnd secondEnd : Char}
    {firstRest secondRest : List Char} (hfirstEnd : firstEnd.isDigit = false)
    (hsecondEnd : secondEnd.isDigit = false)
    (htexts : Nat.toDigits 10 first ++ firstEnd :: firstRest =
      Nat.toDigits 10 second ++ secondEnd :: secondRest) :
    first = second ∧ firstRest = secondRest := by
  have hdigits : ∀ n, ∀ char ∈ Nat.toDigits 10 n, char.isDigit = true :=
    fun n char hchar => Nat.isDigit_of_mem_toDigits (by decide) (by decide) hchar
  obtain ⟨hsame, hrest⟩ :=
    append_cons_inj (hdigits first) (hdigits second) hfirstEnd hsecondEnd htexts
  refine ⟨?_, hrest⟩
  have hvalue := congrArg (fun chars => Nat.ofDigitChars 10 chars 0) hsame
  simpa using hvalue

end FrogAgent.Decimal
