import FrogAgent.Lib.Decimal
import FrogAgent.Runtime.CivilTime
import Mathlib.Order.Monotone.Basic

/-!
# The timestamp of the state file

`current_iso8601` of `runtime/state_file.rs` writes an instant as `YYYY-MM-DDThh:mm:ssZ`.  Up
to the end of the year 9999 all timestamps have one length, and the order of their texts is
the order of the instants.
-/

namespace FrogAgent.Runtime

open FrogAgent.Decimal
open FrogAgent.Gregorian
open FrogAgent.MachineInt

/-- The fields in the order and with the separators of the format string. -/
def CivilTime.chars (time : CivilTime) : List Char :=
  padded 4 time.year ++ '-' :: (padded 2 time.month ++ '-' :: (padded 2 time.day ++
    'T' :: (padded 2 time.hour ++ ':' :: (padded 2 time.minute ++
      ':' :: (padded 2 time.second ++ ['Z'])))))

/-- The text has no quotation mark. -/
theorem CivilTime.not_quote (time : CivilTime) : ∀ char ∈ time.chars, (char != '"') = true := by
  have hpadded : ∀ width n, ∀ char ∈ padded width n, (char != '"') = true := by
    intro width n char hchar
    rcases List.mem_append.mp hchar with hzero | hdigit
    · rw [List.eq_of_mem_replicate hzero]
      decide
    · have hkind := Nat.isDigit_of_mem_toDigits (by decide) (by decide) hdigit
      rw [bne_iff_ne]
      rintro rfl
      contradiction
  intro char hchar
  simp only [CivilTime.chars, List.mem_append, List.mem_cons, List.not_mem_nil, or_false] at hchar
  rcases hchar with h | rfl | h | rfl | h | rfl | h | rfl | h | rfl | h | rfl
  all_goals first | exact hpadded _ _ _ h | decide

/-- The clock gives the seconds since the epoch, or nothing if it stands before it. -/
def currentIso8601 (sinceEpoch : Option UInt64) : String :=
  String.ofList (secsToYmdHms (sinceEpoch.getD 0)).value.chars

/-- The first second of the year 10000. -/
def yearTenThousand : ℕ := 253402300800

/-! ## The order of the fields -/

/-- Every field fits its width. -/
structure CivilTime.Fits (time : CivilTime) : Prop where
  year_lt : time.year < 10 ^ 4
  month_lt : time.month < 10 ^ 2
  day_lt : time.day < 10 ^ 2
  hour_lt : time.hour < 10 ^ 2
  minute_lt : time.minute < 10 ^ 2
  second_lt : time.second < 10 ^ 2

/-- The first field that differs is smaller. -/
def CivilTime.Before (first second : CivilTime) : Prop :=
  first.year < second.year ∨ first.year = second.year ∧
    (first.month < second.month ∨ first.month = second.month ∧
      (first.day < second.day ∨ first.day = second.day ∧
        (first.hour < second.hour ∨ first.hour = second.hour ∧
          (first.minute < second.minute ∨ first.minute = second.minute ∧
            first.second < second.second))))

theorem CivilTime.Fits.chars_eq {time : CivilTime} (hfits : time.Fits) :
    time.chars = digits 4 time.year ++ '-' :: (digits 2 time.month ++ '-' ::
      (digits 2 time.day ++ 'T' :: (digits 2 time.hour ++ ':' :: (digits 2 time.minute ++
        ':' :: (digits 2 time.second ++ ['Z']))))) := by
  rw [CivilTime.chars, padded_eq_digits hfits.year_lt, padded_eq_digits hfits.month_lt,
    padded_eq_digits hfits.day_lt, padded_eq_digits hfits.hour_lt,
    padded_eq_digits hfits.minute_lt, padded_eq_digits hfits.second_lt]

theorem CivilTime.Fits.length_chars {time : CivilTime} (hfits : time.Fits) :
    time.chars.length = 20 := by
  rw [hfits.chars_eq]
  simp only [List.length_append, List.length_cons, length_digits, List.length_nil]

/-- A field that is smaller decides; one that is equal leaves it to what stands behind. -/
theorem field_lt {width first second : ℕ} {firstRest secondRest : List Char}
    (hsecond : second < 10 ^ width)
    (hlt : first < second ∨ first = second ∧ firstRest < secondRest) :
    digits width first ++ firstRest < digits width second ++ secondRest := by
  rcases hlt with hless | ⟨rfl, hrest⟩
  · exact append_lt_append (by rw [length_digits, length_digits])
      (digits_lt_digits hless hsecond) _ _
  · exact List.append_left_lt hrest

theorem cons_lt_of_lt {char : Char} {first second : List Char} (hlt : first < second) :
    char :: first < char :: second :=
  List.cons_lt_cons_iff.mpr (.inr ⟨rfl, hlt⟩)

theorem chars_lt_of_before {first second : CivilTime} (hfirst : first.Fits)
    (hsecond : second.Fits) (hbefore : first.Before second) : first.chars < second.chars := by
  rw [hfirst.chars_eq, hsecond.chars_eq]
  apply field_lt hsecond.year_lt
  refine hbefore.imp_right (And.imp_right fun hmonth => cons_lt_of_lt ?_)
  apply field_lt hsecond.month_lt
  refine hmonth.imp_right (And.imp_right fun hday => cons_lt_of_lt ?_)
  apply field_lt hsecond.day_lt
  refine hday.imp_right (And.imp_right fun hhour => cons_lt_of_lt ?_)
  apply field_lt hsecond.hour_lt
  refine hhour.imp_right (And.imp_right fun hminute => cons_lt_of_lt ?_)
  apply field_lt hsecond.minute_lt
  refine hminute.imp_right (And.imp_right fun hlast => cons_lt_of_lt ?_)
  exact field_lt hsecond.second_lt (.inl hlast)

/-! ## Instants -/

/-- The date and the time of the day of an instant. -/
def timeOf (secs : ℕ) : CivilTime :=
  ⟨(civilDate (secs / 86400)).year, (civilDate (secs / 86400)).month,
    (civilDate (secs / 86400)).day, secs / 3600 % 24, secs / 60 % 60, secs % 60⟩

theorem year_lt_of_lt {secs : ℕ} (hsecs : secs < yearTenThousand) :
    (civilDate (secs / 86400)).year < 10000 := by
  have hin := (civilDate_valid (secs / 86400)).inYear.1
  rw [number_civilDate, number_epoch] at hin
  apply daysBeforeYear_mono.reflect_lt
  have hlimit : daysBeforeYear 10000 = 3652425 := by
    rw [daysBeforeYear_eq]
    rfl
  rw [yearTenThousand] at hsecs
  omega

theorem monthLength_le (year month : ℕ) : monthLength year month ≤ 31 := by
  unfold monthLength
  split
  · split <;> decide
  all_goals decide

theorem timeOf_fits {secs : ℕ} (hsecs : secs < yearTenThousand) : (timeOf secs).Fits := by
  have hvalid := civilDate_valid (secs / 86400)
  have hmonth := hvalid.month_le
  have hday := hvalid.day_le
  have hlast := monthLength_le (civilDate (secs / 86400)).year (civilDate (secs / 86400)).month
  refine ⟨year_lt_of_lt hsecs, ?_, ?_, ?_, ?_, ?_⟩
  · exact Nat.lt_of_le_of_lt hmonth (by decide)
  · exact Nat.lt_of_le_of_lt (hday.trans hlast) (by decide)
  · exact Nat.lt_trans (Nat.mod_lt _ (by decide)) (by decide)
  · exact Nat.lt_trans (Nat.mod_lt _ (by decide)) (by decide)
  · exact Nat.lt_trans (Nat.mod_lt _ (by decide)) (by decide)

theorem secsToYmdHms_value {secs : UInt64} (hsecs : secs.toNat < yearTenThousand) :
    (secsToYmdHms secs).value = timeOf secs.toNat := by
  have hyear : (civilDate (secs.toNat / 86400)).year < 2 ^ 32 :=
    Nat.lt_trans (year_lt_of_lt hsecs) (by decide)
  rw [secsToYmdHms_eq, unsigned_bind _ rfl hyear]
  rfl

/-- The time of the day in the order of its fields. -/
theorem clock_before {first second : ℕ} (hlt : first < second)
    (hday : first / 86400 = second / 86400) :
    first / 3600 % 24 < second / 3600 % 24 ∨ first / 3600 % 24 = second / 3600 % 24 ∧
      (first / 60 % 60 < second / 60 % 60 ∨ first / 60 % 60 = second / 60 % 60 ∧
        first % 60 < second % 60) := by
  omega

theorem timeOf_before {first second : ℕ} (hlt : first < second) :
    (timeOf first).Before (timeOf second) := by
  rcases Nat.lt_or_eq_of_le (Nat.div_le_div_right (Nat.le_of_lt hlt)) with hearlier | hsame
  · have hnumber : (civilDate (first / 86400)).number < (civilDate (second / 86400)).number := by
      rw [number_civilDate, number_civilDate]
      exact Nat.add_lt_add_right hearlier _
    refine ((civilDate_valid _).lt_of_number_lt (civilDate_valid _) hnumber).imp_right ?_
    refine And.imp_right (Or.imp_right ?_)
    exact And.imp_right .inl
  · have hclock := clock_before hlt hsame
    rw [CivilTime.Before, timeOf, timeOf, hsame]
    exact .inr ⟨rfl, .inr ⟨rfl, .inr ⟨rfl, hclock⟩⟩⟩

theorem strictMonoOn_chars :
    StrictMonoOn (fun secs => (timeOf secs).chars) (Set.Iio yearTenThousand) := by
  intro first hfirst second hsecond hlt
  exact chars_lt_of_before (timeOf_fits hfirst) (timeOf_fits hsecond) (timeOf_before hlt)

theorem currentIso8601_eq (sinceEpoch : Option UInt64)
    (hsecs : (sinceEpoch.getD 0).toNat < yearTenThousand) :
    currentIso8601 sinceEpoch = String.ofList (timeOf (sinceEpoch.getD 0).toNat).chars := by
  rw [currentIso8601, secsToYmdHms_value hsecs]

/-- Up to the year 9999 every timestamp has twenty characters, and of two timestamps the text
of the earlier instant comes first: sorting them as text sorts them by time, and instants
that differ by a second have different timestamps. -/
theorem currentIso8601_ordered {first second : UInt64}
    (hfirst : first.toNat < yearTenThousand) (hsecond : second.toNat < yearTenThousand) :
    (currentIso8601 (some first)).length = 20 ∧
      (currentIso8601 (some first) < currentIso8601 (some second) ↔ first < second) ∧
      (currentIso8601 (some first) = currentIso8601 (some second) ↔ first = second) := by
  have horder : ∀ early late : List Char,
      String.ofList early < String.ofList late ↔ early < late := by
    intro early late
    change (String.ofList early).toList < (String.ofList late).toList ↔ _
    rw [String.toList_ofList, String.toList_ofList]
  rw [currentIso8601_eq (some first) hfirst, currentIso8601_eq (some second) hsecond,
    Option.getD_some, Option.getD_some, horder, String.ofList_inj, String.length_ofList, UInt64.lt_iff_toNat_lt,
    ← UInt64.toNat_inj]
  exact ⟨(timeOf_fits hfirst).length_chars, strictMonoOn_chars.lt_iff_lt hfirst hsecond,
    strictMonoOn_chars.injOn.eq_iff hfirst hsecond⟩

/-- The two sides of the end of a century. -/
theorem currentIso8601_ordered_century :
    (currentIso8601 (some 946684799)).length = 20 ∧
      (currentIso8601 (some 946684799) < currentIso8601 (some 946684800) ↔
        (946684799 : UInt64) < 946684800) ∧
      (currentIso8601 (some 946684799) = currentIso8601 (some 946684800) ↔
        (946684799 : UInt64) = 946684800) :=
  currentIso8601_ordered (by decide) (by decide)

example : currentIso8601 (some 946684799) = "1999-12-31T23:59:59Z" := by decide

end FrogAgent.Runtime
