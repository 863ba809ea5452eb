import Mathlib.Algebra.Order.Ring.Nat
import Mathlib.Tactic.IntervalCases

/-!
# The Gregorian calendar

The proleptic Gregorian calendar from the year zero on: the lengths of its months and years
and the number of a day, counted by adding them up.  A year that begins in March has its leap
day at the end, and its months begin at offsets with a closed form.
-/

namespace FrogAgent.Gregorian

/-! ## Lengths and day numbers -/

def IsLeap (year : ℕ) : Prop :=
  year % 4 = 0 ∧ (year % 100 ≠ 0 ∨ year % 400 = 0)

instance (year : ℕ) : Decidable (IsLeap year) := inferInstanceAs (Decidable (_ ∧ _))

/-- There are no days in a month that does not exist. -/
def monthLength (year : ℕ) : ℕ → ℕ
  | 2 => if IsLeap year then 29 else 28
  | 4 | 6 | 9 | 11 => 30
  | 1 | 3 | 5 | 7 | 8 | 10 | 12 => 31
  | _ => 0

def yearLength (year : ℕ) : ℕ := if IsLeap year then 366 else 365

/-- The days of the months before `month`. -/
def daysBeforeMonth (year : ℕ) : ℕ → ℕ
  | 0 => 0
  | month + 1 => daysBeforeMonth year month + monthLength year month

/-- The days of the years before `year`. -/
def daysBeforeYear : ℕ → ℕ
  | 0 => 0
  | year + 1 => daysBeforeYear year + yearLength year

@[ext]
structure Date where
  year : ℕ
  month : ℕ
  day : ℕ
  deriving DecidableEq, Repr

structure Date.Valid (date : Date) : Prop where
  month_pos : 1 ≤ date.month
  month_le : date.month ≤ 12
  day_pos : 1 ≤ date.day
  day_le : date.day ≤ monthLength date.year date.month

/-- The days before the date, from the first of January of the year zero. -/
def Date.number (date : Date) : ℕ :=
  daysBeforeYear date.year + daysBeforeMonth date.year date.month + (date.day - 1)

def daysBetween (first last : Date) : ℤ := (last.number : ℤ) - first.number

/-- The day with this number is in the year. -/
def InYear (year number : ℕ) : Prop :=
  daysBeforeYear year ≤ number ∧ number < daysBeforeYear (year + 1)

/-! ## Years -/

/-- The number of leap years before `year`. -/
def leapYearsBefore (year : ℕ) : ℕ := (year + 3) / 4 - (year + 99) / 100 + (year + 399) / 400

theorem leapYearsBefore_succ (year : ℕ) :
    leapYearsBefore (year + 1) = leapYearsBefore year + if IsLeap year then 1 else 0 := by
  have hfour : (year + 1 + 3) / 4 = (year + 3) / 4 + if year % 4 = 0 then 1 else 0 := by
    split <;> omega
  have hhundred :
      (year + 1 + 99) / 100 = (year + 99) / 100 + if year % 100 = 0 then 1 else 0 := by
    split <;> omega
  have hera : (year + 1 + 399) / 400 = (year + 399) / 400 + if year % 400 = 0 then 1 else 0 := by
    split <;> omega
  have hfewer : (year + 99) / 100 ≤ (year + 3) / 4 := by omega
  have hcentury : year % 100 = 0 → year % 4 = 0 := by omega
  have hlast : year % 400 = 0 → year % 100 = 0 := by omega
  rw [leapYearsBefore, leapYearsBefore, hfour, hhundred, hera]
  clear hfour hhundred hera
  generalize (year + 3) / 4 = fours at *
  generalize (year + 99) / 100 = hundreds at *
  generalize (year + 399) / 400 = eras at *
  by_cases hleap : IsLeap year
  · rw [if_pos hleap]
    rw [IsLeap] at hleap
    split_ifs <;> omega
  · rw [if_neg hleap]
    rw [IsLeap] at hleap
    split_ifs <;> omega

theorem daysBeforeYear_eq (year : ℕ) :
    daysBeforeYear year = 365 * year + leapYearsBefore year := by
  induction year with
  | zero => rfl
  | succ year ih =>
      rw [daysBeforeYear, ih, yearLength, leapYearsBefore_succ]
      split <;> omega

theorem daysBeforeYear_mono : Monotone daysBeforeYear :=
  monotone_nat_of_le_succ fun _ => Nat.le_add_right _ _

/-- At most one stretch between the values of a monotone function has a number. -/
theorem eq_of_between {bound : ℕ → ℕ} (hmono : Monotone bound) {first second number : ℕ}
    (hfirst : bound first ≤ number ∧ number < bound (first + 1))
    (hsecond : bound second ≤ number ∧ number < bound (second + 1)) : first = second := by
  apply Nat.le_antisymm
  · exact Nat.le_of_lt_succ (hmono.reflect_lt (Nat.lt_of_le_of_lt hfirst.1 hsecond.2))
  · exact Nat.le_of_lt_succ (hmono.reflect_lt (Nat.lt_of_le_of_lt hsecond.1 hfirst.2))

/-- A day is in one year only. -/
theorem InYear.unique {first second number : ℕ} (hfirst : InYear first number)
    (hsecond : InYear second number) : first = second :=
  eq_of_between daysBeforeYear_mono hfirst hsecond

/-! ## Months -/

/-- The months fill the year. -/
theorem daysBeforeMonth_end (year : ℕ) : daysBeforeMonth year 13 = yearLength year := by
  simp only [daysBeforeMonth, monthLength, yearLength]
  split <;> rfl

theorem daysBeforeMonth_mono (year : ℕ) : Monotone (daysBeforeMonth year) :=
  monotone_nat_of_le_succ fun _ => Nat.le_add_right _ _

/-- A date is in its month. -/
theorem Date.Valid.inMonth {date : Date} (hvalid : date.Valid) :
    daysBeforeMonth date.year date.month ≤
        daysBeforeMonth date.year date.month + (date.day - 1) ∧
      daysBeforeMonth date.year date.month + (date.day - 1) <
        daysBeforeMonth date.year (date.month + 1) := by
  have hpos := hvalid.day_pos
  have hday := hvalid.day_le
  rw [daysBeforeMonth]
  omega

/-- A date is in its year. -/
theorem Date.Valid.inYear {date : Date} (hvalid : date.Valid) :
    InYear date.year date.number := by
  have hmonths : daysBeforeMonth date.year (date.month + 1) ≤ daysBeforeMonth date.year 13 :=
    daysBeforeMonth_mono date.year (Nat.succ_le_succ hvalid.month_le)
  have hin := hvalid.inMonth.2
  rw [daysBeforeMonth_end] at hmonths
  rw [InYear, Date.number, daysBeforeYear]
  omega

/-- A day has one date. -/
theorem Date.Valid.eq_of_number {first second : Date} (hfirst : first.Valid)
    (hsecond : second.Valid) (hnumber : first.number = second.number) : first = second := by
  have hyear : first.year = second.year := by
    have hin := hfirst.inYear
    rw [hnumber] at hin
    exact hin.unique hsecond.inYear
  have hrest : daysBeforeMonth second.year first.month + (first.day - 1) =
      daysBeforeMonth second.year second.month + (second.day - 1) := by
    rw [Date.number, Date.number, hyear, Nat.add_assoc, Nat.add_assoc] at hnumber
    exact Nat.add_left_cancel hnumber
  have hmonth : first.month = second.month := by
    have hin := hfirst.inMonth
    rw [hyear, hrest] at hin
    exact eq_of_between (daysBeforeMonth_mono second.year) hin hsecond.inMonth
  have hday : first.day = second.day := by
    have hpos := hfirst.day_pos
    have hother := hsecond.day_pos
    rw [hmonth] at hrest
    omega
  exact Date.ext hyear hmonth hday

/-- Days are in the order of their dates, the year before the month before the day. -/
theorem Date.Valid.lt_of_number_lt {first second : Date} (hfirst : first.Valid)
    (hsecond : second.Valid) (hnumber : first.number < second.number) :
    first.year < second.year ∨ first.year = second.year ∧
      (first.month < second.month ∨ first.month = second.month ∧ first.day < second.day) := by
  have hyear : first.year ≤ second.year := by
    apply Nat.le_of_lt_succ
    apply daysBeforeYear_mono.reflect_lt
    exact Nat.lt_of_le_of_lt hfirst.inYear.1 (Nat.lt_trans hnumber hsecond.inYear.2)
  rcases Nat.lt_or_eq_of_le hyear with hearlier | hsame
  · exact .inl hearlier
  · refine .inr ⟨hsame, ?_⟩
    have hrest : daysBeforeMonth second.year first.month + (first.day - 1) <
        daysBeforeMonth second.year second.month + (second.day - 1) := by
      rw [Date.number, Date.number, hsame, Nat.add_assoc, Nat.add_assoc] at hnumber
      exact Nat.lt_of_add_lt_add_left hnumber
    have hin := hfirst.inMonth.1
    rw [hsame] at hin
    have hmonth : first.month ≤ second.month := by
      apply Nat.le_of_lt_succ
      apply (daysBeforeMonth_mono second.year).reflect_lt
      exact Nat.lt_of_le_of_lt hin (Nat.lt_trans hrest hsecond.inMonth.2)
    rcases Nat.lt_or_eq_of_le hmonth with hbefore | heq
    · exact .inl hbefore
    · refine .inr ⟨heq, ?_⟩
      rw [heq] at hrest
      omega

/-! ## Years that begin in March -/

/-- The first of March of the year. -/
def firstOfMarch (year : ℕ) : ℕ := Date.number ⟨year, 3, 1⟩

theorem firstOfMarch_eq (year : ℕ) :
    firstOfMarch year = 365 * year + year / 4 - year / 100 + year / 400 + 60 := by
  have hnext := leapYearsBefore_succ year
  have hclosed : leapYearsBefore (year + 1) = year / 4 - year / 100 + year / 400 + 1 := by
    rw [leapYearsBefore]
    omega
  have hmarch : firstOfMarch year = daysBeforeYear year + (31 + monthLength year 2) := rfl
  have hhundreds : year / 100 ≤ year / 4 := Nat.div_le_div_left (by decide) (by decide)
  rw [hmarch, daysBeforeYear_eq, monthLength]
  by_cases hleap : IsLeap year
  · rw [if_pos hleap] at hnext ⊢
    omega
  · rw [if_neg hleap] at hnext ⊢
    omega

/-- The months before month `index` of a year from March on have so many days. -/
def marchOffset (index : ℕ) : ℕ := (153 * index + 2) / 5

/-- The day after `offset` days of the year that begins in March of `year`, in month
`index` of that year. -/
def marchDate (year index offset : ℕ) : Date where
  year := year + if index < 10 then 0 else 1
  month := if index < 10 then index + 3 else index - 9
  day := offset - marchOffset index + 1

theorem daysBeforeMonth_march (year : ℕ) {index : ℕ} (hindex : index < 10) :
    daysBeforeMonth year (index + 3) = daysBeforeMonth year 3 + marchOffset index := by
  interval_cases index <;> rfl

/-- January and February end the year that began in March before. -/
theorem daysBeforeMonth_january (year : ℕ) {index : ℕ} (hlow : 10 ≤ index)
    (hhigh : index < 12) :
    yearLength year + daysBeforeMonth (year + 1) (index - 9) =
      daysBeforeMonth year 3 + marchOffset index := by
  rw [← daysBeforeMonth_end]
  interval_cases index <;> rfl

theorem number_marchDate (year : ℕ) {index offset : ℕ} (hindex : index < 12)
    (hoffset : marchOffset index ≤ offset) :
    (marchDate year index offset).number = firstOfMarch year + offset := by
  rw [Date.number, marchDate, firstOfMarch, Date.number]
  by_cases hmarch : index < 10
  · have hmonths := daysBeforeMonth_march year hmarch
    simp only [if_pos hmarch, Nat.add_zero]
    omega
  · have hmonths := daysBeforeMonth_january year (Nat.le_of_not_lt hmarch) hindex
    simp only [if_neg hmarch, daysBeforeYear]
    omega

/-- The month in which `offset` days of a year from March on have passed. -/
def marchIndex (offset : ℕ) : ℕ := (5 * offset + 2) / 153

theorem marchOffset_marchIndex_le (offset : ℕ) : marchOffset (marchIndex offset) ≤ offset := by
  rw [marchOffset, marchIndex]
  omega

theorem lt_marchOffset_succ (offset : ℕ) : offset < marchOffset (marchIndex offset + 1) := by
  rw [marchOffset, marchIndex]
  omega

theorem firstOfMarch_succ (year : ℕ) :
    firstOfMarch (year + 1) =
      firstOfMarch year + marchOffset 11 + monthLength (year + 1) 2 := by
  have hmonths : yearLength year + daysBeforeMonth (year + 1) 2 =
      daysBeforeMonth year 3 + marchOffset 11 :=
    @daysBeforeMonth_january year 11 (by decide) (by decide)
  have hfebruary : daysBeforeMonth (year + 1) 3 =
      daysBeforeMonth (year + 1) 2 + monthLength (year + 1) 2 := rfl
  rw [firstOfMarch, firstOfMarch, Date.number, Date.number]
  simp only [daysBeforeYear, hfebruary]
  omega

/-- Except for the last one the months end where the next one begins. -/
theorem marchOffset_succ (year : ℕ) {index : ℕ} (offset : ℕ) (hindex : index < 11) :
    marchOffset (index + 1) = marchOffset index +
      monthLength (marchDate year index offset).year (marchDate year index offset).month := by
  interval_cases index <;> rfl

theorem marchIndex_lt (year : ℕ) {offset : ℕ}
    (hoffset : firstOfMarch year + offset < firstOfMarch (year + 1)) :
    marchIndex offset < 12 := by
  have hfebruary : monthLength (year + 1) 2 ≤ 29 := by
    rw [monthLength]
    split <;> decide
  rw [firstOfMarch_succ, marchOffset] at hoffset
  rw [marchIndex]
  omega

/-- From the first of March on every day up to the end of February has its date. -/
theorem valid_marchDate (year : ℕ) {offset : ℕ}
    (hoffset : firstOfMarch year + offset < firstOfMarch (year + 1)) :
    (marchDate year (marchIndex offset) offset).Valid := by
  have hstart := marchOffset_marchIndex_le offset
  have hend := lt_marchOffset_succ offset
  have hindex := marchIndex_lt year hoffset
  rw [firstOfMarch_succ] at hoffset
  generalize marchIndex offset = index at hstart hend hindex
  have hmonth : (marchDate year index offset).month =
      if index < 10 then index + 3 else index - 9 := rfl
  have hday : (marchDate year index offset).day = offset - marchOffset index + 1 := rfl
  have hfits : (marchDate year index offset).day ≤
      monthLength (marchDate year index offset).year (marchDate year index offset).month := by
    by_cases hlast : index < 11
    · have hnext := marchOffset_succ year offset hlast
      omega
    · obtain rfl : index = 11 := by omega
      rw [hday]
      show _ ≤ monthLength (year + 1) 2
      omega
  exact {
    month_pos := by rw [hmonth]; split <;> omega
    month_le := by rw [hmonth]; split <;> omega
    day_pos := by omega
    day_le := hfits }

end FrogAgent.Gregorian
