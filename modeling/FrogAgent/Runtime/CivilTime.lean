import FrogAgent.Lib.Gregorian
import FrogAgent.Lib.MachineInt

/-!
# Civil time

`secs_to_ymd_hms` of `runtime/state_file.rs`, which turns the seconds since 1970 into the date
and the time of the day that the state file carries.  The years of the computation begin in
March and its eras have four hundred of them.
-/

namespace FrogAgent.Runtime

open FrogAgent.Gregorian
open FrogAgent.MachineInt

structure CivilTime where
  year : ℕ
  month : ℕ
  day : ℕ
  hour : ℕ
  minute : ℕ
  second : ℕ
  deriving DecidableEq, Repr

/-- Each operation and each cast of the source has a result of its own, except for divisions
inside another operation, which stay in their type. -/
def secsToYmdHms (secs : UInt64) : Traced CivilTime := do
  let s ← unsigned 32 (secs.toNat % 60 : ℕ)
  let m ← unsigned 32 (secs.toNat / 60 % 60 : ℕ)
  let h ← unsigned 32 (secs.toNat / 3600 % 24 : ℕ)
  let days ← signed 64 (secs.toNat / 86400 : ℕ)
  let z ← signed 64 (days + 719468)
  let era ← signed 64 (z / 146097)
  let eraStart ← signed 64 (era * 146097)
  let dayOfEra ← signed 64 (z - eraStart)
  let doe ← unsigned 64 dayOfEra
  let common ← unsigned 64 (doe - (doe / 1460 : ℕ))
  let centuries ← unsigned 64 (common + (doe / 36524 : ℕ))
  let years ← unsigned 64 (centuries - (doe / 146096 : ℕ))
  let yoe ← unsigned 64 (years / 365 : ℕ)
  let signedYoe ← signed 64 yoe
  let eraYears ← signed 64 (era * 400)
  let y ← signed 64 (signedYoe + eraYears)
  let yearDays ← unsigned 64 (365 * yoe)
  let leapDays ← unsigned 64 (yearDays + (yoe / 4 : ℕ))
  let yearStart ← unsigned 64 (leapDays - (yoe / 100 : ℕ))
  let doy ← unsigned 64 (doe - yearStart)
  let fifths ← unsigned 64 (5 * doy)
  let shifted ← unsigned 64 (fifths + 2)
  let mp ← unsigned 64 (shifted / 153 : ℕ)
  let monthFifths ← unsigned 64 (153 * mp)
  let monthShifted ← unsigned 64 (monthFifths + 2)
  let passed ← unsigned 64 (doy - (monthShifted / 5 : ℕ))
  let dayOfMonth ← unsigned 64 (passed + 1)
  let d ← unsigned 32 dayOfMonth
  let month ← unsigned 64 (if mp < 10 then mp + 3 else mp - 9)
  let mon ← unsigned 32 month
  let signedYear ← signed 64 (y + if mon ≤ 2 then 1 else 0)
  let year ← unsigned 32 signedYear
  return ⟨year, mon, d, h, m, s⟩

/-! ## The year of the era -/

/-- The quotient that gives the year of the era. -/
def yearOfEra (doe : ℕ) : ℕ :=
  (doe - doe / 1460 + doe / 36524 - doe / 146096) / 365

/-- A day of an era, except for the last one, by the centuries, the four-year spans and the
years before it. -/
structure EraDay (doe century span year day : ℕ) : Prop where
  sum : doe = 36524 * century + 1461 * span + 365 * year + day
  century_le : century ≤ 3
  span_le : span ≤ 24
  year_le : year ≤ 3
  day_le : day < 365 ∨ day = 365 ∧ year = 3
  within : 1461 * span + 365 * year + day < 36524

theorem exists_eraDay {doe : ℕ} (hdoe : doe < 146096) :
    ∃ century span year day, EraDay doe century span year day := by
  -- The fourth year of a span is the one with a leap day.
  by_cases hleap : doe % 36524 % 1461 = 1460
  · exact ⟨doe / 36524, doe % 36524 / 1461, 3, 365, by omega, by omega, by omega, by omega,
      by omega, by omega⟩
  · exact ⟨doe / 36524, doe % 36524 / 1461, doe % 36524 % 1461 / 365,
      doe % 36524 % 1461 % 365, by omega, by omega, by omega, by omega, by omega, by omega⟩

section EraDay

variable {doe century span year day : ℕ}

theorem EraDay.yearOfEra_eq (hday : EraDay doe century span year day) :
    yearOfEra doe = 100 * century + 4 * span + year := by
  obtain ⟨hsum, hcentury, hspan, hyear, hlast, hwithin⟩ := hday
  have hcenturies : doe / 36524 = century := by omega
  have heras : doe / 146096 = 0 := by omega
  -- The quotient by a common span may be ahead by one, but not on the first day of a year.
  obtain ⟨carry, hcarry⟩ :
      ∃ carry, carry = (24 * century + span + 365 * year + day) / 1460 := ⟨_, rfl⟩
  have hspans : doe / 1460 = 25 * century + span + carry := by omega
  have hcarryLe : carry ≤ day := by omega
  have hrest : day - carry < 365 := by omega
  have hdays : doe - doe / 1460 + doe / 36524 - doe / 146096 =
      365 * (100 * century + 4 * span + year) + (day - carry) := by
    rw [hcenturies, heras, hspans]
    omega
  rw [yearOfEra, hdays, Nat.mul_add_div (by decide), Nat.div_eq_of_lt hrest, Nat.add_zero]

theorem EraDay.firstOfMarch_eq (hday : EraDay doe century span year day) :
    firstOfMarch (100 * century + 4 * span + year) + day = doe + 60 := by
  obtain ⟨hsum, hcentury, hspan, hyear, hlast, hwithin⟩ := hday
  have hfour : (100 * century + 4 * span + year) / 4 = 25 * century + span := by omega
  have hhundred : (100 * century + 4 * span + year) / 100 = century := by omega
  have hera : (100 * century + 4 * span + year) / 400 = 0 := by omega
  rw [Gregorian.firstOfMarch_eq, hfour, hhundred, hera]
  omega

theorem EraDay.lt_firstOfMarch (hday : EraDay doe century span year day) :
    doe + 60 < firstOfMarch (100 * century + 4 * span + year + 1) := by
  have hstart := hday.firstOfMarch_eq
  have hoffset : marchOffset 11 = 337 := rfl
  rw [firstOfMarch_succ, monthLength]
  obtain ⟨hsum, hcentury, hspan, hyear, hlast, hwithin⟩ := hday
  by_cases hleap : IsLeap (100 * century + 4 * span + year + 1)
  · rw [if_pos hleap]
    omega
  · rw [if_neg hleap]
    rw [IsLeap] at hleap
    omega

end EraDay

/-- The quotient is the year from March to March that has the day. -/
theorem yearOfEra_spec {doe : ℕ} (hdoe : doe < 146097) :
    firstOfMarch (yearOfEra doe) ≤ doe + 60 ∧
      doe + 60 < firstOfMarch (yearOfEra doe + 1) := by
  by_cases hlast : doe = 146096
  · subst hlast
    rw [Gregorian.firstOfMarch_eq, Gregorian.firstOfMarch_eq]
    decide
  · obtain ⟨century, span, year, day, hday⟩ :=
      exists_eraDay (Nat.lt_of_le_of_ne (Nat.le_of_lt_succ hdoe) hlast)
    have hstart := hday.firstOfMarch_eq
    rw [hday.yearOfEra_eq]
    exact ⟨by omega, hday.lt_firstOfMarch⟩

theorem yearOfEra_lt {doe : ℕ} (hdoe : doe < 146097) : yearOfEra doe < 400 := by
  rw [yearOfEra]
  omega

theorem firstOfMarch_era (era year : ℕ) :
    firstOfMarch (400 * era + year) = 146097 * era + firstOfMarch year := by
  rw [Gregorian.firstOfMarch_eq, Gregorian.firstOfMarch_eq]
  omega

/-! ## The date of a day -/

def epoch : Date := ⟨1970, 1, 1⟩

theorem number_epoch : epoch.number = 719528 := by
  rw [epoch, Date.number, daysBeforeYear_eq]
  rfl

/-- The year from March to March that the code finds for a day after the epoch. -/
def marchYear (days : ℕ) : ℕ :=
  400 * ((days + 719468) / 146097) + yearOfEra ((days + 719468) % 146097)

theorem marchYear_spec (days : ℕ) :
    firstOfMarch (marchYear days) ≤ days + epoch.number ∧
      days + epoch.number < firstOfMarch (marchYear days + 1) := by
  have hera := yearOfEra_spec (Nat.mod_lt (days + 719468) (by decide : 146097 > 0))
  rw [number_epoch, marchYear, Nat.add_assoc, firstOfMarch_era, firstOfMarch_era]
  omega

/-- The days from the first of March to the day. -/
def marchDay (days : ℕ) : ℕ := days + epoch.number - firstOfMarch (marchYear days)

def civilDate (days : ℕ) : Date :=
  marchDate (marchYear days) (marchIndex (marchDay days)) (marchDay days)

theorem firstOfMarch_add_marchDay (days : ℕ) :
    firstOfMarch (marchYear days) + marchDay days = days + epoch.number := by
  rw [marchDay]
  exact Nat.add_sub_of_le (marchYear_spec days).1

theorem marchDay_lt (days : ℕ) :
    firstOfMarch (marchYear days) + marchDay days < firstOfMarch (marchYear days + 1) := by
  rw [firstOfMarch_add_marchDay]
  exact (marchYear_spec days).2

theorem civilDate_valid (days : ℕ) : (civilDate days).Valid :=
  valid_marchDate (marchYear days) (marchDay_lt days)

/-- The date is as many days after the epoch as it should be. -/
theorem number_civilDate (days : ℕ) : (civilDate days).number = days + epoch.number := by
  rw [civilDate, number_marchDate _ (marchIndex_lt _ (marchDay_lt days))
    (marchOffset_marchIndex_le _), firstOfMarch_add_marchDay]

/-- The day of the year from March on by the day of the era, as the code has it. -/
theorem marchDay_eq (days : ℕ) {doe : ℕ} (hdoe : doe = (days + 719468) % 146097) :
    365 * yearOfEra doe + yearOfEra doe / 4 - yearOfEra doe / 100 + marchDay days = doe := by
  have hyoe : yearOfEra doe < 400 := yearOfEra_lt (by omega)
  have hsum := firstOfMarch_add_marchDay days
  rw [number_epoch, marchYear, ← hdoe, firstOfMarch_era, Gregorian.firstOfMarch_eq] at hsum
  omega

/-! ## The machine run -/

/-- The variables of the source for a day after the epoch, with what bounds them. -/
structure CivilSteps (days : ℕ) where
  era : ℕ
  doe : ℕ
  yoe : ℕ
  doy : ℕ
  mp : ℕ
  monthStart : ℕ
  date : Date
  era_eq : era = (days + 719468) / 146097
  doe_eq : doe = (days + 719468) % 146097
  yoe_eq : yoe = (doe - doe / 1460 + doe / 36524 - doe / 146096) / 365
  yoe_lt : yoe < 400
  doy_eq : 365 * yoe + yoe / 4 - yoe / 100 + doy = doe
  mp_eq : mp = (5 * doy + 2) / 153
  mp_lt : mp < 12
  monthStart_eq : monthStart = (153 * mp + 2) / 5
  monthStart_le : monthStart ≤ doy
  day_eq : date.day = doy - monthStart + 1
  month_eq : date.month = if mp < 10 then mp + 3 else mp - 9
  year_eq : date.year = 400 * era + yoe + if mp < 10 then 0 else 1

/-- The date of the day goes through these steps. -/
def civilSteps (days : ℕ) : CivilSteps days where
  era := (days + 719468) / 146097
  doe := (days + 719468) % 146097
  yoe := yearOfEra ((days + 719468) % 146097)
  doy := marchDay days
  mp := marchIndex (marchDay days)
  monthStart := marchOffset (marchIndex (marchDay days))
  date := civilDate days
  era_eq := rfl
  doe_eq := rfl
  yoe_eq := rfl
  yoe_lt := yearOfEra_lt (Nat.mod_lt _ (by decide))
  doy_eq := marchDay_eq days rfl
  mp_eq := rfl
  mp_lt := marchIndex_lt _ (marchDay_lt days)
  monthStart_eq := rfl
  monthStart_le := marchOffset_marchIndex_le _
  day_eq := rfl
  month_eq := rfl
  year_eq := rfl

/-- The carry of the source asks for the month. -/
theorem CivilSteps.year_carry {days : ℕ} (steps : CivilSteps days) :
    (steps.date.year : ℤ) =
      400 * steps.era + steps.yoe + if steps.date.month ≤ 2 then 1 else 0 := by
  have hrange := steps.mp_lt
  rw [steps.year_eq, steps.month_eq]
  by_cases hmarch : steps.mp < 10
  · rw [if_pos hmarch, if_pos hmarch, if_neg (by omega)]
    push_cast
    rfl
  · rw [if_neg hmarch, if_neg hmarch, if_pos (by omega)]
    push_cast
    rfl

/-- Nothing but the last cast can change a result: for every input the code finds the date and
the time of the day, and takes its year modulo the width. -/
theorem secsToYmdHms_steps (secs : UInt64) {days : ℕ} (hdays : days = secs.toNat / 86400)
    (steps : CivilSteps days) :
    secsToYmdHms secs = do
      let year ← unsigned 32 steps.date.year
      return ⟨year, steps.date.month, steps.date.day, secs.toNat / 3600 % 24,
        secs.toNat / 60 % 60, secs.toNat % 60⟩ := by
  have hsecs : secs.toNat < 2 ^ 64 := secs.toNat_lt
  have hbound : days < 2 ^ 48 := by omega
  rw [secsToYmdHms, unsigned_bind (secs.toNat % 60) rfl (by omega),
    unsigned_bind (secs.toNat / 60 % 60) rfl (by omega),
    unsigned_bind (secs.toNat / 3600 % 24) rfl (by omega), ← hdays]
  clear hdays hsecs
  -- The era and the day in it.
  have hera := steps.era_eq
  have hdoe := steps.doe_eq
  rw [signed_bind days rfl (by omega),
    signed_bind (days + 719468) (by omega) (by omega),
    signed_bind steps.era (by omega) (by omega),
    signed_bind (steps.era * 146097) (by omega) (by omega),
    signed_bind steps.doe (by omega) (by omega),
    unsigned_bind steps.doe rfl (by omega)]
  have heraBound : steps.era < 2 ^ 48 := by omega
  have hdoeBound : steps.doe < 146097 := by omega
  clear hera hdoe
  -- The year of the era.
  have hyoe := steps.yoe_eq
  have hyoeBound := steps.yoe_lt
  rw [unsigned_bind (steps.doe - steps.doe / 1460) (by omega) (by omega),
    unsigned_bind (steps.doe - steps.doe / 1460 + steps.doe / 36524) (by omega) (by omega),
    unsigned_bind (steps.doe - steps.doe / 1460 + steps.doe / 36524 - steps.doe / 146096)
      (by omega) (by omega),
    unsigned_bind steps.yoe (by omega) (by omega)]
  clear hyoe
  rw [signed_bind steps.yoe rfl (by omega),
    signed_bind (steps.era * 400) (by omega) (by omega),
    signed_bind (400 * steps.era + steps.yoe) (by omega) (by omega)]
  -- The day of the year that begins in March.
  have hdoy := steps.doy_eq
  rw [unsigned_bind (365 * steps.yoe) (by omega) (by omega),
    unsigned_bind (365 * steps.yoe + steps.yoe / 4) (by omega) (by omega),
    unsigned_bind (365 * steps.yoe + steps.yoe / 4 - steps.yoe / 100) (by omega) (by omega),
    unsigned_bind steps.doy (by omega) (by omega)]
  have hdoyBound : steps.doy < 146097 := by omega
  clear hdoy
  -- Its month, and the day of the month.
  have hmp := steps.mp_eq
  rw [unsigned_bind (5 * steps.doy) (by omega) (by omega),
    unsigned_bind (5 * steps.doy + 2) (by omega) (by omega),
    unsigned_bind steps.mp (by omega) (by omega)]
  have hmpBound := steps.mp_lt
  have hstart := steps.monthStart_eq
  have hpassed := steps.monthStart_le
  have hday := steps.day_eq
  rw [unsigned_bind (153 * steps.mp) (by omega) (by omega),
    unsigned_bind (153 * steps.mp + 2) (by omega) (by omega),
    unsigned_bind (steps.doy - steps.monthStart) (by omega) (by omega),
    unsigned_bind steps.date.day (by omega) (by omega),
    unsigned_bind steps.date.day rfl (by omega)]
  clear hmp hstart hpassed hday
  -- The month and the year from January on.
  have hmonth : (if steps.mp < 10 then (steps.mp : ℤ) + 3 else steps.mp - 9) =
      steps.date.month := by
    rw [steps.month_eq]
    split <;> omega
  have hmonthBound : steps.date.month ≤ 12 := by
    rw [steps.month_eq]
    split <;> omega
  have hyearBound : steps.date.year ≤ 400 * steps.era + steps.yoe + 1 := by
    rw [steps.year_eq]
    split <;> omega
  have hcarry := steps.year_carry
  rw [unsigned_bind steps.date.month hmonth (by omega),
    unsigned_bind steps.date.month rfl (by omega),
    signed_bind steps.date.year (by omega) (by omega)]

/-- The date and the time of the day are found for every input. -/
theorem secsToYmdHms_eq (secs : UInt64) :
    secsToYmdHms secs = do
      let year ← unsigned 32 (civilDate (secs.toNat / 86400)).year
      return ⟨year, (civilDate (secs.toNat / 86400)).month,
        (civilDate (secs.toNat / 86400)).day, secs.toNat / 3600 % 24,
        secs.toNat / 60 % 60, secs.toNat % 60⟩ :=
  secsToYmdHms_steps secs rfl (civilSteps _)

/-! ## Exactness -/

/-- The year of the instant is a `u32`. -/
def YearFits (secs : UInt64) : Prop :=
  ∃ year < 2 ^ 32, InYear year (epoch.number + secs.toNat / 86400)

theorem yearFits_iff (secs : UInt64) :
    YearFits secs ↔ (civilDate (secs.toNat / 86400)).year < 2 ^ 32 := by
  have hin := (civilDate_valid (secs.toNat / 86400)).inYear
  rw [number_civilDate, Nat.add_comm] at hin
  constructor
  · rintro ⟨year, hyear, hother⟩
    rwa [hin.unique hother]
  · intro hyear
    exact ⟨_, hyear, hin⟩

/-- Every operation and every cast is exact just for the instants whose year fits. -/
theorem lossless_secsToYmdHms_iff (secs : UInt64) :
    (secsToYmdHms secs).lossless = true ↔ YearFits secs := by
  rw [yearFits_iff, secsToYmdHms_eq, lossless_bind, lossless_unsigned, lossless_pure,
    Bool.and_true, decide_eq_true_iff]

theorem daysBetween_civilDate (days : ℕ) : daysBetween epoch (civilDate days) = days := by
  rw [daysBetween, number_civilDate, Nat.cast_add, add_sub_cancel_right]

/-- The other way round: a date and a time of the day come back from their instant. -/
theorem secsToYmdHms_of_date {secs : UInt64} {date : Date} {hour minute second : ℕ}
    (hvalid : date.Valid) (hyear : date.year < 2 ^ 32) (hhour : hour < 24)
    (hminute : minute < 60) (hsecond : second < 60)
    (hsecs : daysBetween epoch date * 86400 + 3600 * hour + 60 * minute + second =
      secs.toNat) :
    secsToYmdHms secs =
      pure ⟨date.year, date.month, date.day, hour, minute, second⟩ := by
  have hdays : daysBetween epoch date = (secs.toNat / 86400 : ℕ) := by omega
  have hdate : civilDate (secs.toNat / 86400) = date := by
    apply (civilDate_valid _).eq_of_number hvalid
    rw [daysBetween] at hdays
    rw [number_civilDate]
    omega
  have hhours : secs.toNat / 3600 % 24 = hour := by omega
  have hminutes : secs.toNat / 60 % 60 = minute := by omega
  have hseconds : secs.toNat % 60 = second := by omega
  rw [secsToYmdHms_eq, hdate, unsigned_bind _ rfl hyear, hhours, hminutes, hseconds]

/-- If its year fits, an instant gets the date and the time that lie as many seconds after the
epoch, with every subtraction and every cast on the way exact. -/
theorem secsToYmdHms_exact (secs : UInt64) (hyear : YearFits secs) :
    ∃ time, secsToYmdHms secs = ⟨time, true⟩ ∧
      (1 ≤ time.month ∧ time.month ≤ 12) ∧
      (1 ≤ time.day ∧ time.day ≤ monthLength time.year time.month) ∧
      time.hour < 24 ∧ time.minute < 60 ∧ time.second < 60 ∧
      daysBetween epoch ⟨time.year, time.month, time.day⟩ * 86400 +
        3600 * time.hour + 60 * time.minute + time.second = secs.toNat := by
  have hvalid := civilDate_valid (secs.toNat / 86400)
  have hdays := daysBetween_civilDate (secs.toNat / 86400)
  rw [secsToYmdHms_eq, unsigned_bind _ rfl ((yearFits_iff secs).mp hyear)]
  refine ⟨_, rfl, ⟨hvalid.month_pos, hvalid.month_le⟩, ⟨hvalid.day_pos, hvalid.day_le⟩,
    Nat.mod_lt _ (by decide), Nat.mod_lt _ (by decide), Nat.mod_lt _ (by decide), ?_⟩
  change daysBetween epoch (civilDate (secs.toNat / 86400)) * 86400 +
    3600 * (secs.toNat / 3600 % 24 : ℕ) + 60 * (secs.toNat / 60 % 60 : ℕ) +
      (secs.toNat % 60 : ℕ) = (secs.toNat : ℤ)
  rw [hdays]
  omega

/-- The last second of the leap day of a century year. -/
theorem secsToYmdHms_leap_day :
    ∃ time, secsToYmdHms 951868799 = ⟨time, true⟩ ∧ time = ⟨2000, 2, 29, 23, 59, 59⟩ ∧
      daysBetween epoch ⟨time.year, time.month, time.day⟩ * 86400 +
        3600 * time.hour + 60 * time.minute + time.second = 951868799 := by
  have hyear : YearFits 951868799 := by
    refine ⟨2000, by decide, ?_⟩
    rw [InYear, daysBeforeYear_eq, daysBeforeYear_eq, number_epoch]
    decide
  obtain ⟨time, htime, -, -, -, -, -, hsum⟩ := secsToYmdHms_exact 951868799 hyear
  refine ⟨time, htime, ?_, hsum⟩
  have hvalue : (secsToYmdHms 951868799).value = ⟨2000, 2, 29, 23, 59, 59⟩ := by decide
  rw [← hvalue, htime]

end FrogAgent.Runtime
