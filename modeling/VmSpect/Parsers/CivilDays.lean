import VmSpect.Lib.Gregorian
import VmSpect.Parsers.Windows

/-!
# `civil_from_days` is the Gregorian calendar

`civil_from_days` counts years from 1 March, so that the leap day is the last of its year, and takes
a number of days apart into cycles of 400 years, years and months. `MarchParts` are these parts of a
date, computed from the date. `civilFromDays_number` shows that the algorithm finds them again,
which makes it the inverse of the count of days, and so the calendar.
-/

namespace VmSpect.Windows

open Gregorian

/-- The year of a cycle of 400 years in which a day lies, as `civil_from_days` computes it. -/
def yearOfEra (doe : ℕ) : ℕ := (doe - doe / 1460 + doe / 36524 - doe / 146096) / 365

/-- The division by the length of a cycle rounds down. -/
theorem era_eq (z : ℤ) : (if 0 ≤ z then z else z - 146096).tdiv 146097 = z / 146097 := by
  split
  · exact Int.tdiv_eq_ediv_of_nonneg ‹_›
  · have hneg : (z - 146096).tdiv 146097 = -((146096 - z).tdiv 146097) := by
      rw [← Int.neg_tdiv, neg_sub]
    rw [hneg, Int.tdiv_eq_ediv_of_nonneg (by omega)]
    omega

/-- The number of 1460 days in a cycle before a day is that of the periods of four years, and one
more at the end of the last year of a period. Without it, and with the leap days of the centuries
put back, 365 days are left for every year. -/
theorem yearOfEra_eq {century quad year doy : ℕ} (hcentury : century ≤ 3) (hquad : quad ≤ 24)
    (hyear : year ≤ 3) (hdoy : doy ≤ 365)
    (hleap : doy = 365 → year = 3 ∧ (quad < 24 ∨ century = 3)) :
    yearOfEra (36524 * century + 1461 * quad + 365 * year + doy) =
      100 * century + 4 * quad + year := by
  generalize hdoe : 36524 * century + 1461 * quad + 365 * year + doy = doe
  have hcenturies : doe / 36524 - doe / 146096 = century := by
    rcases Nat.lt_or_ge doe (36524 * (century + 1)) with hlt | hge
    · have hquot : doe / 36524 = century := by omega
      have hzero : doe / 146096 = 0 := by omega
      omega
    · -- The last day of the cycle.
      obtain rfl : century = 3 := by omega
      obtain rfl : doe = 146096 := by omega
      rfl
  have hperiods : doe / 1460 = 25 * century + quad +
      (24 * century + quad + 365 * year + doy) / 1460 := by omega
  have hrest : doe - doe / 1460 + doe / 36524 - doe / 146096 =
      36500 * century + 1460 * quad + 365 * year + doy -
        (24 * century + quad + 365 * year + doy) / 1460 := by
    omega
  unfold yearOfEra
  rw [hrest]
  rcases Nat.lt_or_ge (24 * century + quad + 365 * year + doy) 1460 with hlt | hge
  · rw [Nat.div_eq_of_lt hlt]
    omega
  · have hone : (24 * century + quad + 365 * year + doy) / 1460 = 1 := by omega
    rw [hone]
    omega

/-- The days of a year from 1 March before a month of it, as `civil_from_days` computes them. -/
def daysBeforeMarchMonth (mp : ℕ) : ℕ := (153 * mp + 2) / 5

/-- From March to December, the months of the year before are counted from the next January back. -/
theorem daysBeforeMonth_march (year : ℤ) {mp : ℕ} (h : mp < 10) :
    daysBeforeMonth year (mp + 3) + 306 = daysBeforeMonth year 13 + daysBeforeMarchMonth mp := by
  rw [daysBeforeMonth_eq year (by omega) (by omega),
    daysBeforeMonth_eq year (by norm_num) (by norm_num)]
  have hmarch : 3 ≤ mp + 3 := Nat.le_add_left 3 mp
  have hnext : 3 ≤ 13 := by norm_num
  simp only [hmarch, hnext, true_and]
  have hdays :
      [0, 0, 31, 59, 90, 120, 151, 181, 212, 243, 273, 304, 334, 365].getD (mp + 3) 0 + 306 =
        365 + daysBeforeMarchMonth mp := by
    interval_cases mp <;> rfl
  have hyear :
      [0, 0, 31, 59, 90, 120, 151, 181, 212, 243, 273, 304, 334, 365].getD 13 0 = 365 := rfl
  rw [hyear]
  omega

/-- The parts of a date: its cycle of 400 years, its year in the cycle and its month, where years
start on 1 March. -/
structure MarchParts (date : Date) where
  era : ℤ
  yoe : ℕ
  mp : ℕ
  yoe_lt : yoe < 400
  mp_le : mp ≤ 11
  month_eq : date.month = if mp < 10 then mp + 3 else mp - 9
  year_eq : date.year = yoe + era * 400 + if date.month ≤ 2 then 1 else 0

namespace MarchParts

variable {date : Date}

/-- The parts of every date. -/
def of (date : Date) : MarchParts date :=
  have hpos := date.month_pos
  have hle := date.month_le
  let year := if date.month ≤ 2 then date.year - 1 else date.year
  { era := year / 400
    yoe := (year % 400).toNat
    mp := if date.month ≤ 2 then date.month + 9 else date.month - 3
    yoe_lt := by omega
    mp_le := by split <;> omega
    month_eq := by split_ifs <;> omega
    year_eq := by
      simp only [year]
      split_ifs <;> omega }

/-- The day of the year. -/
def doy (p : MarchParts date) : ℕ := daysBeforeMarchMonth p.mp + (date.day - 1)

/-- The day of the cycle. -/
def doe (p : MarchParts date) : ℕ := 365 * p.yoe + p.yoe / 4 - p.yoe / 100 + p.doy

/-- A date lies before the next month. -/
theorem doy_lt (p : MarchParts date) : p.doy < daysBeforeMarchMonth (p.mp + 1) := by
  have hpos := date.day_pos
  have hday := date.day_le
  have hmonth := p.month_eq
  have hmp := p.mp_le
  unfold monthLength at hday
  unfold doy daysBeforeMarchMonth
  generalize p.mp = mp at *
  -- Month by month.
  interval_cases mp
  all_goals
    split_ifs at hday hmonth
    all_goals omega

/-- A year has 366 days only if its last month is the February of a leap year. -/
theorem doy_le (p : MarchParts date) : p.doy ≤ 365 ∧ (p.doy = 365 → IsLeap (p.yoe + 1)) := by
  have hpos := date.day_pos
  have hday := date.day_le
  have hmonth := p.month_eq
  have hyear := p.year_eq
  have hmp := p.mp_le
  have hnext := p.doy_lt
  unfold doy daysBeforeMarchMonth at *
  rcases Nat.lt_or_ge p.mp 11 with hlt | hge
  · exact ⟨by omega, fun h => absurd h (by omega)⟩
  · have hlast : p.mp = 11 := by omega
    have hfebruary : date.month = 2 := by rw [hmonth, hlast, if_neg (by norm_num)]
    unfold monthLength at hday
    rw [if_pos hfebruary] at hday
    rw [if_pos (by omega)] at hyear
    by_cases hleap : IsLeap date.year
    · rw [if_pos hleap] at hday
      rw [hyear] at hleap
      unfold IsLeap at *
      exact ⟨by omega, fun _ => by omega⟩
    · rw [if_neg hleap] at hday
      exact ⟨by omega, fun h => absurd h (by omega)⟩

/-- The algorithm finds the month. -/
theorem mp_eq (p : MarchParts date) : (5 * p.doy + 2) / 153 = p.mp := by
  have hlo : daysBeforeMarchMonth p.mp ≤ p.doy := Nat.le_add_right _ _
  have hhi := p.doy_lt
  unfold daysBeforeMarchMonth at hlo hhi
  omega

/-- The algorithm finds the year. -/
theorem yearOfEra_doe (p : MarchParts date) : p.doe < 146097 ∧ yearOfEra p.doe = p.yoe := by
  have hyoe := p.yoe_lt
  obtain ⟨hdoy, hleap⟩ := p.doy_le
  unfold IsLeap at hleap
  have hquad : p.yoe % 100 / 4 ≤ 24 := by omega
  have hparts : 100 * (p.yoe / 100) + 4 * (p.yoe % 100 / 4) + p.yoe % 4 = p.yoe := by omega
  have hdoe : p.doe =
      36524 * (p.yoe / 100) + 1461 * (p.yoe % 100 / 4) + 365 * (p.yoe % 4) + p.doy := by
    unfold doe
    omega
  refine ⟨by unfold doe; omega, ?_⟩
  rw [hdoe, yearOfEra_eq (by omega) hquad (by omega) hdoy (by omega), hparts]

/-- The days that are counted up to a date, from 1 March of the year 0. -/
theorem number_eq (p : MarchParts date) : date.number + 306 = 146097 * p.era + p.doe := by
  have hpos := date.day_pos
  have hmonth := p.month_eq
  have hyear := p.year_eq
  have hmp := p.mp_le
  have hyoe := p.yoe_lt
  have hcycle : daysBeforeYear (p.yoe + p.era * 400 + 1) =
      146097 * p.era + (365 * p.yoe + p.yoe / 4 - p.yoe / 100 : ℕ) := by
    unfold daysBeforeYear
    omega
  unfold Date.number doe doy
  rcases Nat.lt_or_ge p.mp 10 with hlt | hge
  · have hmarch := daysBeforeMonth_march date.year hlt
    have hnext := daysBeforeYear_succ date.year
    rw [if_pos hlt] at hmonth
    rw [if_neg (by omega)] at hyear
    rw [← hmonth] at hmarch
    rw [hyear, add_zero] at hmarch hnext ⊢
    omega
  · have hmonths : daysBeforeMonth date.year date.month + 306 = daysBeforeMarchMonth p.mp := by
      rw [hmonth, if_neg (by omega)]
      interval_cases p.mp <;> rfl
    rw [if_neg (by omega)] at hmonth
    rw [if_pos (by omega)] at hyear
    rw [hyear] at hmonths ⊢
    omega

end MarchParts

/-! ## The algorithm -/

/-- The algorithm undoes the count of days. The epoch is day 719162 from 1 January of the year 1. -/
theorem civilFromDays_number (date : Date) :
    civilFromDays (date.number - 719162) = (date.year, date.month, date.day) := by
  have p := MarchParts.of date
  have hpos := date.day_pos
  have hz : date.number - 719162 + 719468 = 146097 * p.era + p.doe := by
    rw [← p.number_eq]
    ring
  obtain ⟨hlt, hyoe⟩ := p.yearOfEra_doe
  have hera : (146097 * p.era + p.doe) / 146097 = p.era := by omega
  have hdoe : (146097 * p.era + p.doe - p.era * 146097).toNat = p.doe := by omega
  have hdoy : p.doe - (365 * p.yoe + p.yoe / 4 - p.yoe / 100) = p.doy :=
    Nat.add_sub_cancel_left _ _
  have hday : p.doy - daysBeforeMarchMonth p.mp + 1 = date.day := by
    unfold MarchParts.doy
    omega
  unfold yearOfEra at hyoe
  unfold daysBeforeMarchMonth at hday
  simp only [civilFromDays, hz, era_eq, hera, hdoe, hyoe, hdoy, p.mp_eq, ← p.month_eq, hday]
  rw [p.year_eq]
  split
  · rfl
  · rw [add_zero]

/-! ## Overflow -/

/-- What an operation on machine integers can leave: the signed ones or the unsigned ones. -/
inductive Overflow where
  | signed
  | unsigned
  deriving DecidableEq

/-- The result of an operation on `i64`. -/
def i64 (n : ℤ) : Except Overflow ℤ := if -2^63 ≤ n ∧ n < 2^63 then pure n else throw .signed

/-- The result of an operation on `u64`, or of a cast to it. -/
def u64 (n : ℤ) : Except Overflow ℕ :=
  if 0 ≤ n ∧ n < 2^64 then pure n.toNat else throw .unsigned

/-- The result of a cast to `u32`. -/
def u32 (n : ℕ) : Except Overflow ℕ := if n < 2^32 then pure n else throw .unsigned

/-- The cycle of 400 years, with checked operations. -/
def eraChecked (z : ℤ) : Except Overflow ℤ :=
  if 0 ≤ z then pure (z.tdiv 146097)
  else do
    let shifted ← i64 (z - 146096)
    pure (shifted.tdiv 146097)

/-- The year of the cycle, with checked operations. -/
def yearOfEraChecked (doe : ℕ) : Except Overflow ℕ := do
  let days ← u64 (doe - (doe / 1460 : ℕ))
  let days ← u64 (days + (doe / 36524 : ℕ))
  let days ← u64 (days - (doe / 146096 : ℕ))
  pure (days / 365)

/-- The day of the year, with checked operations. -/
def dayOfYearChecked (doe yoe : ℕ) : Except Overflow ℕ := do
  let days ← u64 (365 * yoe)
  let days ← u64 (days + (yoe / 4 : ℕ))
  let days ← u64 (days - (yoe / 100 : ℕ))
  u64 (doe - days)

/-- The month of the year that starts in March, with checked operations. -/
def marchMonthChecked (doy : ℕ) : Except Overflow ℕ := do
  let scaled ← u64 (5 * doy)
  let scaled ← u64 (scaled + 2)
  pure (scaled / 153)

/-- The day of the month, with checked operations. -/
def dayOfMonthChecked (doy mp : ℕ) : Except Overflow ℕ := do
  let scaled ← u64 (153 * mp)
  let scaled ← u64 (scaled + 2)
  let days ← u64 (doy - (scaled / 5 : ℕ))
  let day ← u64 (days + 1)
  u32 day

/-- The month, with checked operations. -/
def monthChecked (mp : ℕ) : Except Overflow ℕ :=
  if mp < 10 then do
    let month ← u64 (mp + 3)
    u32 month
  else do
    let month ← u64 (mp - 9)
    u32 month

/-- `civil_from_days`, with every operation and every cast checked. -/
def civilFromDaysChecked (daysSinceEpoch : ℤ) : Except Overflow (ℤ × ℕ × ℕ) := do
  let z ← i64 (daysSinceEpoch + 719468)
  let era ← eraChecked z
  let before ← i64 (era * 146097)
  let rest ← i64 (z - before)
  let doe ← u64 rest
  let yoe ← yearOfEraChecked doe
  let firstYear ← i64 (era * 400)
  let y ← i64 (yoe + firstYear)
  let doy ← dayOfYearChecked doe yoe
  let mp ← marchMonthChecked doy
  let d ← dayOfMonthChecked doy mp
  let m ← monthChecked mp
  let year ← i64 (if m ≤ 2 then y + 1 else y)
  pure (year, m, d)

/-- What fits an `i64` is not changed. -/
theorem i64_eq {n : ℤ} (h : -2^63 ≤ n ∧ n < 2^63) : i64 n = .ok n := if_pos h

/-- Nor is what fits a `u64`. -/
theorem u64_eq {n : ℤ} (k : ℕ) (h : n = k) (hk : k < 2^64) : u64 n = .ok k := by
  subst h
  exact if_pos ⟨Int.natCast_nonneg k, by exact_mod_cast hk⟩

/-- Nor is what fits a `u32`. -/
theorem u32_eq {n : ℕ} (h : n < 2^32) : u32 n = .ok n := if_pos h

/-- A computation goes on with its first result. -/
theorem ok_bind {α β : Type} (a : α) (f : α → Except Overflow β) :
    (Except.ok a >>= f) = f a := rfl

/-- The cycle does not overflow if the shift by its length does not. -/
theorem eraChecked_eq {z : ℤ} (h : -2^63 + 146096 ≤ z) (hz : z < 2^63) :
    eraChecked z = .ok (z / 146097) := by
  have hera := era_eq z
  unfold eraChecked
  split
  · rw [if_pos ‹_›] at hera
    rw [hera]
    rfl
  · rw [if_neg ‹_›] at hera
    rw [i64_eq (by omega), ok_bind, hera]
    rfl

/-- In a cycle, the year does not underflow. -/
theorem yearOfEraChecked_eq {doe : ℕ} (h : doe < 146097) :
    yearOfEraChecked doe = .ok (yearOfEra doe) := by
  unfold yearOfEraChecked
  rw [u64_eq (doe - doe / 1460) (by omega) (by omega), ok_bind,
    u64_eq (doe - doe / 1460 + doe / 36524) (by omega) (by omega), ok_bind,
    u64_eq (doe - doe / 1460 + doe / 36524 - doe / 146096) (by omega) (by omega), ok_bind]
  rfl

/-- Nor does the day of a year that has begun. -/
theorem dayOfYearChecked_eq {doe yoe : ℕ} (h : doe < 146097)
    (hle : 365 * yoe + yoe / 4 - yoe / 100 ≤ doe) :
    dayOfYearChecked doe yoe = .ok (doe - (365 * yoe + yoe / 4 - yoe / 100)) := by
  unfold dayOfYearChecked
  rw [u64_eq (365 * yoe) (by omega) (by omega), ok_bind,
    u64_eq (365 * yoe + yoe / 4) (by omega) (by omega), ok_bind,
    u64_eq (365 * yoe + yoe / 4 - yoe / 100) (by omega) (by omega), ok_bind,
    u64_eq (doe - (365 * yoe + yoe / 4 - yoe / 100)) (by omega) (by omega)]

/-- The month of a day fits. -/
theorem marchMonthChecked_eq {doy : ℕ} (h : doy ≤ 365) :
    marchMonthChecked doy = .ok ((5 * doy + 2) / 153) := by
  unfold marchMonthChecked
  rw [u64_eq (5 * doy) (by omega) (by omega), ok_bind, u64_eq (5 * doy + 2) (by omega) (by omega),
    ok_bind]
  rfl

/-- The day of a month that has begun does not underflow. -/
theorem dayOfMonthChecked_eq {doy mp : ℕ} (h : doy ≤ 365) (hle : daysBeforeMarchMonth mp ≤ doy) :
    dayOfMonthChecked doy mp = .ok (doy - daysBeforeMarchMonth mp + 1) := by
  unfold daysBeforeMarchMonth at *
  unfold dayOfMonthChecked
  rw [u64_eq (153 * mp) (by omega) (by omega), ok_bind, u64_eq (153 * mp + 2) (by omega) (by omega),
    ok_bind, u64_eq (doy - (153 * mp + 2) / 5) (by omega) (by omega), ok_bind,
    u64_eq (doy - (153 * mp + 2) / 5 + 1) (by omega) (by omega), ok_bind, u32_eq (by omega)]

/-- Nor does the month, which is at least 10 when 9 is taken from it. -/
theorem monthChecked_eq {mp : ℕ} (h : mp ≤ 11) :
    monthChecked mp = .ok (if mp < 10 then mp + 3 else mp - 9) := by
  unfold monthChecked
  split
  · rw [u64_eq (mp + 3) (by omega) (by omega), ok_bind, u32_eq (by omega)]
  · rw [u64_eq (mp - 9) (by omega) (by omega), ok_bind, u32_eq (by omega)]

/-- In the range in which no operation on `i64` overflows, none at all does. -/
theorem civilFromDaysChecked_number (date : Date) (hlo : -2^63 + 146096 ≤ date.number + 306)
    (hhi : date.number + 306 < 2^63) :
    civilFromDaysChecked (date.number - 719162) = .ok (date.year, date.month, date.day) := by
  have p := MarchParts.of date
  have hpos := date.day_pos
  have hyear := p.year_eq
  have hyoelt := p.yoe_lt
  obtain ⟨hlt, hyoe⟩ := p.yearOfEra_doe
  have hz : date.number - 719162 + 719468 = 146097 * p.era + p.doe := by
    rw [← p.number_eq]
    ring
  rw [p.number_eq] at hlo hhi
  have hera : (146097 * p.era + p.doe) / 146097 = p.era := by omega
  have hdoe : 146097 * p.era + p.doe - p.era * 146097 = p.doe := by omega
  have hdoy : p.doe - (365 * p.yoe + p.yoe / 4 - p.yoe / 100) = p.doy :=
    Nat.add_sub_cancel_left _ _
  have hday : p.doy - daysBeforeMarchMonth p.mp + 1 = date.day := by
    unfold MarchParts.doy
    omega
  unfold civilFromDaysChecked
  rw [hz, i64_eq (by omega), ok_bind, eraChecked_eq (by omega) (by omega), ok_bind, hera,
    i64_eq (by omega), ok_bind, hdoe, i64_eq (by omega), ok_bind, u64_eq p.doe rfl (by omega),
    ok_bind, yearOfEraChecked_eq hlt, ok_bind, hyoe, i64_eq (by omega), ok_bind,
    i64_eq (by omega), ok_bind, dayOfYearChecked_eq hlt (Nat.le_add_right _ _), ok_bind, hdoy,
    marchMonthChecked_eq p.doy_le.1, ok_bind, p.mp_eq,
    dayOfMonthChecked_eq p.doy_le.1 (Nat.le_add_right _ _), ok_bind, hday,
    monthChecked_eq p.mp_le, ok_bind, ← p.month_eq]
  have hcivil : (if date.month ≤ 2 then p.yoe + p.era * 400 + 1 else p.yoe + p.era * 400) =
      date.year := by
    rw [hyear]
    split
    · rfl
    · rw [add_zero]
  rw [hcivil, i64_eq (by omega), ok_bind]
  rfl

/-- Outside of that range, one of the first two operations on `i64` overflows. -/
theorem civilFromDaysChecked_error {z : ℤ}
    (h : ¬(-2^63 ≤ z + 719468 - 146096 ∧ z + 719468 < 2^63)) :
    civilFromDaysChecked z = .error .signed := by
  unfold civilFromDaysChecked
  by_cases hz : -2^63 ≤ z + 719468 ∧ z + 719468 < 2^63
  · have hshift : i64 (z + 719468 - 146096) = .error .signed := if_neg (by omega)
    have hera : eraChecked (z + 719468) = .error .signed := by
      unfold eraChecked
      rw [if_neg (by omega), hshift]
      rfl
    rw [i64_eq hz, ok_bind, hera]
    rfl
  · have hshift : i64 (z + 719468) = .error .signed := if_neg hz
    rw [hshift]
    rfl

/-- For every number of days there is a date of the proleptic Gregorian calendar that
`civil_from_days` returns, and for the next number of days it returns the day after that date; the
epoch is 1 January 1970. With machine integers it returns the same date if no operation on `i64`
overflows, which only the shift of the epoch and that of negative days can do, and then no operation
on unsigned integers leaves their range. -/
theorem civilFromDays_gregorian :
    civilFromDays 0 = (1970, 1, 1) ∧ ∀ z : ℤ, ∃ date : Date,
      civilFromDays z = (date.year, date.month, date.day) ∧
      civilFromDays (z + 1) = (date.next.year, date.next.month, date.next.day) ∧
      civilFromDaysChecked z =
        if -2^63 ≤ z + 719468 - 146096 ∧ z + 719468 < 2^63 then
          .ok (date.year, date.month, date.day)
        else .error .signed := by
  refine ⟨by decide, fun z => ?_⟩
  obtain ⟨date, hdate⟩ := Date.exists_number (z + 719162)
  obtain rfl : z = date.number - 719162 := by omega
  refine ⟨date, civilFromDays_number date, ?_, ?_⟩
  · have hnext : date.number - 719162 + 1 = date.next.number - 719162 := by
      rw [Date.number_next]
      ring
    rw [hnext, civilFromDays_number]
  · split
    · exact civilFromDaysChecked_number date (by omega) (by omega)
    · exact civilFromDaysChecked_error ‹_›

/-- Dates of the test of `date_from_epoch`, and the leap days around a century. -/
example : civilFromDays 18719 = (2021, 4, 2) ∧ civilFromDays 10957 = (2000, 1, 1) ∧
    civilFromDays (-25509) = (1900, 2, 28) ∧ civilFromDays (-25508) = (1900, 3, 1) := by
  decide

end VmSpect.Windows
