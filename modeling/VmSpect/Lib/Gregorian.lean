import Mathlib.Algebra.BigOperators.Intervals
import Mathlib.Tactic

/-!
# The proleptic Gregorian calendar

A `Date` is a day of the calendar by construction, and `Date.next` is the day after it. Days are
counted from 1 January of the year 1 (`Date.number`), so that the next day has the next number
(`Date.number_next`) and every integer is the number of a date (`Date.exists_number`). A function
from numbers to dates is the calendar when it undoes the count.
-/

namespace Gregorian

/-- Every fourth year is a leap year, but of the years that end a century only every fourth. -/
def IsLeap (year : ℤ) : Prop := year % 4 = 0 ∧ (year % 100 ≠ 0 ∨ year % 400 = 0)

instance instDecidableIsLeap (year : ℤ) : Decidable (IsLeap year) :=
  inferInstanceAs (Decidable (_ ∧ _))

/-- The days of a month. -/
def monthLength (year : ℤ) (month : ℕ) : ℕ :=
  if month = 2 then if IsLeap year then 29 else 28
  else if month = 4 ∨ month = 6 ∨ month = 9 ∨ month = 11 then 30
  else 31

/-- A date of the calendar. -/
structure Date where
  year : ℤ
  month : ℕ
  day : ℕ
  month_pos : 1 ≤ month
  month_le : month ≤ 12
  day_pos : 1 ≤ day
  day_le : day ≤ monthLength year month

/-- Every month has a first day. -/
theorem monthLength_pos (year : ℤ) (month : ℕ) : 1 ≤ monthLength year month := by
  unfold monthLength
  split_ifs <;> norm_num

namespace Date

/-- The day after a date. -/
def next (date : Date) : Date :=
  if hday : date.day < monthLength date.year date.month then
    ⟨date.year, date.month, date.day + 1, date.month_pos, date.month_le, by omega, hday⟩
  else if hmonth : date.month < 12 then
    ⟨date.year, date.month + 1, 1, by omega, hmonth, le_refl 1, monthLength_pos _ _⟩
  else
    ⟨date.year + 1, 1, 1, le_refl 1, by norm_num, le_refl 1, monthLength_pos _ _⟩

end Date

/-- The days from 1 January of the year 1 to that of a year. -/
def daysBeforeYear (year : ℤ) : ℤ :=
  365 * (year - 1) + (year - 1) / 4 - (year - 1) / 100 + (year - 1) / 400

/-- The days of a year before a month. -/
def daysBeforeMonth (year : ℤ) (month : ℕ) : ℕ := ∑ k ∈ Finset.Ico 1 month, monthLength year k

/-- No month comes before January. -/
theorem daysBeforeMonth_one (year : ℤ) : daysBeforeMonth year 1 = 0 := rfl

/-- A month later. -/
theorem daysBeforeMonth_succ (year : ℤ) {month : ℕ} (h : 1 ≤ month) :
    daysBeforeMonth year (month + 1) = daysBeforeMonth year month + monthLength year month :=
  Finset.sum_Ico_succ_top h _

/-- The months of a year, one by one. -/
theorem daysBeforeMonth_eq (year : ℤ) {month : ℕ} (hpos : 1 ≤ month) (hle : month ≤ 13) :
    daysBeforeMonth year month =
      [0, 0, 31, 59, 90, 120, 151, 181, 212, 243, 273, 304, 334, 365].getD month 0 +
        if 3 ≤ month ∧ IsLeap year then 1 else 0 := by
  induction month, hpos using Nat.le_induction with
  | base => rfl
  | succ month hpos ih =>
    have hmonth : month ≤ 12 := by omega
    rw [daysBeforeMonth_succ year hpos, ih (by omega)]
    unfold monthLength
    by_cases hleap : IsLeap year
    · simp only [hleap, and_true, if_true]
      interval_cases month <;> rfl
    · simp only [hleap, and_false, if_false]
      interval_cases month <;> rfl

/-- A year later. -/
theorem daysBeforeYear_succ (year : ℤ) :
    daysBeforeYear (year + 1) = daysBeforeYear year + daysBeforeMonth year 13 := by
  rw [daysBeforeMonth_eq year (by norm_num) (by norm_num)]
  unfold daysBeforeYear IsLeap
  split
  · push_cast
    simp only [List.getD_cons_succ, List.getD_cons_zero]
    omega
  · simp only [List.getD_cons_succ, List.getD_cons_zero]
    omega

namespace Date

/-- The days from 1 January of the year 1 to a date. -/
def number (date : Date) : ℤ :=
  daysBeforeYear date.year + daysBeforeMonth date.year date.month + (date.day - 1)

/-- The next day has the next number. -/
theorem number_next (date : Date) : date.next.number = date.number + 1 := by
  have hday := date.day_le
  unfold next
  split
  · unfold number
    push_cast
    ring
  rename_i hlast
  obtain hlength : date.day = monthLength date.year date.month := by omega
  split
  · unfold number
    dsimp only
    rw [daysBeforeMonth_succ _ date.month_pos, hlength]
    push_cast
    ring
  · rename_i hdecember
    have hmonth : date.month = 12 := Nat.le_antisymm date.month_le (Nat.not_lt.mp hdecember)
    have hyear := daysBeforeMonth_succ date.year date.month_pos
    unfold number
    dsimp only
    rw [hmonth] at hyear hlength ⊢
    rw [daysBeforeYear_succ, daysBeforeMonth_one, hyear, hlength]
    push_cast
    ring

/-- Every integer is the number of a date. -/
theorem exists_number (n : ℤ) : ∃ date : Date, date.number = n := by
  -- Some first of January comes before `n`, and the days after it are counted up to `n`.
  obtain ⟨first, hfirst⟩ : ∃ first : Date, first.number ≤ n := by
    refine ⟨⟨-|n|, 1, 1, le_rfl, by norm_num, le_rfl, monthLength_pos _ _⟩, ?_⟩
    have habs := neg_abs_le n
    have hpos := abs_nonneg n
    unfold number daysBeforeYear
    rw [daysBeforeMonth_one]
    push_cast
    omega
  obtain ⟨k, hk⟩ := Int.le.dest hfirst
  induction k generalizing n with
  | zero => exact ⟨first, by simpa using hk⟩
  | succ k ih =>
    obtain ⟨date, hdate⟩ := ih (n - 1) (by omega) (by push_cast at hk; omega)
    exact ⟨date.next, by rw [number_next, hdate]; ring⟩

end Date

end Gregorian
