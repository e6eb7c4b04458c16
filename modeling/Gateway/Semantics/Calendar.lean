import Gateway.Semantics.Text
import Mathlib.Algebra.Order.Floor.Semiring
import Mathlib.Data.Rat.Floor
import Mathlib.Tactic.Linarith
import Mathlib.Tactic.FieldSimp

/-! The proleptic Gregorian calendar in UTC. Days are counted from the first of
January 1970 and dates are reached by stepping to the next day, so that order
facts are inductions on the number of days. Instants are rational seconds. -/
namespace Calendar

def isLeap (year : ℕ) : Bool :=
  year % 4 == 0 && (year % 100 != 0 || year % 400 == 0)

def daysInMonth (year month : ℕ) : ℕ :=
  if month = 2 then (if isLeap year then 29 else 28)
  else if month = 4 ∨ month = 6 ∨ month = 9 ∨ month = 11 then 30
  else 31

theorem daysInMonth_pos (year month : ℕ) : 1 ≤ daysInMonth year month := by
  unfold daysInMonth
  split_ifs <;> omega

theorem daysInMonth_le (year month : ℕ) : daysInMonth year month ≤ 31 := by
  unfold daysInMonth
  split_ifs <;> omega

structure Date where
  year : ℕ
  month : ℕ
  day : ℕ
  month_valid : 1 ≤ month ∧ month ≤ 12
  day_valid : 1 ≤ day ∧ day ≤ daysInMonth year month
  deriving DecidableEq

namespace Date

/-- The day after. -/
def next (d : Date) : Date :=
  if h : d.day + 1 ≤ daysInMonth d.year d.month then
    ⟨d.year, d.month, d.day + 1, d.month_valid, by omega, h⟩
  else if hMonth : d.month + 1 ≤ 12 then
    ⟨d.year, d.month + 1, 1, ⟨by omega, hMonth⟩, le_rfl, daysInMonth_pos _ _⟩
  else
    ⟨d.year + 1, 1, 1, ⟨le_rfl, by omega⟩, le_rfl, daysInMonth_pos _ _⟩

/-- Months since the year zero. -/
def monthIndex (d : Date) : ℕ := 12 * d.year + (d.month - 1)

/-- The next day stays in the month and counts on, or opens the next month. -/
theorem next_cases (d : Date) :
    d.next.monthIndex = d.monthIndex ∧ d.next.day = d.day + 1 ∨
      d.next.monthIndex = d.monthIndex + 1 ∧ d.next.day = 1 := by
  have hMonth := d.month_valid
  unfold next monthIndex
  split_ifs
  · exact Or.inl ⟨rfl, rfl⟩
  · refine Or.inr ⟨?_, rfl⟩
    simp only
    omega
  · refine Or.inr ⟨?_, rfl⟩
    simp only
    omega

theorem monthIndex_inj {d d' : Date} (h : d.monthIndex = d'.monthIndex) :
    d.year = d'.year ∧ d.month = d'.month := by
  have hd := d.month_valid
  have hd' := d'.month_valid
  unfold monthIndex at h
  omega

/-- The date of a day counted from 1970-01-01. -/
def ofDay : ℕ → Date
  | 0 => ⟨1970, 1, 1, ⟨le_rfl, by omega⟩, le_rfl, daysInMonth_pos _ _⟩
  | n + 1 => (ofDay n).next

theorem monthIndex_mono : Monotone fun n => (ofDay n).monthIndex := by
  apply monotone_nat_of_le_succ
  intro n
  rcases next_cases (ofDay n) with ⟨h, _⟩ | ⟨h, _⟩ <;>
    (simp only [ofDay]; omega)

/-- Within one month the day of the month counts the days. -/
theorem day_add_of_same_month {n k : ℕ}
    (h : (ofDay (n + k)).monthIndex = (ofDay n).monthIndex) :
    (ofDay (n + k)).day = (ofDay n).day + k := by
  induction k with
  | zero => rfl
  | succ k ih =>
      have hLow : (ofDay n).monthIndex ≤ (ofDay (n + k)).monthIndex :=
        monthIndex_mono (Nat.le_add_right n k)
      have hEnd : (ofDay (n + k)).next.monthIndex = (ofDay n).monthIndex := h
      rcases next_cases (ofDay (n + k)) with ⟨hSame, hDay⟩ | ⟨hNext, _⟩
      · have hPrior := ih (hSame.symm.trans hEnd)
        show (ofDay (n + k)).next.day = _
        omega
      · omega

theorem lt_of_same_month {n m : ℕ} (h : (ofDay m).monthIndex = (ofDay n).monthIndex) :
    m < n + 31 := by
  rcases Nat.le_total m n with hle | hle
  · omega
  · obtain ⟨k, rfl⟩ := Nat.exists_eq_add_of_le hle
    have hDay := day_add_of_same_month h
    have hUpper := (ofDay (n + k)).day_valid.2
    have hLower := (ofDay n).day_valid.1
    have hLength := daysInMonth_le (ofDay (n + k)).year (ofDay (n + k)).month
    omega

theorem ofDay_injective : Function.Injective ofDay := by
  have aux (n k : ℕ) (h : ofDay (n + k) = ofDay n) : k = 0 := by
    have hDay := day_add_of_same_month (congrArg monthIndex h)
    rw [h] at hDay
    omega
  intro n m h
  rcases Nat.le_total n m with hle | hle
  · obtain ⟨k, rfl⟩ := Nat.exists_eq_add_of_le hle
    have := aux n k h.symm
    omega
  · obtain ⟨k, rfl⟩ := Nat.exists_eq_add_of_le hle
    have := aux m k h
    omega

/-- `strftime("%Y-%m")` -/
def isoMonth (d : Date) : String := Nat.repr d.year ++ "-" ++ Text.twoDigits d.month

/-- `strftime("%Y-%m-%d")` -/
def isoDate (d : Date) : String := d.isoMonth ++ "-" ++ Text.twoDigits d.day

theorem isoMonth_inj {d d' : Date} (h : d.isoMonth = d'.isoMonth) :
    d.year = d'.year ∧ d.month = d'.month := by
  have hList := congrArg String.toList h
  simp only [isoMonth, String.toList_append, List.append_assoc] at hList
  obtain ⟨hYear, hMonth⟩ := Text.append_sep_inj (Text.sep_notMem_repr _) (Text.sep_notMem_repr _)
    hList
  exact ⟨Text.repr_injective (String.toList_inj.mp hYear),
    Text.twoDigits_injective (String.toList_inj.mp hMonth)⟩

theorem isoDate_inj {d d' : Date} (h : d.isoDate = d'.isoDate) :
    d.year = d'.year ∧ d.month = d'.month ∧ d.day = d'.day := by
  have hList := congrArg String.toList h
  simp only [isoDate, isoMonth, String.toList_append, List.append_assoc] at hList
  obtain ⟨hYear, hRest⟩ := Text.append_sep_inj (Text.sep_notMem_repr _) (Text.sep_notMem_repr _)
    hList
  obtain ⟨hMonth, hDay⟩ := Text.append_sep_inj (Text.sep_notMem_twoDigits _)
    (Text.sep_notMem_twoDigits _) hRest
  exact ⟨Text.repr_injective (String.toList_inj.mp hYear),
    Text.twoDigits_injective (String.toList_inj.mp hMonth),
    Text.twoDigits_injective (String.toList_inj.mp hDay)⟩

end Date

def secondsPerDay : ℕ := 86400

/-- The day an instant lies in; instants before the epoch count as its first day. -/
def dayOf (t : ℚ) : ℕ := ⌊t / secondsPerDay⌋₊

/-- The UTC date of an instant. -/
def utcDate (t : ℚ) : Date := Date.ofDay (dayOf t)

theorem dayOf_mono : Monotone dayOf := by
  intro s t h
  apply Nat.floor_mono
  have hPos : (0 : ℚ) < secondsPerDay := by norm_num [secondsPerDay]
  gcongr

/-- Two instants whose days are less than `n` apart are less than `n` days apart. -/
theorem lt_add_of_dayOf_lt {s t : ℚ} {n : ℕ} (hs : 0 ≤ s) (h : dayOf t < dayOf s + n) :
    t < s + n * secondsPerDay := by
  have hPos : (0 : ℚ) < secondsPerDay := by norm_num [secondsPerDay]
  have hLow : (dayOf s : ℚ) ≤ s / secondsPerDay := Nat.floor_le (by positivity)
  have hHigh : t / secondsPerDay < dayOf t + 1 := Nat.lt_floor_add_one _
  have hDays : (dayOf t : ℚ) + 1 ≤ dayOf s + n := by exact_mod_cast h
  have hQuotient : t / secondsPerDay < s / secondsPerDay + n := by linarith
  have hScaled := mul_lt_mul_of_pos_right hQuotient hPos
  rw [add_mul, div_mul_cancel₀ _ hPos.ne', div_mul_cancel₀ _ hPos.ne'] at hScaled
  exact hScaled

end Calendar
