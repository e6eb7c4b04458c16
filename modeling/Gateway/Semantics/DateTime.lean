import Gateway.Semantics.Calendar
import Mathlib.Order.Basic
import Mathlib.Order.Lattice

/-! Aware datetimes in UTC from the year 1 to the year 9999, to the microsecond.
They are ordered and subtracted by their distance from one origin, for which
the start of the year zero serves. -/
namespace Calendar

/-- Days before a month, the months being counted from the year zero on. -/
def monthStart : ℕ → ℕ
  | 0 => 0
  | n + 1 => monthStart n + daysInMonth (n / 12) (n % 12 + 1)

theorem monthStart_mono : Monotone monthStart := by
  apply monotone_nat_of_le_succ
  intro n
  exact Nat.le_add_right _ _

namespace Date

/-- Days before a date. -/
def dayNumber (d : Date) : ℕ := monthStart d.monthIndex + (d.day - 1)

theorem monthStart_succ (d : Date) :
    monthStart (d.monthIndex + 1) = monthStart d.monthIndex + daysInMonth d.year d.month := by
  have hMonth := d.month_valid
  have hYear : d.monthIndex / 12 = d.year := by
    unfold monthIndex
    omega
  have hRest : d.monthIndex % 12 + 1 = d.month := by
    unfold monthIndex
    omega
  rw [monthStart, hYear, hRest]

theorem dayNumber_lt (d : Date) : d.dayNumber < monthStart (d.monthIndex + 1) := by
  have hDay := d.day_valid
  rw [monthStart_succ, dayNumber]
  omega

theorem next_dayNumber (d : Date) : d.next.dayNumber = d.dayNumber + 1 := by
  have hDay := d.day_valid
  have hMonth := d.month_valid
  have hSucc := d.monthStart_succ
  unfold next
  split_ifs with hInside hYear
  · simp only [dayNumber, monthIndex] at hSucc ⊢
    omega
  · have hIndex : 12 * d.year + (d.month + 1 - 1) = d.monthIndex + 1 := by
      unfold monthIndex
      omega
    simp only [dayNumber, monthIndex] at hSucc hIndex ⊢
    rw [hIndex, hSucc]
    omega
  · have hIndex : 12 * (d.year + 1) + (1 - 1) = d.monthIndex + 1 := by
      unfold monthIndex
      omega
    simp only [dayNumber, monthIndex] at hSucc hIndex ⊢
    rw [hIndex, hSucc]
    omega

theorem next_year (d : Date) : d.year ≤ d.next.year ∧ d.next.year ≤ d.year + 1 := by
  unfold next
  split_ifs
  · exact ⟨le_rfl, Nat.le_succ _⟩
  · exact ⟨le_rfl, Nat.le_succ _⟩
  · exact ⟨Nat.le_succ _, le_rfl⟩

/-- A later month lies entirely after an earlier one. -/
theorem monthIndex_le_of_dayNumber_le {d d' : Date} (h : d.dayNumber ≤ d'.dayNumber) :
    d.monthIndex ≤ d'.monthIndex := by
  by_contra hLess
  have hMonths := monthStart_mono (show d'.monthIndex + 1 ≤ d.monthIndex by omega)
  have hLast := d'.dayNumber_lt
  have hFirst : monthStart d.monthIndex ≤ d.dayNumber := Nat.le_add_right _ _
  omega

theorem dayNumber_injective : Function.Injective dayNumber := by
  intro d d' h
  have hIndex : d.monthIndex = d'.monthIndex :=
    le_antisymm (monthIndex_le_of_dayNumber_le h.le) (monthIndex_le_of_dayNumber_le h.ge)
  obtain ⟨hYear, hMonth⟩ := monthIndex_inj hIndex
  have hDay : d.day = d'.day := by
    have hd := d.day_valid
    have hd' := d'.day_valid
    simp only [dayNumber, hIndex] at h
    omega
  cases d
  cases d'
  simp_all

end Date

def microsPerSecond : ℕ := 1000000

def microsPerDay : ℕ := 86400000000

structure DateTime where
  date : Date
  micros : ℕ
  year_valid : 1 ≤ date.year ∧ date.year ≤ 9999
  micros_valid : micros < microsPerDay
  deriving DecidableEq

namespace DateTime

/-- Microseconds before a datetime. -/
def stamp (t : DateTime) : ℕ := t.date.dayNumber * microsPerDay + t.micros

theorem stamp_div (t : DateTime) : t.stamp / microsPerDay = t.date.dayNumber := by
  rw [stamp, Nat.mul_comm, Nat.mul_add_div (by decide), Nat.div_eq_of_lt t.micros_valid]
  rfl

theorem stamp_injective : Function.Injective stamp := by
  intro s t h
  have hDate : s.date = t.date := by
    apply Date.dayNumber_injective
    rw [← stamp_div, ← stamp_div, h]
  have hMicros : s.micros = t.micros := by
    simp only [stamp, hDate] at h
    omega
  cases s
  cases t
  simp_all

instance : LinearOrder DateTime := LinearOrder.lift' stamp stamp_injective

theorem lt_iff {s t : DateTime} : s < t ↔ s.stamp < t.stamp := Iff.rfl

/-- `self - other`, in microseconds. -/
def sub (t s : DateTime) : ℤ := (t.stamp : ℤ) - s.stamp

theorem dayNumber_le {s t : DateTime} (h : s ≤ t) : s.date.dayNumber ≤ t.date.dayNumber := by
  rw [← stamp_div, ← stamp_div]
  exact Nat.div_le_div_right h

/-- `datetime(year, month, day, tzinfo=timezone.utc)`; `none` where the year is
out of range. -/
def midnight (d : Date) : Option DateTime :=
  if h : 1 ≤ d.year ∧ d.year ≤ 9999 then some ⟨d, 0, h, by decide⟩ else none

theorem midnight_of_year {d : Date} (h : 1 ≤ d.year ∧ d.year ≤ 9999) :
    midnight d = some ⟨d, 0, h, by decide⟩ := dif_pos h

/-- Before the midnight that opens a date lie the days before that date. -/
theorem lt_midnight_iff {t : DateTime} {d : Date} {h : 1 ≤ d.year ∧ d.year ≤ 9999} :
    t < ⟨d, 0, h, by decide⟩ ↔ t.date.dayNumber < d.dayNumber := by
  have hStamp : (⟨d, 0, h, by decide⟩ : DateTime).stamp = d.dayNumber * microsPerDay :=
    Nat.add_zero _
  rw [lt_iff, hStamp, ← stamp_div, Nat.div_lt_iff_lt_mul (by decide)]

/-- The datetime of an instant after the epoch, cut off to the microsecond. -/
def AtInstant (dt : DateTime) (t : ℚ) : Prop :=
  dt.stamp = (Date.ofDay 0).dayNumber * microsPerDay + ⌊t * microsPerSecond⌋₊

theorem dayNumber_ofDay (n : ℕ) :
    (Date.ofDay n).dayNumber = (Date.ofDay 0).dayNumber + n := by
  induction n with
  | zero => exact (Nat.add_zero _).symm
  | succ n ih =>
      show (Date.ofDay n).next.dayNumber = _
      rw [Date.next_dayNumber, ih, Nat.add_assoc]

theorem AtInstant.date_eq {dt : DateTime} {t : ℚ} (h : dt.AtInstant t) : dt.date = utcDate t := by
  have hScale : t * microsPerSecond = t / secondsPerDay * microsPerDay := by
    norm_num [microsPerDay, secondsPerDay, microsPerSecond]
    ring
  have hFloor : ⌊t * microsPerSecond⌋₊ / microsPerDay = dayOf t := by
    rw [hScale]
    exact Nat.mul_cast_floor_div_cancel (by decide) _
  apply Date.dayNumber_injective
  rw [utcDate, dayNumber_ofDay, ← stamp_div, h, Nat.mul_comm, Nat.mul_add_div (by decide), hFloor]

end DateTime

end Calendar
