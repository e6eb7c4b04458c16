import Gateway.Quota.Tracker
import Gateway.Semantics.DateTime

/-! The period helpers of `gateway/quota/tracker.py` on datetimes: the bucket
that a datetime is counted in and the datetime at which the bucket is left. -/
namespace Gateway.Quota.Rollover

open Calendar Gateway.Db

/-- `period_bucket`; `none` where it raises. -/
def periodBucket (period : String) (dt : DateTime) : Option String :=
  if period = "daily" then some dt.date.isoDate
  else if period = "monthly" then some dt.date.isoMonth
  else none

/-- `resets_at` when `datetime.now` answers `now`; `none` where it raises. -/
def resetsAt (period : String) (now : DateTime) : Option DateTime :=
  if period = "daily" then DateTime.midnight now.date.next
  else if period = "monthly" then
    if h : now.date.month = 12 then
      DateTime.midnight ⟨now.date.year + 1, 1, 1, ⟨le_rfl, by omega⟩, le_rfl, daysInMonth_pos _ _⟩
    else
      DateTime.midnight ⟨now.date.year, now.date.month + 1, 1,
        ⟨by omega, by have := now.date.month_valid; omega⟩, le_rfl, daysInMonth_pos _ _⟩
  else none

/-- The counter that a call works on when its clock reads `now`. -/
def counterAt (vendorId keyId : Uuid) (period : String) (now : DateTime) : Option Counter :=
  (periodBucket period now).map fun bucket => ⟨vendorId, keyId, bucket⟩

/-- The same UTC day, or the same UTC month. -/
def SamePeriod (period : String) (s t : DateTime) : Prop :=
  s.date.year = t.date.year ∧ s.date.month = t.date.month ∧
    (period = "daily" → s.date.day = t.date.day)

instance (period : String) (s t : DateTime) : Decidable (SamePeriod period s t) :=
  inferInstanceAs (Decidable (_ ∧ _ ∧ (_ → _)))

theorem SamePeriod.trans {period : String} {s t u : DateTime} (h : SamePeriod period s t)
    (h' : SamePeriod period t u) : SamePeriod period s u :=
  ⟨h.1.trans h'.1, h.2.1.trans h'.2.1, fun hDaily => (h.2.2 hDaily).trans (h'.2.2 hDaily)⟩

theorem date_eq_iff {d d' : Date} :
    d = d' ↔ d.year = d'.year ∧ d.month = d'.month ∧ d.day = d'.day := by
  constructor
  · rintro rfl
    exact ⟨rfl, rfl, rfl⟩
  · intro h
    cases d
    cases d'
    simp_all

theorem monthIndex_eq_iff {d d' : Date} :
    d.monthIndex = d'.monthIndex ↔ d.year = d'.year ∧ d.month = d'.month := by
  constructor
  · exact Date.monthIndex_inj
  · rintro ⟨hYear, hMonth⟩
    rw [Date.monthIndex, Date.monthIndex, hYear, hMonth]

/-- The bucket is the text of the period. -/
theorem periodBucket_eq_iff {period : String} {s t : DateTime}
    (hPeriod : period = "daily" ∨ period = "monthly") :
    periodBucket period s = periodBucket period t ↔ SamePeriod period s t := by
  rcases hPeriod with rfl | rfl
  · have hBucket (t : DateTime) : periodBucket "daily" t = some t.date.isoDate := rfl
    rw [hBucket, hBucket, Option.some.injEq, SamePeriod]
    constructor
    · intro h
      obtain ⟨hYear, hMonth, hDay⟩ := Date.isoDate_inj h
      exact ⟨hYear, hMonth, fun _ => hDay⟩
    · rintro ⟨hYear, hMonth, hDay⟩
      rw [date_eq_iff.mpr ⟨hYear, hMonth, hDay rfl⟩]
  · have hBucket (t : DateTime) : periodBucket "monthly" t = some t.date.isoMonth := by
      unfold periodBucket
      rw [if_neg (by decide), if_pos rfl]
    rw [hBucket, hBucket, Option.some.injEq, SamePeriod]
    constructor
    · intro h
      obtain ⟨hYear, hMonth⟩ := Date.isoMonth_inj h
      exact ⟨hYear, hMonth, fun h => absurd h (by decide)⟩
    · rintro ⟨hYear, hMonth, -⟩
      rw [Date.isoMonth, Date.isoMonth, hYear, hMonth]

/-- Days before the end of the period that a date lies in. -/
def periodEnd (period : String) (d : Date) : ℕ :=
  if period = "daily" then d.dayNumber + 1 else monthStart (d.monthIndex + 1)

/-- From a datetime on, its period lasts until its end. -/
theorem samePeriod_iff {period : String} (hPeriod : period = "daily" ∨ period = "monthly")
    {s t : DateTime} (h : s ≤ t) :
    SamePeriod period s t ↔ t.date.dayNumber < periodEnd period s.date := by
  have hDays := DateTime.dayNumber_le h
  rcases hPeriod with rfl | rfl
  · have hEnd : t.date.dayNumber < periodEnd "daily" s.date ↔ s.date = t.date := by
      show t.date.dayNumber < s.date.dayNumber + 1 ↔ _
      rw [← Date.dayNumber_injective.eq_iff]
      omega
    rw [hEnd, date_eq_iff, SamePeriod]
    simp
  · have hMonths := Date.monthIndex_le_of_dayNumber_le hDays
    have hEnd : periodEnd "monthly" s.date = monthStart (s.date.monthIndex + 1) := by
      rw [periodEnd, if_neg (by decide)]
    have hSame : SamePeriod "monthly" s t ↔ s.date.monthIndex = t.date.monthIndex := by
      rw [monthIndex_eq_iff, SamePeriod]
      simp
    rw [hEnd, hSame]
    constructor
    · intro hIndex
      rw [hIndex]
      exact t.date.dayNumber_lt
    · intro hBefore
      have hStart : monthStart t.date.monthIndex ≤ t.date.dayNumber := Nat.le_add_right _ _
      by_contra hLater
      have := monthStart_mono (show s.date.monthIndex + 1 ≤ t.date.monthIndex by omega)
      omega

/-- A period ends after each of its days, and less than its TTL later. -/
theorem periodEnd_bounds {period : String} (hPeriod : period = "daily" ∨ period = "monthly")
    (d : Date) : ∃ days : ℕ, periodTtl period = some ((days : ℤ) * 86400) ∧
      d.dayNumber < periodEnd period d ∧ periodEnd period d ≤ d.dayNumber + days := by
  rcases hPeriod with rfl | rfl
  · exact ⟨1, rfl, Nat.lt_succ_self _, le_rfl⟩
  · have hEnd : periodEnd "monthly" d = monthStart (d.monthIndex + 1) := by
      rw [periodEnd, if_neg (by decide)]
    have hLength := daysInMonth_le d.year d.month
    refine ⟨31, by decide, ?_, ?_⟩
    · rw [hEnd]
      exact d.dayNumber_lt
    · rw [hEnd, d.monthStart_succ, Date.dayNumber]
      omega

/-- A counter that is created in a period and expires a TTL later outlives it. -/
theorem stamp_lt_add_ttl {period : String} (hPeriod : period = "daily" ∨ period = "monthly")
    {ttl : ℤ} (hTtl : periodTtl period = some ttl) {s t : DateTime}
    (hSame : SamePeriod period s t) : (t.stamp : ℤ) < s.stamp + ttl * microsPerSecond := by
  obtain ⟨days, hDays, hAfter, hEnd⟩ := periodEnd_bounds hPeriod s.date
  obtain rfl : (days : ℤ) * 86400 = ttl := Option.some.inj (hDays.symm.trans hTtl)
  have hPerDay : (microsPerDay : ℤ) = 86400 * microsPerSecond := rfl
  rcases le_total s t with hLe | hLe
  · have hBefore := (samePeriod_iff hPeriod hLe).mp hSame
    have hMicros := t.micros_valid
    have hWhole : (t.date.dayNumber + 1) * microsPerDay ≤
        (s.date.dayNumber + days) * microsPerDay := Nat.mul_le_mul_right _ (by omega)
    have hNat : t.stamp < s.stamp + days * microsPerDay := by
      unfold DateTime.stamp
      rw [Nat.add_mul] at hWhole
      rw [Nat.add_mul] at hWhole
      omega
    rw [mul_assoc, ← hPerDay]
    exact_mod_cast hNat
  · have hPositive : 0 < days := by omega
    have hStamp : (t.stamp : ℤ) ≤ s.stamp := Int.ofNat_le.mpr hLe
    have hTtlPos : (0 : ℤ) < days * 86400 * microsPerSecond := by
      have : (0 : ℤ) < microsPerSecond := by decide
      positivity
    linarith

/-- The midnight at which the bucket is left, if the year allows it. -/
theorem resetsAt_eq {period : String} (hPeriod : period = "daily" ∨ period = "monthly")
    {now : DateTime} (hYear : now.date.year ≤ 9998) :
    ∃ (d : Date) (h : 1 ≤ d.year ∧ d.year ≤ 9999),
      resetsAt period now = some ⟨d, 0, h, by decide⟩ ∧
        d.dayNumber = periodEnd period now.date := by
  have hValid := now.year_valid
  rcases hPeriod with rfl | rfl
  · have hNext := now.date.next_year
    exact ⟨now.date.next, by omega, DateTime.midnight_of_year (by omega), now.date.next_dayNumber⟩
  · have hEnd : periodEnd "monthly" now.date = monthStart (now.date.monthIndex + 1) := by
      rw [periodEnd, if_neg (by decide)]
    have hMonth := now.date.month_valid
    unfold resetsAt
    rw [if_neg (by decide), if_pos rfl, hEnd]
    by_cases hDecember : now.date.month = 12
    · have hIndex : 12 * (now.date.year + 1) + (1 - 1) = now.date.monthIndex + 1 := by
        unfold Date.monthIndex
        omega
      rw [dif_pos hDecember]
      refine ⟨_, ⟨by show 1 ≤ now.date.year + 1; omega, by show now.date.year + 1 ≤ 9999; omega⟩,
        DateTime.midnight_of_year _, ?_⟩
      simp only [Date.dayNumber, Date.monthIndex] at hIndex ⊢
      rw [hIndex]
      rfl
    · have hIndex : 12 * now.date.year + (now.date.month + 1 - 1) = now.date.monthIndex + 1 := by
        unfold Date.monthIndex
        omega
      rw [dif_neg hDecember]
      refine ⟨_, ⟨by show 1 ≤ now.date.year; omega, by show now.date.year ≤ 9999; omega⟩,
        DateTime.midnight_of_year _, ?_⟩
      simp only [Date.dayNumber, Date.monthIndex] at hIndex ⊢
      rw [hIndex]
      rfl

/-- `resets_at` is exactly when the bucket rolls over: from `now` on the bucket
stays the same before that datetime and never again after it, and the counter's
TTL reaches at least that far. -/
theorem resetsAt_rollover (period : String) (hPeriod : period = "daily" ∨ period = "monthly")
    (now t : DateTime) (hYear : now.date.year ≤ 9998) (hLe : now ≤ t) :
    ∃ reset ttl, resetsAt period now = some reset ∧ periodTtl period = some ttl ∧
      (periodBucket period t = periodBucket period now ↔ t < reset) ∧
      0 < reset.sub now ∧ reset.sub now ≤ ttl * microsPerSecond := by
  obtain ⟨d, h, hReset, hDay⟩ := resetsAt_eq hPeriod hYear
  obtain ⟨days, hTtl, hAfter, hWithin⟩ := periodEnd_bounds hPeriod now.date
  refine ⟨_, _, hReset, hTtl, ?_, ?_, ?_⟩
  · rw [eq_comm, periodBucket_eq_iff hPeriod, samePeriod_iff hPeriod hLe,
      DateTime.lt_midnight_iff, hDay]
  · have hLt : now < ⟨d, 0, h, by decide⟩ := DateTime.lt_midnight_iff.mpr (by omega)
    have hStamp := Int.ofNat_lt.mpr (DateTime.lt_iff.mp hLt)
    exact sub_pos.mpr hStamp
  · have hPerDay : (microsPerDay : ℤ) = 86400 * microsPerSecond := rfl
    have hWhole : d.dayNumber * microsPerDay ≤ (now.date.dayNumber + days) * microsPerDay :=
      Nat.mul_le_mul_right _ (by omega)
    have hNat : d.dayNumber * microsPerDay ≤ now.stamp + days * microsPerDay := by
      rw [Nat.add_mul] at hWhole
      exact hWhole.trans (Nat.add_le_add_right (Nat.le_add_right _ _) _)
    have hStamp : (⟨d, 0, h, by decide⟩ : DateTime).stamp = d.dayNumber * microsPerDay :=
      Nat.add_zero _
    rw [DateTime.sub, hStamp, mul_assoc, ← hPerDay, sub_le_iff_le_add']
    exact_mod_cast hNat

/-- At noon on the last day of a leap February. -/
def leapNoon : DateTime :=
  ⟨⟨2024, 2, 29, by decide, by decide⟩, 43200000000, by decide, by decide⟩

/-- Eight hours into the second day of the March after it. -/
def marchMorning : DateTime :=
  ⟨⟨2024, 3, 2, by decide, by decide⟩, 28800000000, by decide, by decide⟩

theorem leapNoon_le : leapNoon ≤ marchMorning :=
  le_of_not_ge fun h =>
    absurd (Date.monthIndex_le_of_dayNumber_le (DateTime.dayNumber_le h)) (by decide)

theorem resetsAt_rollover_leap :
    ∃ reset ttl, resetsAt "monthly" leapNoon = some reset ∧ periodTtl "monthly" = some ttl ∧
      periodBucket "monthly" marchMorning ≠ periodBucket "monthly" leapNoon ∧
        reset ≤ marchMorning ∧ 0 < reset.sub leapNoon ∧
          reset.sub leapNoon ≤ ttl * microsPerSecond := by
  obtain ⟨reset, ttl, hReset, hTtl, hRollover, hAfter, hWithin⟩ :=
    resetsAt_rollover "monthly" (Or.inr rfl) leapNoon marchMorning (by decide) leapNoon_le
  have hBucket : periodBucket "monthly" marchMorning ≠ periodBucket "monthly" leapNoon := by
    decide +kernel
  exact ⟨reset, ttl, hReset, hTtl, hBucket, not_lt.mp fun h => hBucket (hRollover.mpr h), hAfter,
    hWithin⟩

/-- On the instants after the epoch these are the helpers of the other modules. -/
theorem periodBucket_instant (period : String) {dt : DateTime} {t : ℚ} (h : dt.AtInstant t) :
    periodBucket period dt = Quota.periodBucket period t := by
  unfold periodBucket Quota.periodBucket
  rw [h.date_eq]

theorem counterAt_instant (v k : Uuid) (period : String) {dt : DateTime} {t : ℚ}
    (h : dt.AtInstant t) : counterAt v k period dt = Quota.counterAt v k period t := by
  rw [counterAt, Quota.counterAt, periodBucket_instant period h]

end Gateway.Quota.Rollover
