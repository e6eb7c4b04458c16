import Gateway.Db.Models
import Gateway.Semantics.Calendar
import Gateway.Semantics.Redis

/-! `gateway/quota/tracker.py`: period buckets, counter keys and the decision of
`check_quota`. A `ValueError` for an unknown period is `none`. -/
namespace Gateway.Quota

open Calendar Gateway.Db

def dailyTtl : ℤ := 86400

def monthlyTtl : ℤ := 2678400

/-- `period_bucket` -/
def periodBucket (period : String) (dt : ℚ) : Option String :=
  if period = "daily" then some (utcDate dt).isoDate
  else if period = "monthly" then some (utcDate dt).isoMonth
  else none

/-- `period_ttl` -/
def periodTtl (period : String) : Option ℤ :=
  if period = "daily" then some dailyTtl
  else if period = "monthly" then some monthlyTtl
  else none

/-- `resets_at`: midnight UTC at the start of this date. -/
def resetsAt (period : String) (now : ℚ) : Option Date :=
  let today := utcDate now
  if period = "daily" then some today.next
  else if period = "monthly" then
    if h : today.month + 1 ≤ 12 then
      some ⟨today.year, today.month + 1, 1, ⟨by omega, h⟩, le_rfl, daysInMonth_pos _ _⟩
    else some ⟨today.year + 1, 1, 1, ⟨le_rfl, by omega⟩, le_rfl, daysInMonth_pos _ _⟩
  else none

/-- `quota_key` -/
def quotaKey (vendorId keyId bucket : String) : String :=
  "quota:" ++ vendorId ++ ":" ++ keyId ++ ":" ++ bucket

/-- The counter of an API key in one bucket. -/
structure Counter where
  vendorId : Uuid
  keyId : Uuid
  bucket : String
  deriving DecidableEq

def Counter.key (c : Counter) : String := quotaKey c.vendorId.text c.keyId.text c.bucket

/-- The counter that a call at a given time works on. -/
def counterAt (vendorId keyId : Uuid) (period : String) (now : ℚ) : Option Counter :=
  (periodBucket period now).map fun bucket => ⟨vendorId, keyId, bucket⟩

/-- `get_quota_usage` on the reply of GET. `int(value)` raises on a text. -/
def quotaUsage {Payload : Type*} : Option (Redis.Value Payload) → Option ℤ
  | none => some 0
  | some (.int n) => some n
  | some (.text _) => none

/-- `check_quota` on the reply of GET: `(allowed, current_count)`. -/
def checkQuota {Payload : Type*} (limit : ℤ) (value : Option (Redis.Value Payload)) :
    Option (Bool × ℤ) :=
  (quotaUsage value).map fun current => (decide (current < limit), current)

/-- Keys of UUIDs separate vendor, API key and bucket. -/
theorem quotaKey_inj {v v' k k' : Uuid} {b b' : String}
    (h : quotaKey v.text k.text b = quotaKey v'.text k'.text b') : v = v' ∧ k = k' ∧ b = b' := by
  have hList : v.text.toList ++ ':' :: (k.text.toList ++ ':' :: b.toList) =
      v'.text.toList ++ ':' :: (k'.text.toList ++ ':' :: b'.toList) := by
    simpa [quotaKey] using congrArg String.toList h
  obtain ⟨hv, hRest⟩ := Text.append_sep_inj v.colon_notMem v'.colon_notMem hList
  obtain ⟨hk, hb⟩ := Text.append_sep_inj k.colon_notMem k'.colon_notMem hRest
  exact ⟨Uuid.text_injective (String.toList_inj.mp hv),
    Uuid.text_injective (String.toList_inj.mp hk), String.toList_inj.mp hb⟩

theorem utcDate_eq_of_isoDate {s t : ℚ} (h : (utcDate s).isoDate = (utcDate t).isoDate) :
    dayOf s = dayOf t := by
  apply Date.ofDay_injective
  obtain ⟨hYear, hMonth, hDay⟩ := Date.isoDate_inj h
  change utcDate s = utcDate t
  cases hs : utcDate s
  cases ht : utcDate t
  rw [hs] at hYear hMonth hDay
  rw [ht] at hYear hMonth hDay
  simp only at hYear hMonth hDay
  subst hYear hMonth hDay
  rfl

theorem monthIndex_eq_of_isoMonth {d d' : Date} (h : d.isoMonth = d'.isoMonth) :
    d.monthIndex = d'.monthIndex := by
  obtain ⟨hYear, hMonth⟩ := Date.isoMonth_inj h
  rw [Date.monthIndex, Date.monthIndex, hYear, hMonth]

/-- A bucket is an interval of time: left once, it never comes back. -/
theorem periodBucket_convex {period b : String} {r s t : ℚ} (hrs : r ≤ s) (hst : s ≤ t)
    (hr : periodBucket period r = some b) (ht : periodBucket period t = some b) :
    periodBucket period s = some b := by
  unfold periodBucket at hr ht ⊢
  split_ifs at hr ht ⊢ with hDaily hMonthly
  · have hDay : dayOf r = dayOf t :=
      utcDate_eq_of_isoDate ((Option.some.inj hr).trans (Option.some.inj ht).symm)
    have hSame : dayOf s = dayOf r :=
      le_antisymm ((dayOf_mono hst).trans hDay.ge) (dayOf_mono hrs)
    rw [← hr, utcDate, utcDate, hSame]
  · have hMonth : (utcDate r).monthIndex = (utcDate t).monthIndex :=
      monthIndex_eq_of_isoMonth ((Option.some.inj hr).trans (Option.some.inj ht).symm)
    have hSame : (utcDate s).monthIndex = (utcDate r).monthIndex :=
      le_antisymm ((Date.monthIndex_mono (dayOf_mono hst)).trans hMonth.ge)
        (Date.monthIndex_mono (dayOf_mono hrs))
    obtain ⟨hYear, hMonth⟩ := Date.monthIndex_inj hSame
    rw [← hr, Date.isoMonth, Date.isoMonth, hYear, hMonth]

/-- A bucket is shorter than the TTL of its counters, wherever the clock starts in it. -/
theorem periodBucket_lt {period b : String} {s t : ℚ} {ttl : ℤ} (hs : 0 ≤ s)
    (hTtl : periodTtl period = some ttl) (hb : periodBucket period s = some b)
    (ht : periodBucket period t = some b) : t < s + ttl := by
  unfold periodBucket at hb ht
  unfold periodTtl at hTtl
  split_ifs at hb ht hTtl with hDaily hMonthly
  · have hDay : dayOf s = dayOf t :=
      utcDate_eq_of_isoDate ((Option.some.inj hb).trans (Option.some.inj ht).symm)
    have hLt := lt_add_of_dayOf_lt (t := t) (n := 1) hs (by omega)
    rw [← Option.some.inj hTtl]
    norm_num [secondsPerDay, dailyTtl] at hLt ⊢
    exact hLt
  · have hMonth : (utcDate t).monthIndex = (utcDate s).monthIndex :=
      monthIndex_eq_of_isoMonth ((Option.some.inj ht).trans (Option.some.inj hb).symm)
    have hLt := lt_add_of_dayOf_lt (n := 31) hs (Date.lt_of_same_month hMonth)
    rw [← Option.some.inj hTtl]
    norm_num [secondsPerDay, monthlyTtl] at hLt ⊢
    exact hLt

theorem Counter.key_injective : Function.Injective Counter.key := by
  intro c c' h
  obtain ⟨hVendor, hKey, hBucket⟩ := quotaKey_inj h
  cases c
  cases c'
  simp_all

theorem counterAt_ids {v k : Uuid} {period : String} {c : Counter} {t : ℚ}
    (h : counterAt v k period t = some c) : c.vendorId = v ∧ c.keyId = k := by
  obtain ⟨b, _, rfl⟩ := Option.map_eq_some_iff.mp h
  exact ⟨rfl, rfl⟩

/-- Whether there is a counter depends on the period alone. -/
theorem counterAt_isSome {v k : Uuid} {period : String} (s t : ℚ) :
    (counterAt v k period s).isSome = (counterAt v k period t).isSome := by
  unfold counterAt periodBucket
  split_ifs <;> rfl

theorem counterAt_convex {v k : Uuid} {period : String} {c : Counter} {r s t : ℚ} (hrs : r ≤ s)
    (hst : s ≤ t) (hr : counterAt v k period r = some c) (ht : counterAt v k period t = some c) :
    counterAt v k period s = some c := by
  obtain ⟨b, hb, rfl⟩ := Option.map_eq_some_iff.mp hr
  obtain ⟨b', hb', hSame⟩ := Option.map_eq_some_iff.mp ht
  obtain rfl : b' = b := congrArg Counter.bucket hSame
  exact Option.map_eq_some_iff.mpr ⟨b', periodBucket_convex hrs hst hb hb', rfl⟩

theorem counterAt_lt {v k : Uuid} {period : String} {c : Counter} {s t : ℚ} {ttl : ℤ}
    (hs : 0 ≤ s) (hTtl : periodTtl period = some ttl) (hc : counterAt v k period s = some c)
    (ht : counterAt v k period t = some c) : t < s + ttl := by
  obtain ⟨b, hb, rfl⟩ := Option.map_eq_some_iff.mp hc
  obtain ⟨b', hb', hSame⟩ := Option.map_eq_some_iff.mp ht
  obtain rfl : b' = b := congrArg Counter.bucket hSame
  exact periodBucket_lt hs hTtl hb hb'

end Gateway.Quota
