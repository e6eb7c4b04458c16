import Gateway.Middleware.RateLimit
import Gateway.Semantics.Json

/-! `gateway/admin/models.py` and the limit it lets a vendor have. The schemas
check that `rate_limit_rpm` is an integer and nothing else, the column is an
INTEGER, and the rate limiter divides by it. -/
namespace Gateway.Admin

open Gateway.Middleware.RateLimit

/-- `auth_type` of the schemas. -/
inductive AuthType where
  | apiKey
  | oauth2
  | basic
  | custom
  deriving DecidableEq

/-- A validated `VendorCreate`. -/
structure VendorCreate where
  name : String
  slug : String
  baseUrl : String
  authType : AuthType
  authConfig : Json.Members := []
  cacheTtlSeconds : ℤ := 0
  rateLimitRpm : ℤ := 0

/-- A field under `exclude_unset`: left out of the body, null, or a value. -/
inductive Field (α : Type) where
  | unset
  | null
  | value (a : α)

/-- A validated `VendorUpdate`. -/
structure VendorUpdate where
  name : Field String := .unset
  baseUrl : Field String := .unset
  authType : Field AuthType := .unset
  authConfig : Field Json.Members := .unset
  cacheTtlSeconds : Field ℤ := .unset
  rateLimitRpm : Field ℤ := .unset
  isActive : Field Bool := .unset

/-- What an INTEGER NOT NULL column can hold; `none` where the commit fails. -/
def integerColumn (n : ℤ) : Option ℤ :=
  if -2147483648 ≤ n ∧ n ≤ 2147483647 then some n else none

/-- The column `rate_limit_rpm` after `create_vendor`. -/
def createdRpm (body : VendorCreate) : Option ℤ := integerColumn body.rateLimitRpm

/-- The column `rate_limit_rpm` after `update_vendor`. -/
def updatedRpm (stored : ℤ) (body : VendorUpdate) : Option ℤ :=
  match body.rateLimitRpm with
  | .unset => some stored
  | .null => none
  | .value rpm => integerColumn rpm

/-- The first integer that `float()` refuses: half a unit in the last place
above the greatest double, `2 ^ 1024 - 2 ^ 970`. -/
def floatLimit : ℤ := (2 ^ 54 - 1) * 2 ^ 970

theorem column_lt_floatLimit : 2147483647 < floatLimit := by
  have hPow : (2 : ℤ) ^ 31 ≤ 2 ^ 970 := pow_le_pow_right₀ (by decide) (by decide)
  unfold floatLimit
  generalize (2 : ℤ) ^ 970 = unit at hPow ⊢
  omega

/-- `check_rate_limit` from its first line: `float(capacity_rpm)` raises
OverflowError on an integer outside the range of doubles. -/
def callCheckRateLimit (capacityRpm : ℤ) (now : ℚ) (key : Option Bucket) :
    Option Bucket × Option (Bool × ℤ) :=
  if -floatLimit < capacityRpm ∧ capacityRpm < floatLimit then checkRateLimit capacityRpm now key
  else (key, none)

/-- The call returns a decision, no divisor is zero, EXPIRE gets a positive
integer, and a denial names at least one second. -/
structure Decides (capacityRpm : ℤ) (now : ℚ) (key : Option Bucket) : Prop where
  divisor : (capacityRpm : ℚ) / 60 ≠ 0
  expire : ∃ seconds, expireSeconds capacityRpm (capacityRpm / 60) = some seconds ∧ 1 ≤ seconds
  answer : ∃ isAllowed retryAfter,
    (callCheckRateLimit capacityRpm now key).2 = some (isAllowed, retryAfter) ∧
      (isAllowed = false → 1 ≤ retryAfter)

section Outside

variable {capacityRpm : ℤ} (now : ℚ) (key : Option Bucket)

/-- Without a limit EXPIRE is not given a number: the script fails, and its
write stays under whatever expiry the key had. -/
theorem checkRateLimit_zero : checkRateLimit 0 now key =
    (some ⟨newTokens 0 0 now key, now, key.bind Bucket.expiresAt⟩, none) := by
  have hEmpty : ¬(1 : ℚ) ≤ newTokens 0 0 now key := by
    intro h
    have hCap : newTokens 0 0 now key ≤ 0 := min_le_left _ _
    linarith
  delta checkRateLimit
  simp only [tokenBucketLua, Int.cast_zero, zero_div, expireSeconds, if_true, storeAndExpire,
    if_neg hEmpty]

/-- Below zero nothing is ever allowed, and the seconds to wait are not positive. -/
theorem checkRateLimit_neg (hNegative : capacityRpm ≤ -1) :
    (checkRateLimit capacityRpm now key).2 = some (false, ⌈1 / ((capacityRpm : ℚ) / 60)⌉) ∧
      ⌈1 / ((capacityRpm : ℚ) / 60)⌉ ≤ 0 := by
  have hCapacity : (capacityRpm : ℚ) ≤ -1 := by exact_mod_cast hNegative
  have hRate : (capacityRpm : ℚ) / 60 < 0 := by linarith
  have hEmpty : ¬(1 : ℚ) ≤ newTokens capacityRpm (capacityRpm / 60) now key := by
    intro h
    have hCap : newTokens (capacityRpm : ℚ) (capacityRpm / 60) now key ≤ capacityRpm :=
      min_le_left _ _
    linarith
  have hExpire : expireSeconds capacityRpm (capacityRpm / 60) = some 61 :=
    expireSeconds_of_ne (by omega)
  constructor
  · delta checkRateLimit
    simp only [tokenBucketLua, hExpire, storeAndExpire, if_neg hEmpty, if_neg hRate.ne,
      show ¬(61 : ℤ) ≤ 0 by decide, if_false]
  · exact Int.ceil_le.mpr (by simpa using (one_div_neg.mpr hRate).le)

end Outside

/-- A call raises, and the middleware lets the request pass, exactly for a
limit of zero and for one that is not a double. -/
theorem raises_iff (capacityRpm : ℤ) (now : ℚ) (key : Option Bucket) :
    (callCheckRateLimit capacityRpm now key).2 = none ↔
      capacityRpm = 0 ∨ ¬(-floatLimit < capacityRpm ∧ capacityRpm < floatLimit) := by
  unfold callCheckRateLimit
  by_cases hRange : -floatLimit < capacityRpm ∧ capacityRpm < floatLimit
  · rw [if_pos hRange]
    rcases lt_trichotomy capacityRpm 0 with hNegative | rfl | hPositive
    · have hNonzero : ¬capacityRpm = 0 := by omega
      simp [(checkRateLimit_neg now key (show capacityRpm ≤ -1 by omega)).1,
        hNonzero, hRange]
    · simp [checkRateLimit_zero]
    · have hNonzero : ¬capacityRpm = 0 := by omega
      rw [checkRateLimit_eq (by omega)]
      split_ifs <;> simp [hNonzero, hRange]
  · simp [hRange]

theorem decides_iff_range (capacityRpm : ℤ) (now : ℚ) (key : Option Bucket) :
    Decides capacityRpm now key ↔ 1 ≤ capacityRpm ∧ capacityRpm < floatLimit := by
  constructor
  · rintro ⟨-, -, isAllowed, retryAfter, hAnswer, hRetry⟩
    have hCall : ¬(callCheckRateLimit capacityRpm now key).2 = none := by
      rw [hAnswer]
      exact Option.some_ne_none _
    rw [raises_iff] at hCall
    obtain ⟨hNonzero, hRange⟩ := not_or.mp hCall
    rw [not_not] at hRange
    refine ⟨?_, hRange.2⟩
    by_contra hSmall
    have hNegative : capacityRpm ≤ -1 := by
      clear hCall hRange
      omega
    obtain ⟨hDenied, hWait⟩ := checkRateLimit_neg now key hNegative
    rw [callCheckRateLimit, if_pos hRange, hDenied] at hAnswer
    obtain ⟨rfl, rfl⟩ := Prod.mk.inj (Option.some.inj hAnswer)
    have := hRetry rfl
    omega
  · rintro ⟨hPositive, hBound⟩
    have hRate := refillRate_pos hPositive
    have hRange : -floatLimit < capacityRpm ∧ capacityRpm < floatLimit :=
      ⟨by linarith [column_lt_floatLimit], hBound⟩
    refine ⟨hRate.ne', ⟨61, expireSeconds_eq hPositive, by decide⟩, ?_⟩
    rw [callCheckRateLimit, if_pos hRange, checkRateLimit_eq hPositive]
    split_ifs with hEnough
    · exact ⟨true, 0, rfl, by simp⟩
    · exact ⟨false, _, rfl, fun _ => Int.one_le_ceil_iff.mpr (one_div_pos.mpr hRate)⟩

theorem lt_floatLimit_of_column {n rpm : ℤ} (h : integerColumn n = some rpm) :
    rpm < floatLimit := by
  unfold integerColumn at h
  split_ifs at h with hColumn
  obtain rfl := Option.some.inj h
  exact lt_of_le_of_lt hColumn.2 column_lt_floatLimit

/-- Rate limiting is defined for exactly the positive limits that a double can
hold, whatever the bucket and whichever of the two schemas let the limit in. A
vendor that exists has an INTEGER, for which the second bound says nothing. -/
theorem decides_iff (now : ℚ) (key : Option Bucket) :
    (∀ body : VendorCreate, Decides body.rateLimitRpm now key ↔
      1 ≤ body.rateLimitRpm ∧ body.rateLimitRpm < floatLimit) ∧
    (∀ (body : VendorUpdate) (rpm : ℤ), body.rateLimitRpm = .value rpm →
      (Decides rpm now key ↔ 1 ≤ rpm ∧ rpm < floatLimit)) ∧
    (∀ (body : VendorCreate) (rpm : ℤ), createdRpm body = some rpm →
      (Decides rpm now key ↔ 1 ≤ rpm)) ∧
    ∀ (body : VendorUpdate) (stored rpm : ℤ), integerColumn stored = some stored →
      updatedRpm stored body = some rpm → (Decides rpm now key ↔ 1 ≤ rpm) := by
  have hColumn {rpm : ℤ} (h : rpm < floatLimit) : Decides rpm now key ↔ 1 ≤ rpm := by
    rw [decides_iff_range]
    exact and_iff_left h
  refine ⟨fun body => decides_iff_range _ now key, fun body rpm _ => decides_iff_range _ now key,
    fun body rpm hCreated => hColumn (lt_floatLimit_of_column hCreated),
    fun body stored rpm hStored hUpdated => ?_⟩
  unfold updatedRpm at hUpdated
  split at hUpdated
  case h_1 =>
    obtain rfl := Option.some.inj hUpdated
    exact hColumn (lt_floatLimit_of_column hStored)
  case h_2 => cases hUpdated
  case h_3 => exact hColumn (lt_floatLimit_of_column hUpdated)

/-- An update to sixty requests per minute. -/
theorem decides_iff_sixty : Decides 60 5 none :=
  ((decides_iff 5 none).2.2.2 { rateLimitRpm := .value 60 } 0 60 rfl rfl).mpr (by decide)

/-- The default of the schema is such a limit: the check raises, and what it
leaves under a new key never expires. A limit of -60 turns every request away
and asks for a minute less than none. -/
theorem not_decides_default :
    checkRateLimit ({
        name := "Acme"
        slug := "acme"
        baseUrl := "https://api.acme.test"
        authType := .apiKey } : VendorCreate).rateLimitRpm 5 none = (some ⟨0, 5, none⟩, none) ∧
      (checkRateLimit (-60) 5 none).2 = some (false, -1) ∧
      ¬∀ (body : VendorCreate) (now : ℚ) (key : Option Bucket),
        Decides body.rateLimitRpm now key := by
  refine ⟨?_, ?_, fun hAll => ?_⟩
  · rw [checkRateLimit_zero]
    norm_num [newTokens]
  · rw [(checkRateLimit_neg _ _ (by decide)).1]
    norm_num
  · have h := (hAll ⟨"Acme", "acme", "https://api.acme.test", .apiKey, [], 0, 0⟩ 5 none).divisor
    norm_num at h

end Gateway.Admin
