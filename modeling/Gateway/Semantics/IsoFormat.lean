import Gateway.Semantics.DateTime

/-! Datetimes with an offset from UTC, the text that `isoformat` writes for them
and how `fromisoformat` reads it. -/
namespace Calendar

/-- A datetime on a clock that is ahead of UTC by an offset, in microseconds and
less than a day. -/
structure OffsetDateTime where
  clock : DateTime
  offset : ℤ
  offset_valid : offset.natAbs < microsPerDay
  deriving DecidableEq

/-- A number with leading zeros, in a field of some width. -/
def padded : ℕ → ℕ → List Char
  | 0, _ => []
  | w + 1, n => padded w (n / 10) ++ [Nat.digitChar (n % 10)]

/-- Microseconds of a day, or less, in hours, minutes, seconds and a rest. -/
structure Clock where
  hours : ℕ
  minutes : ℕ
  seconds : ℕ
  micros : ℕ

def Clock.ofMicros (n : ℕ) : Clock :=
  ⟨n / 3600000000, n / 60000000 % 60, n / 1000000 % 60, n % 1000000⟩

def Clock.toMicros (t : Clock) : ℕ :=
  ((t.hours * 60 + t.minutes) * 60 + t.seconds) * 1000000 + t.micros

/-- The seconds of a clock, with six decimals unless they are zero. -/
def Clock.secondsText (t : Clock) : List Char :=
  padded 2 t.seconds ++ if t.micros = 0 then [] else '.' :: padded 6 t.micros

/-- Hours and minutes. -/
def Clock.minutesText (t : Clock) : List Char := padded 2 t.hours ++ ':' :: padded 2 t.minutes

def Date.isoText (d : Date) : List Char :=
  padded 4 d.year ++ '-' :: padded 2 d.month ++ '-' :: padded 2 d.day

/-- `_format_offset` -/
def offsetText (offset : ℤ) : List Char :=
  let t := Clock.ofMicros offset.natAbs
  (if offset < 0 then '-' else '+') :: t.minutesText ++
    if t.seconds = 0 ∧ t.micros = 0 then [] else ':' :: t.secondsText

/-- `isoformat` -/
def OffsetDateTime.isoformat (dt : OffsetDateTime) : List Char :=
  let t := Clock.ofMicros dt.clock.micros
  dt.clock.date.isoText ++ 'T' :: t.minutesText ++ ':' :: t.secondsText ++ offsetText dt.offset

section Reading

def digit? (c : Char) : Option ℕ := if c.isDigit then some (c.toNat - 48) else none

/-- A number of exactly as many digits. -/
def readNumber : ℕ → ℕ → List Char → Option (ℕ × List Char)
  | 0, acc, s => some (acc, s)
  | _ + 1, _, [] => none
  | w + 1, acc, c :: s => (digit? c).bind fun d => readNumber w (acc * 10 + d) s

def expect (c : Char) : List Char → Option (List Char)
  | d :: s => if d = c then some s else none
  | [] => none

def readDate (s : List Char) : Option ((ℕ × ℕ × ℕ) × List Char) := do
  let (year, s) ← readNumber 4 0 s
  let s ← expect '-' s
  let (month, s) ← readNumber 2 0 s
  let s ← expect '-' s
  let (day, s) ← readNumber 2 0 s
  some ((year, month, day), s)

/-- Decimals behind a point. -/
def readFraction (s : List Char) : Option (ℕ × List Char) :=
  match expect '.' s with
  | some s => readNumber 6 0 s
  | none => some (0, s)

/-- `HH:MM`, and `:SS` where it follows, with or without six decimals. -/
def readClock (s : List Char) : Option (Clock × List Char) := do
  let (hours, s) ← readNumber 2 0 s
  let s ← expect ':' s
  let (minutes, s) ← readNumber 2 0 s
  match expect ':' s with
  | none => some (⟨hours, minutes, 0, 0⟩, s)
  | some s => do
      let (seconds, s) ← readNumber 2 0 s
      let (micros, s) ← readFraction s
      some (⟨hours, minutes, seconds, micros⟩, s)

/-- The sign and the clock of an offset, or `Z`. -/
def readOffset (s : List Char) : Option ℤ :=
  match s with
  | [] => none
  | c :: s =>
      if c = 'Z' then if s = [] then some 0 else none
      else if c = '+' ∨ c = '-' then
        match readClock s with
        | some (t, []) => some (if c = '-' then -(t.toMicros : ℤ) else t.toMicros)
        | _ => none
      else none

def Date.make (year month day : ℕ) : Option Date :=
  if h : (1 ≤ month ∧ month ≤ 12) ∧ 1 ≤ day ∧ day ≤ daysInMonth year month then
    some ⟨year, month, day, h.1, h.2⟩
  else none

def DateTime.make (date : Date) (t : Clock) : Option DateTime :=
  if h : (1 ≤ date.year ∧ date.year ≤ 9999) ∧ t.toMicros < microsPerDay then
    if t.hours < 24 ∧ t.minutes < 60 ∧ t.seconds < 60 then some ⟨date, t.toMicros, h.1, h.2⟩
    else none
  else none

def OffsetDateTime.make (clock : DateTime) (offset : ℤ) : Option OffsetDateTime :=
  if h : offset.natAbs < microsPerDay then some ⟨clock, offset, h⟩ else none

/-- `fromisoformat` on a text with a date in its extended form, any separator, a
clock and an offset. Other formats, which it reads as well, are refused here. -/
def fromisoformat (s : List Char) : Option OffsetDateTime := do
  let ((year, month, day), s) ← readDate s
  let date ← Date.make year month day
  let (t, s) ← readClock (s.drop 1)
  let clock ← DateTime.make date t
  let offset ← readOffset s
  OffsetDateTime.make clock offset

end Reading

section RoundTrip

variable {n w acc : ℕ} {rest s : List Char} {t : Clock}

theorem digit?_digitChar (h : n < 10) : digit? (Nat.digitChar n) = some n := by
  have hAll : ∀ m : Fin 10, digit? (Nat.digitChar m) = some m.val := by decide
  exact hAll ⟨n, h⟩

/-- The last digit is read after the others. -/
theorem readNumber_succ : readNumber (w + 1) acc s =
    (readNumber w acc s).bind fun p => readNumber 1 p.1 p.2 := by
  induction w generalizing acc s with
  | zero => rfl
  | succ w ih =>
      cases s with
      | nil => rfl
      | cons c s =>
          show ((digit? c).bind fun d => readNumber (w + 1) (acc * 10 + d) s) =
            ((digit? c).bind fun d => readNumber w (acc * 10 + d) s).bind _
          cases digit? c with
          | none => rfl
          | some d => exact ih

theorem readNumber_padded (h : n < 10 ^ w) :
    readNumber w acc (padded w n ++ rest) = some (acc * 10 ^ w + n, rest) := by
  induction w generalizing n rest with
  | zero =>
      obtain rfl : n = 0 := by omega
      simp [readNumber, padded]
  | succ w ih =>
      have hQuotient : n / 10 < 10 ^ w := by
        rw [Nat.div_lt_iff_lt_mul (by decide), ← Nat.pow_succ]
        exact h
      have hDigit := digit?_digitChar (Nat.mod_lt n (show 0 < 10 by decide))
      have hValue : (acc * 10 ^ w + n / 10) * 10 + n % 10 = acc * 10 ^ (w + 1) + n := by
        rw [Nat.pow_succ, ← Nat.mul_assoc]
        omega
      rw [readNumber_succ, padded, List.append_assoc, ih hQuotient]
      simp [readNumber, hDigit, hValue]

/-- A field of a fixed width is read back. -/
theorem readNumber_zero (h : n < 10 ^ w) :
    readNumber w 0 (padded w n ++ rest) = some (n, rest) := by
  rw [readNumber_padded h, Nat.zero_mul, Nat.zero_add]

theorem toMicros_ofMicros (n : ℕ) : (Clock.ofMicros n).toMicros = n := by
  unfold Clock.toMicros Clock.ofMicros
  simp only
  omega

/-- A clock with two digits in each field. -/
structure Clock.Fits (t : Clock) : Prop where
  hours : t.hours < 24
  minutes : t.minutes < 60
  seconds : t.seconds < 60
  micros : t.micros < 1000000

theorem fits_ofMicros (h : n < microsPerDay) : (Clock.ofMicros n).Fits := by
  unfold microsPerDay at h
  constructor
  · show n / 3600000000 < 24
    omega
  · exact Nat.mod_lt _ (by decide)
  · exact Nat.mod_lt _ (by decide)
  · exact Nat.mod_lt _ (by decide)

/-- What may follow a clock: the end or a sign. -/
def Ends (rest : List Char) : Prop := ∀ c ∈ rest.head?, c = '+' ∨ c = '-'

theorem expect_of_ends {c : Char} (hEnds : Ends rest) (hPlus : c ≠ '+') (hMinus : c ≠ '-') :
    expect c rest = none := by
  cases rest with
  | nil => rfl
  | cons d rest =>
      have hNe : d ≠ c := by
        rintro rfl
        rcases hEnds d rfl with rfl | rfl
        · exact hPlus rfl
        · exact hMinus rfl
      rw [expect, if_neg hNe]

theorem expect_self {c : Char} : expect c (c :: rest) = some rest := if_pos rfl

theorem readFraction_secondsText (hFits : t.Fits) (hEnds : Ends rest) :
    readFraction ((if t.micros = 0 then [] else '.' :: padded 6 t.micros) ++ rest) =
      some (t.micros, rest) := by
  split_ifs with hZero
  · rw [List.nil_append, readFraction, expect_of_ends hEnds (by decide) (by decide), hZero]
  · rw [List.cons_append, readFraction, expect_self]
    exact readNumber_zero hFits.micros

/-- A clock with its seconds is read back. -/
theorem readClock_seconds (hFits : t.Fits) (hEnds : Ends rest) :
    readClock (t.minutesText ++ ':' :: t.secondsText ++ rest) = some (t, rest) := by
  have hHours : t.hours < 10 ^ 2 := lt_trans hFits.hours (by decide)
  have hMinutes : t.minutes < 10 ^ 2 := lt_trans hFits.minutes (by decide)
  have hSeconds : t.seconds < 10 ^ 2 := lt_trans hFits.seconds (by decide)
  have hFraction := readFraction_secondsText hFits hEnds
  simp only [readClock, Clock.minutesText, Clock.secondsText, List.append_assoc, List.cons_append,
    readNumber_zero hHours, readNumber_zero hMinutes, readNumber_zero hSeconds, expect_self,
    hFraction, Option.bind_eq_bind, Option.bind_some]

/-- A clock without seconds is read back. -/
theorem readClock_minutes (hFits : t.Fits) (hEnds : Ends rest) (hSeconds : t.seconds = 0)
    (hMicros : t.micros = 0) : readClock (t.minutesText ++ rest) = some (t, rest) := by
  have hHours : t.hours < 10 ^ 2 := lt_trans hFits.hours (by decide)
  have hMinutes : t.minutes < 10 ^ 2 := lt_trans hFits.minutes (by decide)
  have hNone : expect ':' rest = none := expect_of_ends hEnds (by decide) (by decide)
  have hClock : (⟨t.hours, t.minutes, 0, 0⟩ : Clock) = t := by
    cases t
    simp only at hSeconds hMicros
    rw [hSeconds, hMicros]
  simp only [readClock, Clock.minutesText, List.append_assoc, List.cons_append,
    readNumber_zero hHours, readNumber_zero hMinutes, expect_self, hNone, hClock,
    Option.bind_eq_bind, Option.bind_some]

theorem readOffset_offsetText {offset : ℤ} (h : offset.natAbs < microsPerDay) :
    readOffset (offsetText offset) = some offset := by
  have hFits := fits_ofMicros h
  have hMicros := toMicros_ofMicros offset.natAbs
  have hEnds : Ends [] := by simp [Ends]
  have hClock : readClock ((Clock.ofMicros offset.natAbs).minutesText ++
      if (Clock.ofMicros offset.natAbs).seconds = 0 ∧ (Clock.ofMicros offset.natAbs).micros = 0
        then [] else ':' :: (Clock.ofMicros offset.natAbs).secondsText) =
      some (Clock.ofMicros offset.natAbs, []) := by
    split_ifs with hZero
    · exact readClock_minutes hFits hEnds hZero.1 hZero.2
    · have hRead := readClock_seconds hFits hEnds
      rw [List.append_nil] at hRead
      exact hRead
  rw [offsetText, List.cons_append, readOffset.eq_def]
  simp only [hClock, hMicros]
  by_cases hNeg : offset < 0
  · rw [if_pos hNeg]
    have hSign : -(offset.natAbs : ℤ) = offset := by omega
    rw [if_neg (by decide), if_pos (by decide), if_pos rfl, hSign]
  · rw [if_neg hNeg]
    have hSign : (offset.natAbs : ℤ) = offset := by omega
    rw [if_neg (by decide), if_pos (by decide), if_neg (by decide), hSign]

theorem make_date (d : Date) : Date.make d.year d.month d.day = some d := by
  rw [Date.make, dif_pos ⟨d.month_valid, d.day_valid⟩]

theorem readDate_isoText {d : Date} (hYear : d.year ≤ 9999) :
    readDate (d.isoText ++ rest) = some ((d.year, d.month, d.day), rest) := by
  have hMonth := d.month_valid
  have hDay := d.day_valid
  have hLength := daysInMonth_le d.year d.month
  have hYearWidth : d.year < 10 ^ 4 := by omega
  have hMonthWidth : d.month < 10 ^ 2 := by omega
  have hDayWidth : d.day < 10 ^ 2 := by omega
  simp only [readDate, Date.isoText, List.append_assoc, List.cons_append,
    readNumber_zero hYearWidth, readNumber_zero hMonthWidth, readNumber_zero hDayWidth,
    expect_self, Option.bind_eq_bind, Option.bind_some]

theorem make_dateTime (dt : DateTime) :
    DateTime.make dt.date (Clock.ofMicros dt.micros) = some dt := by
  have hFits := fits_ofMicros dt.micros_valid
  have hMicros := toMicros_ofMicros dt.micros
  unfold DateTime.make
  rw [dif_pos ⟨dt.year_valid, by rw [hMicros]; exact dt.micros_valid⟩,
    if_pos ⟨hFits.hours, hFits.minutes, hFits.seconds⟩]
  cases dt
  simp only [toMicros_ofMicros]

theorem ends_offsetText (offset : ℤ) : Ends (offsetText offset) := by
  intro c hc
  rw [offsetText] at hc
  obtain rfl := Option.some.inj hc
  split_ifs
  · exact Or.inr rfl
  · exact Or.inl rfl

/-- `fromisoformat` reads what `isoformat` writes. -/
theorem fromisoformat_isoformat (dt : OffsetDateTime) : fromisoformat dt.isoformat = some dt := by
  have hFits := fits_ofMicros dt.clock.micros_valid
  have hDate (rest : List Char) : readDate (dt.clock.date.isoText ++ rest) =
      some ((dt.clock.date.year, dt.clock.date.month, dt.clock.date.day), rest) :=
    readDate_isoText dt.clock.year_valid.2
  have hClock := readClock_seconds hFits (ends_offsetText dt.offset)
  have hMake : OffsetDateTime.make dt.clock dt.offset = some dt := dif_pos dt.offset_valid
  simp only [fromisoformat, OffsetDateTime.isoformat, List.append_assoc, List.cons_append, hDate,
    make_date, List.drop_succ_cons, List.drop_zero, Option.bind_eq_bind, Option.bind_some]
  simp only [List.append_assoc, List.cons_append] at hClock
  rw [hClock]
  simp only [make_dateTime, readOffset_offsetText dt.offset_valid, hMake, Option.bind_some]

end RoundTrip

end Calendar
