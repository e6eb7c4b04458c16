import Gateway.Admin.Registers
import Gateway.Quota.Readers

/-! What readers of quota counters report. A value is the number of increments of
the period in which the reader first read the clock, and it is measured at GET. -/
namespace Gateway.Quota.Readers

open Calendar Transition Gateway.Db Rollover
open Callers (Call Tallied tally used)

/-- GET for a reading of the clock found this value: never more than what had been
counted, and exactly that if the period of the reading was not over. -/
structure Sight.Shows (sight : Sight) (n : Notes) (reading : Call) (current : ℤ) : Prop where
  of_reading : sight.reading = reading
  of_answer : sight.answered = true
  after : reading.time ≤ sight.time
  counted : sight.calls <:+ n.calls
  le_used : current ≤ used reading sight.calls
  eq_used : SamePeriod reading.period reading.time sight.time →
    current = used reading sight.calls

def Shown (n : Notes) (q : ℕ) (reading : Call) (later : DateTime) (current : ℤ) : Prop :=
  ∃ sight, n.sights q = some sight ∧ sight.Shows n reading current ∧ sight.time ≤ later

/-- The query of the dependency found this key and no other. -/
def Selected (n : Notes) (q : ℕ) (vendorSlug keyName : String) (key : VendorApiKey) : Prop :=
  n.requests q = some (.checkQuotaDependency vendorSlug keyName) ∧
    ∃ db, n.selected q = some db ∧ activeKeys db vendorSlug keyName = [key]

/-- The request that needs a counter for this purpose. -/
def Asked (n : Notes) (q : ℕ) (reading : Call) : Purpose → Prop
  | .usage =>
      n.requests q = some (.getQuotaUsage reading.vendorId reading.keyId reading.period)
  | .check limit =>
      n.requests q = some (.checkQuota reading.vendorId reading.keyId limit reading.period)
  | .sync =>
      n.requests q = some (.syncQuotaToDb reading.vendorId reading.keyId reading.period)
  | .dependency vendorName keyName limit =>
      ∃ key, Selected n q vendorName keyName key ∧ key.vendorId = reading.vendorId ∧
        key.id = reading.keyId ∧ key.quotaLimit = some limit ∧ key.quotaPeriod = some reading.period

/-- What the results of the tracker are. -/
def Measured (n : Notes) (q : ℕ) (now : DateTime) : Outcome → Prop
  | .usage current => ∃ reading, Asked n q reading .usage ∧ Shown n q reading now current
  | .checked allowed current => ∃ limit reading, Asked n q reading (.check limit) ∧
      Shown n q reading now current ∧ allowed = decide (current < limit)
  | .synced bucket usedCount => ∃ reading later, Asked n q reading .sync ∧
      Shown n q reading later usedCount ∧ n.ends q = some later ∧
        Rollover.periodBucket reading.period later = some bucket
  | _ => True

/-- The quota of the key is not enforced, or GET raised. -/
def Waived (n : Notes) (q : ℕ) (key : VendorApiKey) : Prop :=
  key.quotaLimit = none ∨ key.quotaPeriod = none ∨
    (∃ period, key.quotaPeriod = some period ∧ period ≠ "daily" ∧ period ≠ "monthly") ∨
      ∃ sight, n.sights q = some sight ∧ sight.answered = false

/-- What the dependency decides. -/
def Decided (n : Notes) (q : ℕ) (now : DateTime) : Outcome → Prop
  | .passed => ∃ vendorSlug keyName key, Selected n q vendorSlug keyName key ∧
      (Waived n q key ∨ ∃ limit reading current,
        Asked n q reading (.dependency vendorSlug keyName limit) ∧
          Shown n q reading now current ∧ current < limit)
  | .notFound detail => ∃ vendorSlug keyName db,
      n.requests q = some (.checkQuotaDependency vendorSlug keyName) ∧ n.selected q = some db ∧
        activeKeys db vendorSlug keyName = [] ∧
          detail = "API key '" ++ keyName ++ "' not found for vendor '" ++ vendorSlug ++ "'."
  | .quotaExceeded body => ∃ reading later,
      Asked n q reading (.dependency body.vendor body.key body.limit) ∧
        Shown n q reading later body.used ∧ n.ends q = some later ∧ body.limit ≤ body.used ∧
          body.period = reading.period ∧
            Rollover.resetsAt reading.period later = some body.resetsAt
  | _ => True

def Reader.Lawful (s : State) (n : Notes) (q : ℕ) : Reader → Prop
  | .idle => True
  | .selectingKey vendorSlug keyName =>
      n.requests q = some (.checkQuotaDependency vendorSlug keyName)
  | .selectingVendor vendorSlug keyName key => Selected n q vendorSlug keyName key ∧
      ∃ row ∈ s.admin.db.vendors.rows, row.id = key.vendorId ∧ row.slug = vendorSlug
  | .getting purpose reading c =>
      Asked n q reading purpose ∧ reading.counter = some c ∧ reading.time ≤ s.now
  | .syncing reading current => Asked n q reading .sync ∧ Shown n q reading s.now current
  | .exceeding vendorName keyName limit reading current =>
      Asked n q reading (.dependency vendorName keyName limit) ∧
        Shown n q reading s.now current ∧ limit ≤ current
  | .finished outcome => Measured n q s.now outcome ∧ Decided n q s.now outcome

section Notes

variable {s t : State} {n n' : Notes} {q : ℕ} {reading : Call} {now later : DateTime}
  {current : ℤ} {key : VendorApiKey} {vendorSlug keyName : String}

/-- What is noted about a reader up to its end is the same, and more may be counted. -/
structure Notes.Extends (n n' : Notes) (q : ℕ) : Prop where
  requests : n'.requests q = n.requests q
  selected : n'.selected q = n.selected q
  sights : n'.sights q = n.sights q
  calls : n.calls <:+ n'.calls

/-- The same for its end too. -/
structure Notes.Keeps (n n' : Notes) (q : ℕ) : Prop extends n.Extends n' q where
  ends : n'.ends q = n.ends q

theorem Shown.mono (h : Shown n q reading now current) (hNotes : n.Extends n' q)
    (hNow : now ≤ later) : Shown n' q reading later current := by
  obtain ⟨sight, hSight, hShows, hTime⟩ := h
  exact ⟨sight, hNotes.sights.trans hSight,
    { hShows with counted := hShows.counted.trans hNotes.calls }, hTime.trans hNow⟩

theorem Selected.mono (h : Selected n q vendorSlug keyName key) (hNotes : n.Extends n' q) :
    Selected n' q vendorSlug keyName key := by
  unfold Selected
  rw [hNotes.requests, hNotes.selected]
  exact h

theorem Asked.mono {purpose : Purpose} (h : Asked n q reading purpose)
    (hNotes : n.Extends n' q) : Asked n' q reading purpose := by
  cases purpose with
  | dependency vendorName keyName limit =>
      obtain ⟨key, hSelected, hRest⟩ := h
      exact ⟨key, hSelected.mono hNotes, hRest⟩
  | _ => exact hNotes.requests.trans h

theorem Waived.mono (h : Waived n q key) (hNotes : n.Extends n' q) : Waived n' q key := by
  unfold Waived
  rw [hNotes.sights]
  exact h

theorem Measured.mono {outcome : Outcome} (h : Measured n q now outcome)
    (hNotes : n.Keeps n' q) (hNow : now ≤ later) : Measured n' q later outcome := by
  have hExtends := hNotes.toExtends
  cases outcome with
  | usage current =>
      obtain ⟨reading, hAsked, hShown⟩ := h
      exact ⟨reading, hAsked.mono hExtends, hShown.mono hExtends hNow⟩
  | checked allowed current =>
      obtain ⟨limit, reading, hAsked, hShown, hAllowed⟩ := h
      exact ⟨limit, reading, hAsked.mono hExtends, hShown.mono hExtends hNow, hAllowed⟩
  | synced bucket usedCount =>
      obtain ⟨reading, clock, hAsked, hShown, hEnd, hBucket⟩ := h
      exact ⟨reading, clock, hAsked.mono hExtends, hShown.mono hExtends le_rfl,
        hNotes.ends.trans hEnd, hBucket⟩
  | _ => trivial

theorem Decided.mono {outcome : Outcome} (h : Decided n q now outcome)
    (hNotes : n.Keeps n' q) (hNow : now ≤ later) : Decided n' q later outcome := by
  have hExtends := hNotes.toExtends
  cases outcome with
  | passed =>
      obtain ⟨vendorSlug, keyName, key, hSelected, hWhy⟩ := h
      refine ⟨vendorSlug, keyName, key, hSelected.mono hExtends, ?_⟩
      rcases hWhy with hWaived | ⟨limit, reading, current, hAsked, hShown, hLess⟩
      · exact Or.inl (hWaived.mono hExtends)
      · exact Or.inr ⟨limit, reading, current, hAsked.mono hExtends, hShown.mono hExtends hNow,
          hLess⟩
  | notFound detail =>
      obtain ⟨vendorSlug, keyName, db, hRequest, hSelected, hRest⟩ := h
      exact ⟨vendorSlug, keyName, db, hNotes.requests.trans hRequest,
        hNotes.selected.trans hSelected, hRest⟩
  | quotaExceeded body =>
      obtain ⟨reading, clock, hAsked, hShown, hEnd, hRest⟩ := h
      exact ⟨reading, clock, hAsked.mono hExtends, hShown.mono hExtends le_rfl,
        hNotes.ends.trans hEnd, hRest⟩
  | _ => trivial

/-- What holds of a reader holds of it after the steps of others. -/
theorem Reader.Lawful.mono {reader : Reader} (h : reader.Lawful s n q) (hNotes : n.Keeps n' q)
    (hNow : s.now ≤ t.now) (hSlugs : ∀ id slug,
      (∃ row ∈ s.admin.db.vendors.rows, row.id = id ∧ row.slug = slug) →
        ∃ row ∈ t.admin.db.vendors.rows, row.id = id ∧ row.slug = slug) :
    reader.Lawful t n' q := by
  have hExtends := hNotes.toExtends
  cases reader with
  | idle => trivial
  | selectingKey vendorSlug keyName => exact hNotes.requests.trans h
  | selectingVendor vendorSlug keyName key => exact ⟨h.1.mono hExtends, hSlugs _ _ h.2⟩
  | getting purpose reading c => exact ⟨h.1.mono hExtends, h.2.1, h.2.2.trans hNow⟩
  | syncing reading current => exact ⟨h.1.mono hExtends, h.2.mono hExtends hNow⟩
  | exceeding vendorName keyName limit reading current =>
      exact ⟨h.1.mono hExtends, h.2.1.mono hExtends hNow, h.2.2⟩
  | finished outcome => exact ⟨h.1.mono hNotes hNow, h.2.mono hNotes hNow⟩

end Notes

section Steps

variable {s : State} {n : Notes} {q : ℕ} {reading : Call} {key : VendorApiKey}
  {vendorSlug keyName : String}

theorem lawful_raised : (Reader.finished .raised).Lawful s n q := ⟨trivial, trivial⟩

/-- An exception of the tracker is only of interest to the dependency. -/
theorem lawful_afterRaise {purpose : Purpose} (hAsked : Asked n q reading purpose)
    (hWhy : (reading.period ≠ "daily" ∧ reading.period ≠ "monthly") ∨
      ∃ sight, n.sights q = some sight ∧ sight.answered = false) :
    purpose.afterRaise.Lawful s n q := by
  cases purpose with
  | dependency vendorName keyName limit =>
      obtain ⟨key, hSelected, -, -, -, hPeriod⟩ := hAsked
      refine ⟨trivial, vendorName, keyName, key, hSelected, Or.inl (Or.inr (Or.inr ?_))⟩
      rcases hWhy with hUnknown | hRaised
      · exact Or.inl ⟨reading.period, hPeriod, hUnknown⟩
      · exact Or.inr hRaised
  | _ => exact lawful_raised

theorem unknown_of_counter (h : reading.counter = none) :
    reading.period ≠ "daily" ∧ reading.period ≠ "monthly" := by
  constructor <;> intro hPeriod <;>
    simp [Call.counter, Rollover.counterAt, Rollover.periodBucket, hPeriod] at h

theorem lawful_begin {purpose : Purpose} (hAsked : Asked n q reading purpose)
    (hPast : reading.time ≤ s.now) : (begin purpose reading).Lawful s n q := by
  unfold begin
  split
  case h_1 hNone => exact lawful_afterRaise hAsked (Or.inl (unknown_of_counter hNone))
  case h_2 c hCounter => exact ⟨hAsked, hCounter, hPast⟩

theorem lawful_enter {request : Request} (hRequest : n.requests q = some request) :
    (enter s.now request).Lawful s n q := by
  cases request with
  | checkQuotaDependency vendorSlug keyName => exact hRequest
  | _ => exact lawful_begin hRequest le_rfl

theorem lawful_afterSelectKey (hRequest : n.requests q = some (.checkQuotaDependency vendorSlug keyName))
    (hSelected : n.selected q = some s.admin.db) :
    (afterSelectKey vendorSlug keyName (activeKeys s.admin.db vendorSlug keyName)).Lawful s n q := by
  generalize hRows : activeKeys s.admin.db vendorSlug keyName = rows
  match rows with
  | [] => exact ⟨trivial, vendorSlug, keyName, s.admin.db, hRequest, hSelected, hRows, rfl⟩
  | [key] =>
      have hMem : key ∈ activeKeys s.admin.db vendorSlug keyName := by
        rw [hRows]
        exact List.mem_singleton_self key
      obtain ⟨-, hKey⟩ := List.mem_filter.mp hMem
      obtain ⟨-, -, row, hRow, hId, hSlug, -⟩ := of_decide_eq_true hKey
      exact ⟨⟨hRequest, s.admin.db, hSelected, hRows⟩, row, hRow, hId, hSlug⟩
  | _ :: _ :: _ => exact lawful_raised

/-- The vendor is that of the key, and it has the slug of the path. -/
theorem lawful_afterSelectVendor (h : (Reader.selectingVendor vendorSlug keyName key).Lawful s n q) :
    (afterSelectVendor s.now vendorSlug keyName key (s.admin.db.vendor? key.vendorId)).Lawful
      s n q := by
  obtain ⟨hSelected, row, hRow, hId, hSlug⟩ := h
  have hName : ((s.admin.db.vendor? key.vendorId).map fun row => row.slug).getD vendorSlug =
      vendorSlug := by
    cases hVendor : s.admin.db.vendor? key.vendorId with
    | none => rfl
    | some found =>
        obtain ⟨hFound, hFoundId⟩ := Admin.Api.mem_of_vendor? hVendor
        have hSame := List.inj_on_of_nodup_map s.admin.db.vendors.ids hFound hRow
          (hFoundId.trans hId.symm)
        rw [hSame]
        exact hSlug
  unfold afterSelectVendor
  rw [hName]
  split
  case h_1 limit period hLimit hPeriod =>
    exact lawful_begin ⟨key, hSelected, rfl, rfl, hLimit, hPeriod⟩ le_rfl
  case h_2 hNone =>
    refine ⟨trivial, vendorSlug, keyName, key, hSelected, Or.inl ?_⟩
    cases hLimit : key.quotaLimit with
    | none => exact Or.inl hLimit
    | some limit =>
        cases hPeriod : key.quotaPeriod with
        | none => exact Or.inr (Or.inl hPeriod)
        | some period => exact absurd hPeriod (hNone limit period hLimit)

/-- Under the keys of counters there are numbers only. -/
theorem exists_quotaUsage (value : Option (Redis.Value Empty)) :
    ∃ current, quotaUsage value = some current := by
  match value with
  | none => exact ⟨0, rfl⟩
  | some (.int m) => exact ⟨m, rfl⟩
  | some (.text payload) => exact payload.elim

theorem shown_of_get {c : Counter} {calls : List Call} (hTallied : Tallied (s.counters, calls))
    (hCounter : reading.counter = some c) (hPast : reading.time ≤ s.now)
    (hSight : n.sights q = some ⟨reading, true, calls, s.now⟩) (hCounted : calls <:+ n.calls)
    {current : ℤ}
    (hUsage : quotaUsage (s.counters.store.get s.counters.clock c.key) = some current) :
    Shown n q reading s.now current := by
  refine ⟨_, hSight, ?_, le_rfl⟩
  constructor
  · rfl
  · rfl
  · exact hPast
  · exact hCounted
  · exact hTallied.quotaUsage_le hCounter hUsage
  · intro hSame
    exact Option.some.inj (hUsage.symm.trans (hTallied.quotaUsage hCounter hPast hSame))

theorem lawful_afterGet {purpose : Purpose} {value : Option (Redis.Value Empty)}
    (hAsked : Asked n q reading purpose)
    (hShown : ∀ current, quotaUsage value = some current → Shown n q reading s.now current) :
    (afterGet purpose reading value).Lawful s n q := by
  obtain ⟨current, hUsage⟩ := exists_quotaUsage value
  have hShows := hShown current hUsage
  simp only [afterGet, hUsage]
  cases purpose with
  | usage => exact ⟨⟨reading, hAsked, hShows⟩, trivial⟩
  | check limit => exact ⟨⟨limit, reading, hAsked, hShows, rfl⟩, trivial⟩
  | sync => exact ⟨hAsked, hShows⟩
  | dependency vendorName keyName limit =>
      obtain ⟨key, hSelected, hRest⟩ := hAsked
      by_cases hLess : current < limit
      · simp only [if_pos hLess]
        exact ⟨trivial, vendorName, keyName, key, hSelected,
          Or.inr ⟨limit, reading, current, ⟨key, hSelected, hRest⟩, hShows, hLess⟩⟩
      · simp only [if_neg hLess]
        exact ⟨⟨key, hSelected, hRest⟩, hShows, not_lt.mp hLess⟩

/-- A reader that reads the clock again ends with it. -/
theorem lawful_afterClock {n' : Notes} {reader after : Reader} (h : reader.Lawful s n q)
    (hNotes : n.Extends n' q) (hEnd : n'.ends q = some s.now)
    (hAfter : afterClock s.now reader = some after) : after.Lawful s n' q := by
  unfold afterClock at hAfter
  split at hAfter
  case h_1 reading current =>
    obtain ⟨hAsked, hShown⟩ := h
    cases hBucket : Rollover.periodBucket reading.period s.now with
    | none =>
        rw [hBucket] at hAfter
        cases hAfter
        exact lawful_raised
    | some bucket =>
        rw [hBucket] at hAfter
        cases hAfter
        exact ⟨⟨reading, s.now, hAsked.mono hNotes, hShown.mono hNotes le_rfl, hEnd, hBucket⟩,
          trivial⟩
  case h_2 vendorName keyName limit reading current =>
    obtain ⟨hAsked, hShown, hLimit⟩ := h
    cases hReset : Rollover.resetsAt reading.period s.now with
    | none =>
        rw [hReset] at hAfter
        cases hAfter
        exact lawful_raised
    | some reset =>
        rw [hReset] at hAfter
        cases hAfter
        exact ⟨trivial, reading, s.now, hAsked.mono hNotes, hShown.mono hNotes le_rfl, hEnd,
          hLimit, rfl, hReset⟩
  case h_3 => cases hAfter

end Steps

/-- What holds in every run. -/
structure Inv (s : State) (n : Notes) : Prop where
  sound : Callers.Sound s.counters
  tallied : Tallied (s.counters, n.calls)
  lawful : ∀ q, (s.readers q).Lawful s n q

section Runs

variable {columns : Admin.Columns} {s t : State} {n : Notes} {e : Event} {q : ℕ}

theorem now_le_step {s t : Callers.State} {e : Callers.Event}
    (h : Callers.machine.step s e = some t) : s.now ≤ t.now := by
  rcases Callers.step_cases h with ⟨later, -, hLater, rfl⟩ | ⟨r, v, k, period, -, -, rfl⟩ |
    ⟨r, delivery, call, c, -, -, rfl⟩ | ⟨r, delivery, key, ttl, -, -, rfl⟩ | ⟨r, -, -, rfl⟩
  · exact hLater
  · obtain ⟨pc, hBegin, -⟩ := Callers.begin_eq s r v k period
    rw [hBegin]
    exact le_rfl
  · rcases Callers.incrStep_cases s r call c delivery with ⟨-, hStep⟩ |
      ⟨store, m, -, ⟨-, hStep⟩ | ⟨-, hStep⟩⟩ <;> rw [hStep] <;> exact le_rfl
  · cases delivery <;> exact le_rfl
  · exact le_rfl

theorem suffix_tally (s : Callers.State) (e : Callers.Event) (calls : List Call) :
    calls <:+ tally s e calls := by
  unfold tally
  repeat' split
  all_goals first | exact List.suffix_refl _ | exact List.suffix_cons _ _

theorem Notes.keeps_self (n : Notes) (w : ℕ) : n.Keeps n w :=
  ⟨⟨rfl, rfl, rfl, List.suffix_refl _⟩, rfl⟩

/-- A step of one reader. -/
theorem Inv.goto (h : Inv s n) {n' : Notes} {after : Reader} (hCalls : n'.calls = n.calls)
    (hOthers : ∀ w, w ≠ q → n.Keeps n' w) (hAfter : after.Lawful s n' q) :
    Inv (s.goto q after) n' := by
  refine ⟨h.sound, hCalls ▸ h.tallied, fun w => ?_⟩
  by_cases hw : w = q
  · subst hw
    rw [State.goto_readers_self]
    exact hAfter.mono (n'.keeps_self w) le_rfl fun _ _ => id
  · rw [State.goto_readers_of_ne s hw]
    exact (h.lawful w).mono (hOthers w hw) le_rfl fun _ _ => id

/-- The step of a reader whose statement is answered. -/
theorem Inv.answered (h : Inv s n) {after : Reader}
    (hAfter : s.answered (s.readers q) = some after) :
    Inv (s.goto q after) (record s (.deliver q true) n) := by
  have hLawful := h.lawful q
  unfold State.answered at hAfter
  split at hAfter
  case h_1 vendorSlug keyName hReader =>
    cases hAfter
    rw [hReader] at hLawful
    simp only [record, hReader]
    refine h.goto rfl (fun w hw => ⟨⟨rfl, Function.update_of_ne hw .., rfl, List.suffix_refl _⟩, rfl⟩) ?_
    exact lawful_afterSelectKey hLawful (Function.update_self ..)
  case h_2 vendorSlug keyName key hReader =>
    cases hAfter
    rw [hReader] at hLawful
    simp only [record, hReader]
    exact h.goto rfl (fun w _ => n.keeps_self w) (lawful_afterSelectVendor hLawful)
  case h_3 purpose reading c hReader =>
    cases hAfter
    rw [hReader] at hLawful
    obtain ⟨hAsked, hCounter, hPast⟩ := hLawful
    simp only [record, hReader]
    refine h.goto rfl (fun w hw => ⟨⟨rfl, rfl, Function.update_of_ne hw .., List.suffix_refl _⟩, rfl⟩) ?_
    apply lawful_afterGet
    · cases purpose <;> exact hAsked
    · intro current hUsage
      apply shown_of_get h.tallied hCounter hPast
      · exact Function.update_self ..
      · exact List.suffix_refl _
      · exact hUsage
  case h_4 => cases hAfter

theorem Inv.unanswered (h : Inv s n) {after : Reader}
    (hAfter : Readers.unanswered (s.readers q) = some after) :
    Inv (s.goto q after) (record s (.deliver q false) n) := by
  have hLawful := h.lawful q
  unfold Readers.unanswered at hAfter
  split at hAfter
  case h_1 vendorSlug keyName hReader =>
    cases hAfter
    simp only [record, hReader]
    exact h.goto rfl (fun w hw => ⟨⟨rfl, Function.update_of_ne hw .., rfl, List.suffix_refl _⟩, rfl⟩)
      lawful_raised
  case h_2 vendorSlug keyName key hReader =>
    cases hAfter
    simp only [record, hReader]
    exact h.goto rfl (fun w _ => n.keeps_self w) lawful_raised
  case h_3 purpose reading c hReader =>
    cases hAfter
    rw [hReader] at hLawful
    obtain ⟨hAsked, -, -⟩ := hLawful
    simp only [record, hReader]
    refine h.goto rfl (fun w hw => ⟨⟨rfl, rfl, Function.update_of_ne hw .., List.suffix_refl _⟩, rfl⟩) ?_
    refine @lawful_afterRaise _ _ _ reading purpose ?_ (Or.inr ⟨_, Function.update_self .., rfl⟩)
    cases purpose <;> exact hAsked
  case h_4 => cases hAfter

theorem Inv.step (h : Inv s n) (next : (machine columns).step s e = some t) :
    Inv t (record s e n) := by
  cases step_cases next with
  | counted e c hStep =>
      have hTallied : Tallied (c, tally s.counters e n.calls) :=
        h.tallied.step (e := e) h.sound (by simp [Callers.tallied, System.withHistory, hStep])
      refine ⟨h.sound.step hStep, hTallied, fun q => ?_⟩
      exact (h.lawful q).mono ⟨⟨rfl, rfl, rfl, suffix_tally _ _ _⟩, rfl⟩ (now_le_step hStep)
        fun _ _ => id
  | administered e admin hStep =>
      refine ⟨h.sound, h.tallied, fun q => ?_⟩
      exact (h.lawful q).mono (n.keeps_self q) le_rfl fun _ _ => Admin.Api.slug_kept_step hStep
  | called q request hIdle =>
      exact h.goto rfl (fun w hw => ⟨⟨Function.update_of_ne hw .., rfl, rfl, List.suffix_refl _⟩, rfl⟩)
        (lawful_enter (Function.update_self ..))
  | answered q after hAfter => exact h.answered hAfter
  | unanswered q after hAfter => exact h.unanswered hAfter
  | clocked q after hAfter =>
      refine h.goto rfl
        (fun w hw => ⟨⟨rfl, rfl, rfl, List.suffix_refl _⟩, Function.update_of_ne hw ..⟩) ?_
      exact lawful_afterClock (h.lawful q) ⟨rfl, rfl, rfl, List.suffix_refl _⟩
        (Function.update_self ..) hAfter
  | cancelled q => exact h.goto rfl (fun w _ => n.keeps_self w) lawful_raised

theorem inv_run {p : State × Notes} (run : (noted columns).Reaches System.anyRun p) :
    Inv p.1 p.2 := by
  refine System.Reaches.invariant_history (I := fun p => Inv p.1 p.2) ?_
    (fun s n t e h _ next => h.step next) run
  rintro s ⟨hCounters, -, hIdle⟩
  refine ⟨Callers.sound_of_init hCounters, Callers.tallied_of_init hCounters, fun q => ?_⟩
  rw [show s.readers q = .idle from hIdle q]
  trivial

/-- `resets_at` is the instant at which the period of its reading of the clock ends. -/
theorem lt_resetsAt_iff {period : String} (hPeriod : period = "daily" ∨ period = "monthly")
    {clock reset t : DateTime} (hReset : Rollover.resetsAt period clock = some reset)
    (hLater : clock ≤ t) : SamePeriod period clock t ↔ t < reset := by
  obtain ⟨d, hMidnight, hDay⟩ : ∃ d, DateTime.midnight d = some reset ∧
      d.dayNumber = periodEnd period clock.date := by
    rcases hPeriod with rfl | rfl
    · exact ⟨clock.date.next, hReset, clock.date.next_dayNumber⟩
    · have hEnd : periodEnd "monthly" clock.date = monthStart (clock.date.monthIndex + 1) := by
        rw [periodEnd, if_neg (by decide)]
      unfold Rollover.resetsAt at hReset
      rw [if_neg (by decide), if_pos rfl] at hReset
      rw [hEnd]
      have hMonth := clock.date.month_valid
      split_ifs at hReset with hDecember
      · refine ⟨_, hReset, ?_⟩
        have hIndex : 12 * (clock.date.year + 1) + (1 - 1) = clock.date.monthIndex + 1 := by
          unfold Date.monthIndex
          omega
        simp only [Date.dayNumber, Date.monthIndex] at hIndex ⊢
        rw [hIndex, Nat.sub_self, Nat.add_zero]
      · refine ⟨_, hReset, ?_⟩
        have hIndex : 12 * clock.date.year + (clock.date.month + 1 - 1) =
            clock.date.monthIndex + 1 := by
          unfold Date.monthIndex
          omega
        simp only [Date.dayNumber, Date.monthIndex] at hIndex ⊢
        rw [hIndex, Nat.sub_self, Nat.add_zero]
  unfold DateTime.midnight at hMidnight
  split_ifs at hMidnight with hYear
  obtain rfl := Option.some.inj hMidnight
  rw [samePeriod_iff hPeriod hLater, DateTime.lt_midnight_iff, hDay]

theorem known_of_resetsAt {period : String} {clock reset : DateTime}
    (h : Rollover.resetsAt period clock = some reset) : period = "daily" ∨ period = "monthly" := by
  unfold Rollover.resetsAt at h
  split_ifs at h with hDaily hMonthly
  · exact Or.inl hDaily
  · exact Or.inr hMonthly
  · exact Or.inr hMonthly

theorem known_of_bucket {period bucket : String} {clock : DateTime}
    (h : Rollover.periodBucket period clock = some bucket) :
    period = "daily" ∨ period = "monthly" := by
  unfold Rollover.periodBucket at h
  split_ifs at h with hDaily hMonthly
  · exact Or.inl hDaily
  · exact Or.inr hMonthly

end Runs

/-- What a finished call of the tracker says, against what GET met. -/
def Reports (n : Notes) (q : ℕ) : Outcome → Prop
  | .usage current => ∃ reading sight, Asked n q reading .usage ∧ n.sights q = some sight ∧
      sight.Shows n reading current
  | .checked allowed current => ∃ limit reading sight, Asked n q reading (.check limit) ∧
      n.sights q = some sight ∧ sight.Shows n reading current ∧
        (allowed = false → limit ≤ used reading sight.calls) ∧
          (SamePeriod reading.period reading.time sight.time →
            (allowed = true ↔ used reading sight.calls < limit))
  | .synced bucket usedCount => ∃ reading sight, Asked n q reading .sync ∧
      n.sights q = some sight ∧ sight.Shows n reading usedCount ∧
        (Rollover.periodBucket reading.period reading.time = some bucket →
          usedCount = used reading sight.calls)
  | _ => True

/-- In every run, whatever fails and however late the commands come,
`get_quota_usage`, `check_quota` and `sync_quota_to_db` never report more increments
than Redis had executed in the period, and exactly these if GET came in the period of
the reading of the clock. `check_quota` refuses only at the limit, and
`sync_quota_to_db` is exact unless it reports under a later bucket. -/
theorem reports_exact {columns : Admin.Columns} {s : State} {n : Notes}
    (run : (noted columns).Reaches System.anyRun (s, n)) {q : ℕ} {outcome : Outcome}
    (hDone : s.readers q = .finished outcome) : Reports n q outcome := by
  have hLawful := (inv_run run).lawful q
  simp only [hDone] at hLawful
  obtain ⟨hMeasured, -⟩ := hLawful
  cases outcome with
  | usage current =>
      obtain ⟨reading, hAsked, sight, hSight, hShows, -⟩ := hMeasured
      exact ⟨reading, sight, hAsked, hSight, hShows⟩
  | checked allowed current =>
      obtain ⟨limit, reading, hAsked, ⟨sight, hSight, hShows, -⟩, rfl⟩ := hMeasured
      refine ⟨limit, reading, sight, hAsked, hSight, hShows, ?_, ?_⟩
      · intro hRefused
        have hLimit : limit ≤ current := not_lt.mp (of_decide_eq_false hRefused)
        exact hLimit.trans hShows.le_used
      · intro hSame
        rw [decide_eq_true_iff, hShows.eq_used hSame]
  | synced bucket usedCount =>
      obtain ⟨reading, clock, hAsked, ⟨sight, hSight, hShows, hTime⟩, -, hBucket⟩ := hMeasured
      refine ⟨reading, sight, hAsked, hSight, hShows, fun hFirst => hShows.eq_used ?_⟩
      have hKnown := known_of_bucket hBucket
      have hWhole : SamePeriod reading.period reading.time clock :=
        (periodBucket_eq_iff hKnown).mp (hFirst.trans hBucket.symm)
      exact Callers.samePeriod_of_between hKnown hShows.after hTime hWhole
  | _ => trivial

/-- The dependency for a key with a quota, once GET has answered. -/
structure Enforced (n : Notes) (q : ℕ) (vendorSlug keyName : String) (key : VendorApiKey)
    (reading : Call) (sight : Sight) (limit : ℤ) (outcome : Outcome) : Prop where
  limited : key.quotaLimit = some limit ∧ key.quotaPeriod = some reading.period
  counter : reading.vendorId = key.vendorId ∧ reading.keyId = key.id
  met : n.sights q = some sight ∧ sight.answered = true ∧ reading.time ≤ sight.time
  decides : outcome = .passed ∧
      (SamePeriod reading.period reading.time sight.time → used reading sight.calls < limit) ∨
    ∃ body later, outcome = .quotaExceeded body ∧ body.vendor = vendorSlug ∧ body.key = keyName ∧
      body.limit = limit ∧ body.period = reading.period ∧ sight.Shows n reading body.used ∧
        limit ≤ body.used ∧ n.ends q = some later ∧ sight.time ≤ later ∧
          ∀ t, later ≤ t → (SamePeriod body.period later t ↔ t < body.resetsAt)

/-- In every run, also while administrators change vendors and keys, a call of
`check_quota_dependency` that does not raise goes by the one active key of that name
under the active vendor: without one it answers 404, without a quota or an answer of
Redis it lets the request pass, and otherwise it answers 429 only if the limit has
been reached in the period, always so if GET came in it, and `resets_at` is the end of
the period that is on when the answer is made. -/
theorem dependency_decides {columns : Admin.Columns} {s : State} {n : Notes}
    (run : (noted columns).Reaches System.anyRun (s, n)) {q : ℕ} {outcome : Outcome}
    (hDone : s.readers q = .finished outcome) {vendorSlug keyName : String}
    (hRequest : n.requests q = some (.checkQuotaDependency vendorSlug keyName))
    (hReturns : outcome ≠ .raised) :
    ∃ db, n.selected q = some db ∧
      (activeKeys db vendorSlug keyName = [] ∧ outcome = .notFound
          ("API key '" ++ keyName ++ "' not found for vendor '" ++ vendorSlug ++ "'.") ∨
        ∃ key, activeKeys db vendorSlug keyName = [key] ∧ (Waived n q key ∧ outcome = .passed ∨
          ∃ reading sight limit,
            Enforced n q vendorSlug keyName key reading sight limit outcome)) := by
  have hLawful := (inv_run run).lawful q
  simp only [hDone] at hLawful
  obtain ⟨hMeasured, hDecided⟩ := hLawful
  have hSame {slug name : String} (h : n.requests q = some (.checkQuotaDependency slug name)) :
      slug = vendorSlug ∧ name = keyName := by
    cases h.symm.trans hRequest
    exact ⟨rfl, rfl⟩
  cases outcome with
  | raised => exact absurd rfl hReturns
  | usage current =>
      obtain ⟨reading, hAsked, -⟩ := hMeasured
      cases hRequest.symm.trans hAsked
  | checked allowed current =>
      obtain ⟨limit, reading, hAsked, -⟩ := hMeasured
      cases hRequest.symm.trans hAsked
  | synced bucket usedCount =>
      obtain ⟨reading, clock, hAsked, -⟩ := hMeasured
      cases hRequest.symm.trans hAsked
  | passed =>
      obtain ⟨slug, name, key, ⟨hAs, db, hSelected, hKey⟩, hWhy⟩ := hDecided
      obtain ⟨rfl, rfl⟩ := hSame hAs
      refine ⟨db, hSelected, Or.inr ⟨key, hKey, ?_⟩⟩
      rcases hWhy with hWaived | ⟨limit, reading, current, hAsked, hShown, hLess⟩
      · exact Or.inl ⟨hWaived, rfl⟩
      obtain ⟨key', ⟨-, db', hSelected', hKey'⟩, hVendor, hId, hLimit, hPeriod⟩ := hAsked
      obtain rfl : db = db' := Option.some.inj (hSelected.symm.trans hSelected')
      obtain rfl : key = key' := List.singleton_inj.mp (hKey.symm.trans hKey')
      obtain ⟨sight, hSight, hShows, -⟩ := hShown
      refine Or.inr ⟨reading, sight, limit, ⟨hLimit, hPeriod⟩, ⟨hVendor.symm, hId.symm⟩,
        ⟨hSight, hShows.of_answer, hShows.after⟩, Or.inl ⟨rfl, fun hPeriods => ?_⟩⟩
      rw [← hShows.eq_used hPeriods]
      exact hLess
  | notFound detail =>
      obtain ⟨slug, name, db, hAs, hSelected, hNone, rfl⟩ := hDecided
      obtain ⟨rfl, rfl⟩ := hSame hAs
      exact ⟨db, hSelected, Or.inl ⟨hNone, rfl⟩⟩
  | quotaExceeded body =>
      obtain ⟨reading, later, ⟨key, ⟨hAs, db, hSelected, hKey⟩, hVendor, hId, hLimit, hPeriod⟩,
        ⟨sight, hSight, hShows, hTime⟩, hEnd, hUsed, hBody, hReset⟩ := hDecided
      obtain ⟨hSlug, hName⟩ := hSame hAs
      refine ⟨db, hSelected, Or.inr ⟨key, by rw [← hSlug, ← hName]; exact hKey, Or.inr
        ⟨reading, sight, body.limit, ⟨hLimit, hPeriod⟩, ⟨hVendor.symm, hId.symm⟩,
          ⟨hSight, hShows.of_answer, hShows.after⟩, Or.inr ⟨body, later, rfl, hSlug, hName, rfl,
            hBody, hShows, hUsed, hEnd, hTime, fun t hLater => ?_⟩⟩⟩⟩
      rw [hBody]
      exact lt_resetsAt_iff (known_of_resetsAt hReset) hReset hLater

section Sample

/-- An active vendor with one key, which may be used once a day. -/
def sampleVendor : Admin.Row := { Admin.Api.sampleRow with isActive := true }

def sampleKey : VendorApiKey where
  id := .nil
  vendorId := .nil
  keyName := "k"
  quotaLimit := some 1
  quotaPeriod := some "daily"
  isActive := true

def sampleStart : State where
  counters := Callers.sampleStart
  admin := ⟨⟨⟨[sampleVendor], List.nodup_singleton _, List.nodup_singleton _⟩,
    ⟨[sampleKey], List.nodup_singleton _⟩⟩, fun _ => .idle⟩
  readers := fun _ => .idle

theorem init_noted : (noted Admin.sampleColumns).init (sampleStart, .start) :=
  ⟨⟨Callers.init_sampleStart, fun _ => rfl, fun _ => rfl⟩, rfl⟩

/-- One increment whose answer is lost. -/
def sampleIncrement : List Event :=
  [.counters (.call 0 .nil .nil "daily"), .counters (.incr 0 .unanswered)]

def Reader.syncedOne : Reader → Bool
  | .finished (.synced bucket usedCount) => decide (bucket = "2024-02-29" ∧ usedCount = 1)
  | _ => false

def Reader.exceeded : Reader → Bool
  | .finished (.quotaExceeded body) => decide (body.used = 1)
  | _ => false

theorem reports_exact_synced : ∃ n, Reports n 0 (.synced "2024-02-29" 1) := by
  obtain ⟨⟨s, n⟩, run, hSynced⟩ := (System.Reaches.init init_noted).exec_any
    (by decide +kernel : ((noted Admin.sampleColumns).exec System.anyRun _
      (sampleIncrement ++ [.call 0 (.syncQuotaToDb .nil .nil "daily"), .deliver 0 true, .clock 0])).any
      (fun p => (p.1.readers 0).syncedOne) = true)
  unfold Reader.syncedOne at hSynced
  split at hSynced
  case h_1 bucket usedCount hDone =>
    obtain ⟨rfl, rfl⟩ := of_decide_eq_true hSynced
    exact ⟨n, reports_exact run hDone⟩
  case h_2 => cases hSynced

theorem dependency_decides_exceeded : ∃ s n key reading sight limit body,
    (noted Admin.sampleColumns).Reaches System.anyRun (s, n) ∧ body.used = 1 ∧
      Enforced n 0 "v" "k" key reading sight limit (.quotaExceeded body) := by
  obtain ⟨⟨s, n⟩, run, hCheck⟩ := (System.Reaches.init init_noted).exec_any
    (by decide +kernel : ((noted Admin.sampleColumns).exec System.anyRun _
      (sampleIncrement ++ [.call 0 (.checkQuotaDependency "v" "k"), .deliver 0 true,
        .deliver 0 true, .deliver 0 true, .clock 0])).any
      (fun p => (p.1.readers 0).exceeded &&
        decide (p.2.requests 0 = some (.checkQuotaDependency "v" "k"))) = true)
  obtain ⟨hExceeded, hAsked⟩ := Bool.and_eq_true_iff.mp hCheck
  have hRequest : n.requests 0 = some (.checkQuotaDependency "v" "k") := of_decide_eq_true hAsked
  unfold Reader.exceeded at hExceeded
  split at hExceeded
  case h_1 body hDone =>
    obtain ⟨db, -, ⟨-, hNone⟩ | ⟨key, -, ⟨-, hPassed⟩ | ⟨reading, sight, limit, hEnforced⟩⟩⟩ :=
      dependency_decides run hDone hRequest (by simp)
    · cases hNone
    · cases hPassed
    · exact ⟨s, n, key, reading, sight, limit, body, run, of_decide_eq_true hExceeded, hEnforced⟩
  case h_2 => cases hExceeded

end Sample

end Gateway.Quota.Readers
