import Gateway.Vendors.Reload

/-! How old the configurations are that a request works with. The age of an
installed table counts from its query, while `_last_loaded` is the time of its
installation. -/
namespace Gateway.Vendors.Coherence

open Transition

/-- History: when the tables after the first one were committed, when each load
sent its query, how many tables there were when it was called, and how many when any of
those that have returned was called. -/
structure Times where
  committedAt : List ℚ
  queriedAt : ℕ → ℚ
  known : ℕ → ℕ
  seen : ℕ

def recordTimes (s : State) (e : Event) (h : Times) : Times :=
  match e with
  | .commit _ => { h with committedAt := h.committedAt ++ [s.now] }
  | .load c | .reloadIfStale c =>
      { h with known := Function.update h.known c s.committed.length }
  | .execute c _ => { h with queriedAt := Function.update h.queriedAt c s.now }
  | .install c => { h with seen := max h.seen (h.known c) }
  | _ => h

def Times.start : Times := ⟨[], fun _ => 0, fun _ => 0, 0⟩

def dated : System (State × Times) Event := machine.withHistory .start recordTimes

/-- Monotonic time is not negative, and a load installs what it has read within
this latency. -/
def Prompt (latency : ℚ) (p : State × Times) (e : Event) : Prop :=
  0 ≤ p.1.now ∧
    match e with
    | .install c => p.1.now ≤ p.2.queriedAt c + latency
    | _ => True

instance (latency : ℚ) (p : State × Times) (e : Event) : Decidable (Prompt latency p e) := by
  unfold Prompt
  cases e <;> infer_instance

/-- A call of `reload_if_stale` or of `load` returns in this event. The caller
goes on to the registry without another await. -/
def returns (s : State) : Event → Bool
  | .reloadIfStale _ => !s.registry.isStale s.now
  | .install _ => true
  | _ => false

/-- The configuration of a vendor in a table, unless it is switched off. -/
def Table.config? (table : Table) (slug : String) : Option Vendor :=
  table.active.find? fun v => decide (v.slug = slug)

/-- The tables that were committed before a time go up to a version at least. -/
def Times.UpTo (h : Times) (time : ℚ) (version : ℕ) : Prop :=
  ∀ (i : ℕ) (T : ℚ), h.committedAt[i]? = some T → T < time → i + 1 ≤ version

/-- What is known about the age of the rows of a load and of the registry. -/
structure Dated (latency : ℚ) (p : State × Times) : Prop where
  length : p.1.committed.length = p.2.committedAt.length + 1
  past : ∀ (i : ℕ) (T : ℚ), p.2.committedAt[i]? = some T → 0 ≤ T ∧ T ≤ p.1.now
  known : ∀ c, p.2.known c ≤ p.1.committed.length
  fetched : ∀ c version rows, p.1.loads c = .fetched version rows →
    p.2.UpTo (p.2.queriedAt c) version ∧ p.2.queriedAt c ≤ p.1.now ∧
      p.2.known c ≤ version + 1 ∧ p.2.seen ≤ version + 1
  installed : p.1.registry.lastLoaded = 0 ∨ ∃ version time, p.1.loaded = some version ∧
    p.2.UpTo time version ∧ time ≤ p.1.now ∧ p.1.registry.lastLoaded ≤ time + latency
  seen : p.2.seen ≤ p.1.committed.length
  shown : 0 < p.2.seen → ∃ version, p.1.loaded = some version ∧ p.2.seen ≤ version + 1

section Ages

variable {latency : ℚ} {s t : State} {h : Times} {e : Event}

/-- A table that is committed now is not older than anything that was read. -/
theorem Times.UpTo.commit {time now : ℚ} {version : ℕ} (hUpTo : h.UpTo time version)
    (hTime : time ≤ now) :
    Times.UpTo { h with committedAt := h.committedAt ++ [now] } time version := by
  intro i T hAt hBefore
  rcases Nat.lt_or_ge i h.committedAt.length with hOld | hNew
  · rw [List.getElem?_append_left hOld] at hAt
    exact hUpTo i T hAt hBefore
  · rw [List.getElem?_append_right hNew] at hAt
    obtain rfl := List.mem_singleton.mp (List.mem_of_getElem? hAt)
    exact absurd hBefore (not_lt.mpr hTime)

/-- A query reads the last table that is committed. -/
theorem Dated.upTo_last (hDated : Dated latency (s, h)) (time : ℚ) :
    h.UpTo time (s.committed.length - 1) := by
  intro i T hAt _
  have hIndex := (List.getElem?_eq_some_iff.mp hAt).1
  have hLength := hDated.length
  simp only at hLength
  omega

theorem lastLoaded_of_extends {r : VendorRegistry} (hExtends : Extends s.registry r)
    (hDated : Dated latency (s, h)) : Dated latency ({ s with registry := r }, h) where
  length := hDated.length
  past := hDated.past
  known := hDated.known
  fetched := hDated.fetched
  installed := by
    rw [hExtends.lastLoaded]
    exact hDated.installed
  seen := hDated.seen
  shown := hDated.shown

/-- A load that moves on without rows. -/
theorem Dated.moved (hDated : Dated latency (s, h)) {c : ℕ} {pc : Pc} (lock : Option ℕ)
    (hPc : ∀ version rows, pc ≠ .fetched version rows) :
    Dated latency ({ goto s c pc with lock := lock }, h) where
  length := hDated.length
  past := hDated.past
  known := hDated.known
  fetched := by
    intro c' version rows hRows
    by_cases hc : c' = c
    · subst hc
      exact absurd (by simpa [goto] using hRows) (hPc version rows)
    · exact hDated.fetched c' version rows (by simpa [goto, hc] using hRows)
  installed := hDated.installed
  seen := hDated.seen
  shown := hDated.shown

/-- A call remembers how many tables there are. No load is past its query when
it is called. -/
theorem Dated.called (hDated : Dated latency (s, h)) {c : ℕ} (hIdle : s.loads c = .idle) :
    Dated latency (s, { h with known := Function.update h.known c s.committed.length }) where
  length := hDated.length
  past := hDated.past
  known := by
    intro c'
    by_cases hc : c' = c
    · subst hc
      simp
    · simpa [hc] using hDated.known c'
  fetched := by
    intro c' version rows hRows
    have hc : c' ≠ c := by
      rintro rfl
      rw [hIdle] at hRows
      cases hRows
    simpa [hc, Times.UpTo] using hDated.fetched c' version rows hRows
  installed := hDated.installed
  seen := hDated.seen
  shown := hDated.shown

theorem Dated.executed (hDated : Dated latency (s, h)) {c : ℕ} {order : List ℕ} {pc : Pc}
    (hQuery : query s order = some pc) :
    Dated latency
      (goto s c pc, { h with queriedAt := Function.update h.queriedAt c s.now }) where
  length := hDated.length
  past := hDated.past
  known := hDated.known
  fetched := by
    obtain ⟨table, rows, -, -, rfl⟩ := query_cases hQuery
    intro c' version rows' hRows
    by_cases hc : c' = c
    · subst hc
      simp only [goto, Function.update_self] at hRows
      cases hRows
      have hKnown := hDated.known c'
      have hSeen := hDated.seen
      have hLength := hDated.length
      simp only at hKnown hSeen hLength
      refine ⟨hDated.upTo_last _, by simp [goto], ?_, ?_⟩
      · simp only
        omega
      · simp only
        omega
    · simp only [goto, Function.update_of_ne hc] at hRows ⊢
      exact hDated.fetched c' version rows' hRows
  installed := hDated.installed
  seen := hDated.seen
  shown := hDated.shown

/-- A load that returns holds the lock, so no other one is past its query. -/
theorem Dated.install (hDated : Dated latency (s, h)) (hInvariant : Invariant s) {c version : ℕ}
    {rows : List Vendor} (hPc : s.loads c = .fetched version rows)
    (hPrompt : s.now ≤ h.queriedAt c + latency) :
    Dated latency
      ({ goto s c .idle with
          registry := s.registry.install rows s.now
          lock := none
          loaded := some version }, { h with seen := max h.seen (h.known c) }) where
  length := hDated.length
  past := hDated.past
  known := hDated.known
  fetched := by
    intro c' version' rows' hRows
    by_cases hc : c' = c
    · subst hc
      simp [goto] at hRows
    · have hOther : s.loads c' = .fetched version' rows' := by simpa [goto, hc] using hRows
      have hLock := (hInvariant.fetched c version rows hPc).1
      rw [(hInvariant.fetched c' version' rows' hOther).1] at hLock
      exact absurd (Option.some.inj hLock) hc
  installed := by
    obtain ⟨hUpTo, hTime, -⟩ := hDated.fetched c version rows hPc
    exact Or.inr ⟨version, h.queriedAt c, rfl, hUpTo, hTime, hPrompt⟩
  seen := max_le hDated.seen (hDated.known c)
  shown _ := by
    obtain ⟨-, -, hKnown, hSeen⟩ := hDated.fetched c version rows hPc
    exact ⟨version, rfl, max_le hSeen hKnown⟩

theorem Dated.commit (hDated : Dated latency (s, h)) (hNow : 0 ≤ s.now) (table : Table) :
    Dated latency
      ({ s with committed := s.committed ++ [table] },
        { h with committedAt := h.committedAt ++ [s.now] }) where
  length := by
    have hLength := hDated.length
    simp only [List.length_append, List.length_singleton] at hLength ⊢
    omega
  past := by
    intro i T hAt
    rcases List.mem_append.mp (List.mem_of_getElem? hAt) with hOld | hNew
    · obtain ⟨j, hj⟩ := List.getElem?_of_mem hOld
      exact hDated.past j T hj
    · obtain rfl := List.mem_singleton.mp hNew
      exact ⟨hNow, le_rfl⟩
  known := by
    intro c
    have hKnown := hDated.known c
    simp only [List.length_append, List.length_singleton] at hKnown ⊢
    omega
  fetched := by
    intro c version rows hRows
    obtain ⟨hUpTo, hTime, hKnown⟩ := hDated.fetched c version rows hRows
    exact ⟨hUpTo.commit hTime, hTime, hKnown⟩
  installed := by
    rcases hDated.installed with hZero | ⟨version, time, hLoaded, hUpTo, hTime, hLast⟩
    · exact Or.inl hZero
    · exact Or.inr ⟨version, time, hLoaded, hUpTo.commit hTime, hTime, hLast⟩
  seen := by
    have hSeen := hDated.seen
    simp only [List.length_append, List.length_singleton] at hSeen ⊢
    omega
  shown := hDated.shown

theorem Dated.later (hDated : Dated latency (s, h)) {later : ℚ} (hLater : s.now ≤ later) :
    Dated latency ({ s with now := later }, h) where
  length := hDated.length
  past i T hAt := ⟨(hDated.past i T hAt).1, (hDated.past i T hAt).2.trans hLater⟩
  known := hDated.known
  fetched := by
    intro c version rows hRows
    obtain ⟨hUpTo, hTime, hKnown⟩ := hDated.fetched c version rows hRows
    exact ⟨hUpTo, hTime.trans hLater, hKnown⟩
  installed := by
    rcases hDated.installed with hZero | ⟨version, time, hLoaded, hUpTo, hTime, hLast⟩
    · exact Or.inl hZero
    · exact Or.inr ⟨version, time, hLoaded, hUpTo, hTime.trans hLater, hLast⟩
  seen := hDated.seen
  shown := hDated.shown

theorem Dated.step (hDated : Dated latency (s, h)) (hInvariant : Invariant s)
    (hPrompt : Prompt latency (s, h) e)
    (next : machine.step s e = some t) : Dated latency (t, recordTimes s e h) := by
  cases step_cases next with
  | ticked later hLater => exact hDated.later hLater
  | committed table => exact hDated.commit hPrompt.1 table
  | called c hIdle => exact (hDated.called hIdle).moved s.lock nofun
  | stale c hIdle _ => exact (hDated.called hIdle).moved s.lock nofun
  | fresh c hIdle _ => exact hDated.called hIdle
  | acquired c _ _ => exact hDated.moved (some c) nofun
  | executed c order pc _ hQuery => exact hDated.executed hQuery
  | gaveUp c _ => exact hDated.moved s.lock nofun
  | failed c _ _ => exact hDated.moved none nofun
  | installed c version rows hPc => exact hDated.install hInvariant hPc hPrompt.2
  | asked slug => exact lastLoaded_of_extends (extends_getAdapter slug) hDated
  | askedById vendorId => exact lastLoaded_of_extends (extends_getAdapterById vendorId) hDated
  | invalidated slug =>
      refine ⟨hDated.length, hDated.past, hDated.known, hDated.fetched, Or.inl ?_, hDated.seen,
        hDated.shown⟩
      cases slug <;> rfl

theorem invariant_of_dated {p : State × Times} (run : dated.Reaches (Prompt latency) p) :
    Invariant p.1 :=
  run.forget.invariant (fun _ hInit => invariant_of_init hInit)
    fun _ _ _ _ hInvariant _ next => hInvariant.step next

theorem dated_run {p : State × Times} (run : dated.Reaches (Prompt latency) p) :
    Dated latency p := by
  refine run.invariant (fun p hInit => ?_) fun p q e prior hDated hAllowed next => ?_
  · obtain ⟨s, h⟩ := p
    obtain ⟨⟨⟨interval, hRegistry⟩, -, hLoads, hLength, -⟩, rfl⟩ := hInit
    simp only at hRegistry hLoads hLength
    refine ⟨hLength, nofun, fun _ => Nat.zero_le _, fun c version rows hRows => ?_, Or.inl ?_,
      Nat.zero_le _, fun hSeen => absurd hSeen (lt_irrefl 0)⟩
    · simp [hLoads] at hRows
    · simp [hRegistry, VendorRegistry.empty]
  · obtain ⟨s, h⟩ := p
    obtain ⟨t, h'⟩ := q
    obtain ⟨hStep, rfl⟩ := System.withHistory_step next
    exact hDated.step (invariant_of_dated prior) hAllowed hStep

/-- The registry finds a vendor as the table has it that it shows. -/
theorem Shows.get_eq {r : VendorRegistry} {table : Table} (hShows : Shows r table)
    (slug : String) : r.get slug = table.config? slug := by
  cases hFind : table.config? slug with
  | none =>
      by_contra hGet
      obtain ⟨config, hConfig⟩ := Option.ne_none_iff_exists'.mp hGet
      obtain ⟨hActive, hSlug⟩ := (hShows.get slug config).mp hConfig
      exact List.find?_eq_none.mp hFind config hActive (by simpa using hSlug)
  | some config =>
      apply (hShows.get slug config).mpr
      exact ⟨List.mem_of_find?_eq_some hFind, by simpa using List.find?_some hFind⟩

/-- A request works with a table that is at most as old as the refresh interval
and the latency of a load together. -/
theorem Dated.loaded_of_returns (hDated : Dated latency (s, h)) (hLatency : 0 ≤ latency)
    (hInterval : 0 ≤ s.registry.refreshInterval) (hPrompt : Prompt latency (s, h) e)
    (hReturns : returns s e = true) (next : machine.step s e = some t) {i : ℕ} {T : ℚ}
    (hAt : h.committedAt[i]? = some T)
    (hOld : T + s.registry.refreshInterval + latency < s.now) :
    ∃ version, t.loaded = some version ∧ i + 1 ≤ version := by
  cases step_cases next with
  | stale c _ hStale => simp [returns, hStale] at hReturns
  | fresh c _ hFresh =>
      have hAge : s.now - s.registry.lastLoaded ≤ s.registry.refreshInterval := by
        by_contra hNot
        rw [isStale_iff.mpr (not_le.mp hNot)] at hFresh
        cases hFresh
      rcases hDated.installed with hZero | ⟨version, time, hLoaded, hUpTo, -, hLast⟩
      · -- nothing was committed before the clock started
        simp only at hZero
        have hBefore := (hDated.past i T hAt).1
        linarith
      · simp only at hLast
        exact ⟨version, hLoaded, hUpTo i T hAt (by linarith)⟩
  | installed c version rows hPc =>
      refine ⟨version, rfl, (hDated.fetched c version rows hPc).1 i T hAt ?_⟩
      have hAge := hPrompt.2
      simp only at hAge
      linarith
  | _ => simp [returns] at hReturns

/-- The registry has been loaded before, or the clock of the process has run for longer
than the refresh interval. -/
def Grown (s : State) : Prop := s.loaded ≠ none ∨ s.registry.refreshInterval < s.now

/-- A request of a process that is not young works with some table. -/
theorem Dated.loaded_of_grown (hDated : Dated latency (s, h)) (hGrown : Grown s)
    (hReturns : returns s e = true) (next : machine.step s e = some t) :
    ∃ version, t.loaded = some version := by
  cases step_cases next with
  | stale c _ hStale => simp [returns, hStale] at hReturns
  | fresh c _ hFresh =>
      rcases hGrown with hLoaded | hLong
      · exact Option.ne_none_iff_exists'.mp hLoaded
      · rcases hDated.installed with hZero | ⟨version, time, hLoaded, -⟩
        · have hStale : s.registry.isStale s.now = true := by
            simp only at hZero
            rw [isStale_iff, hZero, sub_zero]
            exact hLong
          rw [hStale] at hFresh
          cases hFresh
        · exact ⟨version, hLoaded⟩
  | installed c version rows hPc => exact ⟨version, rfl⟩
  | _ => simp [returns] at hReturns

/-- What was there when a load was called that has returned is in every table that a
request works with from then on. -/
theorem Dated.loaded_of_seen (hDated : Dated latency (t, h)) {first : ℕ} (hSeen : first < h.seen) :
    ∃ version, t.loaded = some version ∧ first ≤ version := by
  obtain ⟨version, hLoaded, hShown⟩ := hDated.shown (Nat.zero_lt_of_lt hSeen)
  exact ⟨version, hLoaded, Nat.lt_succ_iff.mp (hSeen.trans_le hShown)⟩

end Ages

/-- When a request goes on that has called the registry, the table of this index or a later
one is in force: it is the first one and the process is not young, it is older than the
refresh interval and the latency of a load together, or it was there when a load was
called that has returned by now. -/
inductive InForce (latency : ℚ) (s : State) (h : Times) (e : Event) : ℕ → Prop where
  | first (hGrown : Grown s) : InForce latency s h e 0
  | aged (i : ℕ) (T : ℚ) (hAt : h.committedAt[i]? = some T)
      (hOld : T + s.registry.refreshInterval + latency < s.now) : InForce latency s h e (i + 1)
  | reloaded (index : ℕ) (hSeen : index < (recordTimes s e h).seen) : InForce latency s h e index

/-- A request that goes on sees a vendor as it is in the database, if it has not been
changed since a table that is in force: never, for longer than the refresh interval and
the latency of a load, or since the call of a load that has returned. -/
theorem settled_vendor_seen {latency : ℚ} {s t : State} {h : Times} {e : Event}
    (run : dated.Reaches (Prompt latency) (s, h)) (hLatency : 0 ≤ latency)
    (hInterval : 0 ≤ s.registry.refreshInterval) (hPrompt : Prompt latency (s, h) e)
    (hReturns : returns s e = true) (next : machine.step s e = some t) {first : ℕ}
    (hInForce : InForce latency s h e first) {slug : String} {config : Option Vendor}
    (hSettled : ∀ version table, first ≤ version → t.committed[version]? = some table →
      table.config? slug = config) : t.registry.get slug = config := by
  have hDated := dated_run run
  have hBefore := invariant_of_dated run
  obtain ⟨version, hLoaded, hFirst⟩ : ∃ version, t.loaded = some version ∧ first ≤ version := by
    cases hInForce with
    | first hGrown =>
        obtain ⟨version, hLoaded⟩ := hDated.loaded_of_grown hGrown hReturns next
        exact ⟨version, hLoaded, Nat.zero_le version⟩
    | aged i T hAt hOld =>
        exact hDated.loaded_of_returns hLatency hInterval hPrompt hReturns next hAt hOld
    | reloaded _ hSeen => exact (hDated.step hBefore hPrompt next).loaded_of_seen hSeen
  obtain ⟨table, hTable, hShows⟩ := (hBefore.step next).snapshot version hLoaded
  rw [hShows.get_eq]
  exact hSettled version table hFirst hTable

section Sample

/-- The vendor is switched off after a load. -/
def switchOff : List Event :=
  [.reloadIfStale 0, .acquire 0, .execute 0 [0], .install 0, .commit ⟨[], List.nodup_nil⟩]

/-- A minute and two seconds later another request loads the table. -/
def loadsLater : List Event :=
  switchOff ++ [.tick 162, .reloadIfStale 1, .acquire 1, .execute 1 []]

/-- An explicit load returns at once. -/
def loadsNow : List Event :=
  switchOff ++ [.load 1, .acquire 1, .execute 1 [], .install 1]

/-- The tables, the time and the history at the end of these runs. -/
def afterSwitch (now queriedAt : ℚ) (seen : ℕ) (p : State × Times) : Bool :=
  decide (p.1.committed.map (fun table => table.rows.length) = [1, 0]) &&
    decide (p.2.committedAt = [100]) && decide (p.1.now = now) &&
    decide (p.1.registry.refreshInterval = 60) && decide (p.2.queriedAt 1 = queriedAt) &&
    decide (p.2.seen = seen)

/-- The second table has no vendor. -/
theorem settled_of_lengths {s : State}
    (hTables : s.committed.map (fun table => table.rows.length) = [1, 0]) (version : ℕ)
    (table : Table) (hFirst : 1 ≤ version) (hTable : s.committed[version]? = some table) :
    table.config? "v" = none := by
  have hRows : (s.committed.map fun table => table.rows.length)[version]? =
      some table.rows.length := by
    rw [List.getElem?_map, hTable, Option.map_some]
  rw [hTables] at hRows
  obtain ⟨version, rfl⟩ := Nat.exists_eq_succ_of_ne_zero (Nat.one_le_iff_ne_zero.mp hFirst)
  have hLength : table.rows.length = 0 := by
    cases version with
    | zero => simpa using hRows.symm
    | succ version => simp at hRows
  rw [Table.config?, Table.active, List.length_eq_zero_iff.mp hLength]
  rfl

theorem settled_vendor_seen_off :
    (∃ p t, dated.Reaches (Prompt 1) p ∧ machine.step p.1 (.install 1) = some t ∧
      (p.1.registry.get "v").isSome = true ∧ t.registry.get "v" = none) ∧
    ∃ p t, dated.Reaches (Prompt 1) p ∧ machine.step p.1 (.reloadIfStale 2) = some t ∧
      t.registry.get "v" = none := by
  have hInit : dated.init (sampleStart, .start) := ⟨init_sampleStart, rfl⟩
  constructor
  · obtain ⟨⟨s, h⟩, run, hCheck⟩ := (System.Reaches.init hInit).exec_any
      (by decide +kernel : (dated.exec (Prompt 1) (sampleStart, .start) loadsLater).any
        (fun p => afterSwitch 162 162 1 p && (p.1.registry.get "v").isSome &&
          (machine.step p.1 (.install 1)).isSome) = true)
    simp only [afterSwitch, Bool.and_eq_true, decide_eq_true_eq] at hCheck
    obtain ⟨⟨⟨⟨⟨⟨⟨hTables, hTimes⟩, hNow⟩, hInterval⟩, hQueried⟩, hSeen⟩, hFound⟩, hStep⟩ := hCheck
    obtain ⟨t, next⟩ := Option.isSome_iff_exists.mp hStep
    have hSame : t.committed = s.committed := by
      cases step_cases next
      rfl
    have hAged : InForce 1 s h (.install 1) 1 := .aged 0 100 (by rw [hTimes]; rfl) (by
      rw [hInterval, hNow]
      norm_num)
    refine ⟨(s, h), t, run, next, hFound, settled_vendor_seen run (by norm_num) ?_ ⟨?_, ?_⟩ rfl
      next hAged (hSame ▸ settled_of_lengths hTables)⟩
    · norm_num [hInterval]
    · norm_num [hNow]
    · norm_num [hNow, hQueried]
  · obtain ⟨⟨s, h⟩, run, hCheck⟩ := (System.Reaches.init hInit).exec_any
      (by decide +kernel : (dated.exec (Prompt 1) (sampleStart, .start) loadsNow).any
        (fun p => afterSwitch 100 100 2 p && returns p.1 (.reloadIfStale 2) &&
          (machine.step p.1 (.reloadIfStale 2)).isSome) = true)
    simp only [afterSwitch, Bool.and_eq_true, decide_eq_true_eq] at hCheck
    obtain ⟨⟨⟨⟨⟨⟨⟨hTables, hTimes⟩, hNow⟩, hInterval⟩, hQueried⟩, hSeen⟩, hReturns⟩, hStep⟩ :=
      hCheck
    obtain ⟨t, next⟩ := Option.isSome_iff_exists.mp hStep
    have hSame : t.committed = s.committed := by
      cases step_cases next <;> rfl
    have hReloaded : InForce 1 s h (.reloadIfStale 2) 1 := .reloaded 1 (by
      simp only [recordTimes, hSeen]
      norm_num)
    refine ⟨(s, h), t, run, next, settled_vendor_seen run (by norm_num) ?_ ⟨?_, trivial⟩ hReturns
      next hReloaded (hSame ▸ settled_of_lengths hTables)⟩
    · norm_num [hInterval]
    · norm_num [hNow]

end Sample

end Gateway.Vendors.Coherence
