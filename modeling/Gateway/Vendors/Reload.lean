import Gateway.Vendors.Coherence
import Mathlib.Tactic.Linarith

/-! When the registry is reloaded. Staleness is measured from the time of the
last load, which is 0 for a registry that was never loaded or was invalidated,
and it is tested before the lock of `load` only. -/
namespace Gateway.Vendors.Coherence

open Transition

section Step

variable {r : VendorRegistry} {s t : State} {e : Event}

theorem isStale_iff {now : ℚ} : r.isStale now = true ↔ r.refreshInterval < now - r.lastLoaded :=
  decide_eq_true_iff

theorem isStale_mono {now later : ℚ} (h : r.isStale now = true) (hLater : now ≤ later) :
    r.isStale later = true := by
  rw [isStale_iff] at h ⊢
  linarith

/-- A lookup of an adapter keeps the adapters there are, and the times. -/
structure Extends (r r' : VendorRegistry) : Prop where
  interval : r'.refreshInterval = r.refreshInterval
  lastLoaded : r'.lastLoaded = r.lastLoaded
  adapters : ∀ slug ∈ r.adapters.keys, slug ∈ r'.adapters.keys

theorem Extends.refl (r : VendorRegistry) : Extends r r := ⟨rfl, rfl, fun _ h => h⟩

theorem Extends.isStale {r' : VendorRegistry} (h : Extends r r') (now : ℚ) :
    r'.isStale now = r.isStale now := by
  rw [VendorRegistry.isStale, VendorRegistry.isStale, h.interval, h.lastLoaded]

theorem extends_getAdapter (slug : String) : Extends r (r.getAdapter slug).1 := by
  rcases r.getAdapter_cases slug with ⟨hSame, -⟩ | ⟨config, -, ⟨hSame, -⟩ | ⟨a, -, hSame⟩ |
    ⟨a, -, -, hNew⟩⟩
  · rw [hSame]
    exact .refl r
  · rw [hSame]
    exact .refl r
  · rw [hSame]
    exact .refl r
  · rw [hNew]
    exact ⟨rfl, rfl, fun slug hSlug => Dict.mem_keys_insert.mpr (Or.inr hSlug)⟩

theorem extends_getAdapterById (vendorId : String) :
    Extends r (r.getAdapterById vendorId).1 := by
  unfold VendorRegistry.getAdapterById
  split
  · exact .refl r
  · exact extends_getAdapter _

/-- What a step does to the registry. -/
theorem registry_step (next : machine.step s e = some t) :
    Extends s.registry t.registry ∨
      (∃ c version rows, e = .install c ∧ s.loads c = .fetched version rows ∧
        t.registry = s.registry.install rows s.now) ∨
      ∃ slug, e = .invalidate slug ∧ t.registry = s.registry.invalidate slug := by
  cases step_cases next with
  | installed c version rows hPc => exact Or.inr (Or.inl ⟨c, version, rows, rfl, hPc, rfl⟩)
  | invalidated slug => exact Or.inr (Or.inr ⟨slug, rfl, rfl⟩)
  | asked slug => exact Or.inl (extends_getAdapter slug)
  | askedById vendorId => exact Or.inl (extends_getAdapterById vendorId)
  | _ => exact Or.inl (.refl _)

theorem interval_step (next : machine.step s e = some t) :
    t.registry.refreshInterval = s.registry.refreshInterval := by
  rcases registry_step next with hExtends | ⟨c, version, rows, -, -, hInstall⟩ | ⟨slug, -, hInvalid⟩
  · exact hExtends.interval
  · rw [hInstall]
    rfl
  · rw [hInvalid]
    cases slug <;> rfl

theorem now_step (next : machine.step s e = some t) : s.now ≤ t.now := by
  cases step_cases next with
  | ticked later hLater => exact hLater
  | _ => exact le_rfl

end Step

section Pending

/-- What happened since the registry was constructed or last invalidated: whether
`reload_if_stale` has not been called yet, and when a load installed its rows last. -/
structure Since where
  first : Bool
  installed : Option ℚ

def since : State → Event → Since → Since
  | s, .install _, history => { history with installed := some s.now }
  | _, .invalidate _, _ => ⟨true, none⟩
  | _, .reloadIfStale _, history => { history with first := false }
  | _, .tick _, history | _, .commit _, history | _, .load _, history | _, .acquire _, history
  | _, .execute _ _, history | _, .fail _, history | _, .getAdapter _, history
  | _, .getAdapterById _, history => history

def pendingMachine : System (State × Since) Event := machine.withHistory ⟨true, none⟩ since

/-- The interval has passed since the last installation, if there was one since
then; without one it is measured from 0 on the clock. -/
def Due (p : State × Since) : Prop :=
  p.1.registry.refreshInterval < p.1.now - p.2.installed.getD 0

/-- A step by which a call of `reload_if_stale` returns, so that its request goes
on to look for its vendor: it did not load, or its load has installed. -/
def Returns (t : State) : Event → Prop
  | .reloadIfStale c => t.loads c = .idle
  | .install _ => True
  | _ => False

/-- A request does not find an active vendor, in a registry that was never filled. -/
def Misses (e : Event) (t : State) : Prop :=
  Returns t e ∧ t.loaded = none ∧ ∃ table config, t.committed.getLast? = some table ∧
    config ∈ table.active ∧ t.registry.get config.slug = none

variable {p : State × Since}

/-- `_last_loaded` is the time of the last installation, or 0. -/
structure Pending (p : State × Since) : Prop where
  lastLoaded : p.1.registry.lastLoaded = p.2.installed.getD 0
  filled : p.1.loaded = none → p.2.installed = none
  empty : p.1.loaded = none → p.1.registry.vendors = Dict.empty

theorem reached_pending (run : pendingMachine.Reaches System.anyRun p) : Pending p := by
  unfold pendingMachine at run
  refine run.invariant_history ?_ ?_
  · rintro s ⟨⟨interval, hRegistry⟩, -⟩
    refine ⟨by rw [hRegistry]; rfl, fun _ => rfl, fun _ => by rw [hRegistry]; rfl⟩
  · intro s history t e ih _ next
    cases step_cases next with
    | installed c version rows hPc =>
        exact ⟨rfl, fun hNone => (by cases hNone), fun hNone => by cases hNone⟩
    | invalidated slug =>
        refine ⟨by cases slug <;> rfl, fun _ => rfl, fun hNone => ?_⟩
        exact (VendorRegistry.invalidate_vendors slug).trans (ih.empty hNone)
    | asked slug =>
        exact ⟨(extends_getAdapter slug).lastLoaded.trans ih.lastLoaded, ih.filled,
          fun hNone => (VendorRegistry.getAdapter_vendors slug).trans (ih.empty hNone)⟩
    | askedById vendorId =>
        exact ⟨(extends_getAdapterById vendorId).lastLoaded.trans ih.lastLoaded, ih.filled,
          fun hNone => (VendorRegistry.getAdapterById_vendors vendorId).trans (ih.empty hNone)⟩
    | _ => exact ⟨ih.lastLoaded, ih.filled, ih.empty⟩

/-- What a call of `reload_if_stale` does at first. -/
theorem reloadIfStale_step {s t : State} {c : ℕ}
    (next : machine.step s (.reloadIfStale c) = some t) :
    s.loads c = .idle ∧
      (s.registry.isStale s.now = true ∧ t = goto s c .waiting ∨
        s.registry.isStale s.now = false ∧ t = s) := by
  cases step_cases next with
  | stale _ hIdle hStale => exact ⟨hIdle, Or.inl ⟨hStale, rfl⟩⟩
  | fresh _ hIdle hFresh => exact ⟨hIdle, Or.inr ⟨hFresh, rfl⟩⟩

theorem Pending.due_iff (h : Pending p) : Due p ↔ p.1.registry.isStale p.1.now = true := by
  rw [isStale_iff, h.lastLoaded, Due]

/-- A call of `reload_if_stale` goes on to `load` exactly when it is due. -/
theorem Pending.loads_iff (h : Pending p) {c : ℕ} {t : State}
    (next : machine.step p.1 (.reloadIfStale c) = some t) : t.loads c = .waiting ↔ Due p := by
  rw [h.due_iff]
  obtain ⟨hIdle, ⟨hStale, rfl⟩ | ⟨hFresh, rfl⟩⟩ := reloadIfStale_step next
  · exact iff_of_true (by simp [goto]) hStale
  · refine iff_of_false ?_ (by simp [hFresh])
    rw [hIdle]
    intro hWaiting
    cases hWaiting

/-- Only a call of `reload_if_stale` that does not load misses a vendor. -/
theorem Pending.misses_iff (h : Pending p) {e : Event} {t : State}
    (next : machine.step p.1 e = some t) :
    Misses e t ↔ (∃ c, e = .reloadIfStale c) ∧ p.1.loaded = none ∧
      p.1.now ≤ p.1.registry.refreshInterval ∧
      ∃ table config, p.1.committed.getLast? = some table ∧ config ∈ table.active := by
  constructor
  · rintro ⟨hReturns, hNone, table, config, hTable, hActive, -⟩
    cases step_cases next with
    | stale c hIdle hStale => exact absurd hReturns (by simp [Returns, goto])
    | fresh c hIdle hFresh =>
        refine ⟨⟨c, rfl⟩, hNone, ?_, table, config, hTable, hActive⟩
        have hNotDue : ¬Due p := by
          rw [h.due_iff, hFresh]
          exact Bool.false_ne_true
        rw [Due, h.filled hNone] at hNotDue
        simpa using hNotDue
    | installed c version rows hPc => cases hNone
    | _ => exact hReturns.elim
  · rintro ⟨⟨c, rfl⟩, hNone, hEarly, table, config, hTable, hActive⟩
    have hNotDue : ¬Due p := by
      rw [Due, h.filled hNone]
      simpa using hEarly
    obtain ⟨hIdle, ⟨hStale, rfl⟩ | ⟨-, rfl⟩⟩ := reloadIfStale_step next
    · exact absurd (h.due_iff.mpr hStale) hNotDue
    · refine ⟨hIdle, hNone, table, config, hTable, hActive, ?_⟩
      rw [VendorRegistry.get, h.empty hNone]
      rfl

/-- The clock of a run never goes back, and its registry keeps its interval. -/
theorem reached_late {start : State} {history : Since}
    (run : (pendingMachine.startingAt (start, history)).Reaches System.anyRun p) :
    start.now ≤ p.1.now ∧ p.1.registry.refreshInterval = start.registry.refreshInterval := by
  apply run.invariant
  · rintro q rfl
    exact ⟨le_rfl, rfl⟩
  · intro q q' e _ ih _ next
    have hNext : pendingMachine.step q e = some q' := next
    have hStep := (System.withHistory_step hNext).1
    exact ⟨ih.1.trans (now_step hStep), (interval_step hStep).trans ih.2⟩

/-- The first `reload_if_stale` since the registry was constructed or invalidated
loads exactly if the interval has passed since the last installation since then, and
without one if the clock itself has passed it. A request misses an active vendor in
a registry that was never filled exactly at a call before that, so never in a run
that starts with a later clock. -/
theorem pending_registry_reloaded (run : pendingMachine.Reaches System.anyRun p) :
    (p.2.first = true → ∀ c t, machine.step p.1 (.reloadIfStale c) = some t →
      (t.loads c = .waiting ↔ Due p)) ∧
    (∀ e t, machine.step p.1 e = some t →
      (Misses e t ↔ (∃ c, e = .reloadIfStale c) ∧ p.1.loaded = none ∧
        p.1.now ≤ p.1.registry.refreshInterval ∧
        ∃ table config, p.1.committed.getLast? = some table ∧ config ∈ table.active)) ∧
    ∀ start history, (pendingMachine.startingAt (start, history)).Reaches System.anyRun p →
      start.registry.refreshInterval < start.now →
        (p.2.installed = none → Due p) ∧ ∀ e t, machine.step p.1 e = some t → ¬Misses e t := by
  have hPending := reached_pending run
  refine ⟨fun _ c t next => hPending.loads_iff next, fun e t next => hPending.misses_iff next, ?_⟩
  intro start history rest hLate
  obtain ⟨hNow, hInterval⟩ := reached_late rest
  have hPast : p.1.registry.refreshInterval < p.1.now := by
    rw [hInterval]
    exact hLate.trans_le hNow
  constructor
  · intro hNone
    rw [Due, hNone]
    simpa using hPast
  · intro e t next hMisses
    exact absurd ((hPending.misses_iff next).mp hMisses).2.2.1 (not_le.mpr hPast)

def Pc.isIdle : Pc → Bool
  | .idle => true
  | .waiting | .querying | .fetched _ _ => false

theorem Pc.isIdle_iff {pc : Pc} : pc.isIdle = true ↔ pc = .idle := by
  cases pc <;> simp [Pc.isIdle]

/-- A load that has its rows when the registry is invalidated, and installs them. -/
def overtaken : List Event :=
  [.load 0, .acquire 0, .execute 0 [0], .invalidate none, .install 0]

/-- After `overtaken` a call is due at 161 s only, and loads then. -/
theorem pending_registry_reloaded_overtaken : ∃ p t, pendingMachine.Reaches System.anyRun p ∧
    p.2.first = true ∧ p.2.installed = some 100 ∧ p.1.now = 161 ∧
    machine.step p.1 (.reloadIfStale 1) = some t ∧ t.loads 1 = .waiting := by
  have start : pendingMachine.Reaches System.anyRun (sampleStart, ⟨true, none⟩) :=
    .init ⟨init_sampleStart, rfl⟩
  have hExec : (pendingMachine.exec System.anyRun (sampleStart, ⟨true, none⟩)
      (overtaken ++ [.tick 161])).any (fun p => p.2.first && decide (p.2.installed = some 100) &&
        decide (p.1.now = 161 ∧ p.1.registry.refreshInterval = 60) &&
        (machine.step p.1 (.reloadIfStale 1)).isSome) = true := by decide +kernel
  obtain ⟨p, run, hCheck⟩ := start.exec_any hExec
  simp only [Bool.and_eq_true, decide_eq_true_iff, Option.isSome_iff_exists] at hCheck
  obtain ⟨⟨⟨hFirst, hInstalled⟩, hNow, hInterval⟩, t, next⟩ := hCheck
  refine ⟨p, t, run, hFirst, hInstalled, hNow, next, ?_⟩
  refine ((pending_registry_reloaded run).1 hFirst 1 t next).mpr ?_
  rw [Due, hInstalled, hNow, hInterval]
  norm_num

/-- The process of the samples, 30 s after its clock. -/
def earlyStart : State := { sampleStart with now := 30 }

/-- A process that starts 30 s after its clock: the first call does not load, and
its request misses the one active vendor. And a load in flight when the registry is
invalidated: after its installation the first call does not load, at 100 s. -/
theorem pending_registry_not_reloaded :
    (pendingMachine.Reaches System.anyRun (earlyStart, ⟨true, none⟩) ∧
      machine.step earlyStart (.reloadIfStale 0) = some earlyStart ∧
      earlyStart.loads 0 = .idle ∧ Misses (.reloadIfStale 0) earlyStart) ∧
    ∃ p t, pendingMachine.Reaches System.anyRun p ∧ p.2.first = true ∧ p.1.now = 100 ∧
      machine.step p.1 (.reloadIfStale 1) = some t ∧ t.loads 1 = .idle := by
  constructor
  · have start : pendingMachine.Reaches System.anyRun (earlyStart, ⟨true, none⟩) :=
      .init ⟨⟨⟨60, rfl⟩, rfl, rfl, rfl, rfl⟩, rfl⟩
    have hFresh : earlyStart.registry.isStale earlyStart.now = false := by decide +kernel
    have hSkip : machine.step earlyStart (.reloadIfStale 0) = some earlyStart := by
      simp only [machine, step]
      rw [hFresh]
      rfl
    have hActive : sampleVendor "OLD" ∈ (sampleTable "OLD").active := List.mem_singleton_self _
    exact ⟨start, hSkip, rfl, rfl, rfl, sampleTable "OLD", sampleVendor "OLD", rfl, hActive, rfl⟩
  · have start : pendingMachine.Reaches System.anyRun (sampleStart, ⟨true, none⟩) :=
      .init ⟨init_sampleStart, rfl⟩
    have hExec : (pendingMachine.exec System.anyRun (sampleStart, ⟨true, none⟩) overtaken).any
        (fun p => p.2.first && decide (p.1.now = 100) &&
          (machine.step p.1 (.reloadIfStale 1)).any fun t => (t.loads 1).isIdle) = true := by
      decide +kernel
    obtain ⟨p, run, hCheck⟩ := start.exec_any hExec
    simp only [Bool.and_eq_true, decide_eq_true_iff] at hCheck
    obtain ⟨⟨hFirst, hNow⟩, hStep⟩ := hCheck
    obtain ⟨t, next, hIdle⟩ := (Option.any_eq_true _ _).mp hStep
    refine ⟨p, t, run, hFirst, hNow, next, ?_⟩
    exact Pc.isIdle_iff.mp hIdle

end Pending

section Flights

/-- The time of the last installation, if there was one. -/
def installedAt : State → Event → Option ℚ → Option ℚ
  | s, .install _, _ => some s.now
  | _, _, last => last

def flightMachine : System (State × Option ℚ) Event := machine.withHistory none installedAt

/-- Requests call `reload_if_stale` only; there is no reload by an administrator
and no invalidation. -/
def Proxied : Event → Prop
  | .load _ | .invalidate _ => False
  | _ => True

/-- The interval has passed since the last installation. -/
def Elapsed (s : State) (last : Option ℚ) : Prop :=
  ∀ r, last = some r → r + s.registry.refreshInterval < s.now

/-- Past the lock of `load`. -/
def Pc.inFlight : Pc → Prop
  | .querying | .fetched _ _ => True
  | _ => False

/-- One caller at a time queries, none before the interval has passed since the
last installation, and adapters are discarded no sooner. Who found the registry
stale goes on with a fresh one, so that one of the callers does query. -/
structure SingleFlight (s t : State) (last : Option ℚ) (e : Event) : Prop where
  alone : ∀ c c', (s.loads c).inFlight → (s.loads c').inFlight → c = c'
  query : ∀ c order, e = .execute c order → Elapsed s last
  kept : ∀ slug ∈ s.registry.adapters.keys, slug ∉ t.registry.adapters.keys → Elapsed s last
  fresh : ∀ c, s.loads c ≠ .idle → t.loads c = .idle → e = .fail c ∨
    (0 ≤ s.registry.refreshInterval → t.registry.isStale t.now = false)

/-- A caller that finds the registry stale finds no other caller in its load or
before it. -/
def Unaccompanied (s : State) : Event → Prop
  | .reloadIfStale _ => s.registry.isStale s.now = true → ∀ c, s.loads c = .idle
  | _ => True

/-- A call of `reload_if_stale`. -/
def Event.refreshes : Event → Bool
  | .reloadIfStale _ => true
  | .tick _ | .commit _ | .load _ | .acquire _ | .execute _ _ | .fail _ | .install _
  | .getAdapter _ | .getAdapterById _ | .invalidate _ => false

def Careful (p : State × Option ℚ) (e : Event) : Prop := Proxied e ∧ Unaccompanied p.1 e

/-- Of careful callers at most one is at a load, and the registry is stale as
long as it is. -/
structure OneLoad (p : State × Option ℚ) : Prop where
  one : ∀ c c', p.1.loads c ≠ .idle → p.1.loads c' ≠ .idle → c = c'
  stale : ∀ c, p.1.loads c ≠ .idle → p.1.registry.isStale p.1.now = true
  last : ∀ r, p.2 = some r → p.1.registry.lastLoaded = r

variable {p : State × Option ℚ} {s t : State} {e : Event}

theorem goto_loads_ne {c c' : ℕ} {pc : Pc} (h : c' ≠ c) : (goto s c pc).loads c' = s.loads c' := by
  simp [goto, h]

/-- A load that goes on, or ends without an installation. -/
theorem OneLoad.moved (h : OneLoad p) {c : ℕ} (hBusy : p.1.loads c ≠ .idle) (pc : Pc)
    (lock : Option ℕ) : OneLoad ({ goto p.1 c pc with lock := lock }, p.2) := by
  have hOther : ∀ c', (goto p.1 c pc).loads c' ≠ .idle → p.1.loads c' ≠ .idle := by
    intro c' hc'
    by_cases hSame : c' = c
    · rw [hSame]
      exact hBusy
    · rwa [goto_loads_ne hSame] at hc'
  constructor
  · intro a b ha hb
    exact h.one a b (hOther a ha) (hOther b hb)
  · intro c' hc'
    exact h.stale c' (hOther c' hc')
  · exact h.last

/-- The only load installs. -/
theorem OneLoad.install (h : OneLoad p) {c version : ℕ} {rows : List Vendor}
    (hPc : p.1.loads c = .fetched version rows) :
    OneLoad
      ({ goto p.1 c .idle with
          registry := p.1.registry.install rows p.1.now
          lock := none
          loaded := some version }, some p.1.now) := by
  have hBusy : p.1.loads c ≠ .idle := by
    rw [hPc]
    intro hIdle
    cases hIdle
  have hIdle : ∀ c', (goto p.1 c .idle).loads c' = .idle := by
    intro c'
    by_cases hSame : c' = c
    · simp [goto, hSame]
    · rw [goto_loads_ne hSame]
      by_contra hOther
      exact hSame (h.one c' c hOther hBusy)
  constructor
  · intro a b ha
    exact absurd (hIdle a) ha
  · intro a ha
    exact absurd (hIdle a) ha
  · intro r hr
    cases hr
    rfl

/-- A caller that starts a load is the only one. -/
theorem OneLoad.start (h : OneLoad p) {c : ℕ} (hStale : p.1.registry.isStale p.1.now = true)
    (hIdle : ∀ c, p.1.loads c = .idle) : OneLoad (goto p.1 c .waiting, p.2) := by
  have hOnly : ∀ a, (goto p.1 c .waiting).loads a ≠ .idle → a = c := by
    intro a ha
    by_contra hOther
    rw [goto_loads_ne hOther] at ha
    exact ha (hIdle a)
  constructor
  · intro a b ha hb
    rw [hOnly a ha, hOnly b hb]
  · intro _ _
    exact hStale
  · exact h.last

theorem OneLoad.registry (h : OneLoad p) {r : VendorRegistry}
    (hExtends : Extends p.1.registry r) : OneLoad ({ p.1 with registry := r }, p.2) := by
  constructor
  · exact h.one
  · intro c hBusy
    exact (hExtends.isStale _).trans (h.stale c hBusy)
  · intro r' hLast
    exact hExtends.lastLoaded.trans (h.last r' hLast)

theorem OneLoad.step {q : State × Option ℚ} (h : OneLoad p) (hCareful : Careful p e)
    (next : flightMachine.step p e = some q) : OneLoad q := by
  obtain ⟨hStep, hLast⟩ := System.withHistory_step next
  obtain ⟨t, last⟩ := q
  dsimp only at hStep hLast
  subst hLast
  cases step_cases hStep with
  | ticked later hLater =>
      exact ⟨h.one, fun c hBusy => isStale_mono (h.stale c hBusy) hLater, h.last⟩
  | committed table => exact ⟨h.one, h.stale, h.last⟩
  | called c hIdle => exact hCareful.1.elim
  | stale c hIdle hStale => exact h.start hStale (hCareful.2 hStale)
  | fresh c hIdle hFresh => exact h
  | acquired c hWaiting hFree => exact h.moved (by simp [hWaiting]) .querying (some c)
  | executed c order pc hQuerying hQuery => exact h.moved (by simp [hQuerying]) pc p.1.lock
  | gaveUp c hWaiting => exact h.moved (by simp [hWaiting]) .idle p.1.lock
  | failed c hIdle hWaiting => exact h.moved hIdle .idle none
  | installed c version rows hPc => exact h.install hPc
  | asked slug => exact h.registry (extends_getAdapter slug)
  | askedById vendorId => exact h.registry (extends_getAdapterById vendorId)
  | invalidated slug => exact hCareful.1.elim

theorem inFlight_ne_idle {pc : Pc} (h : pc.inFlight) : pc ≠ .idle := by
  rintro rfl
  exact h

theorem OneLoad.elapsed (h : OneLoad p) {c : ℕ} (hBusy : p.1.loads c ≠ .idle) :
    Elapsed p.1 p.2 := by
  intro r hLast
  have hStale := isStale_iff.mp (h.stale c hBusy)
  rw [h.last r hLast] at hStale
  linarith

theorem goto_idle {c c' : ℕ} {pc : Pc} (hBusy : s.loads c ≠ .idle)
    (h : (goto s c' pc).loads c = .idle) : c = c' ∧ pc = .idle := by
  by_cases hSame : c = c'
  · subst hSame
    exact ⟨rfl, by simpa [goto] using h⟩
  · rw [goto_loads_ne hSame] at h
    exact absurd h hBusy

/-- A load ends by failing or by its installation. -/
theorem idle_step {c : ℕ} (next : machine.step s e = some t) (hBusy : s.loads c ≠ .idle)
    (hIdle : t.loads c = .idle) : e = .fail c ∨ e = .install c := by
  cases step_cases next with
  | called c' | stale c' | acquired c' => cases (goto_idle hBusy hIdle).2
  | executed c' order pc hQuerying hQuery =>
      obtain ⟨-, rows, -, -, rfl⟩ := query_cases hQuery
      cases (goto_idle hBusy hIdle).2
  | gaveUp c' | failed c' => exact Or.inl ((goto_idle hBusy hIdle).1 ▸ rfl)
  | installed c' => exact Or.inr ((goto_idle hBusy hIdle).1 ▸ rfl)
  | ticked | committed | fresh | asked | askedById | invalidated => exact absurd hIdle hBusy

theorem install_fresh {c : ℕ} (next : machine.step s (.install c) = some t)
    (hInterval : 0 ≤ s.registry.refreshInterval) : t.registry.isStale t.now = false := by
  cases step_cases next
  rw [← Bool.not_eq_true, isStale_iff]
  simpa [VendorRegistry.install, goto] using hInterval

theorem OneLoad.singleFlight (h : OneLoad p) (hProxied : Proxied e)
    (next : machine.step p.1 e = some t) : SingleFlight p.1 t p.2 e := by
  constructor
  · intro c c' hc hc'
    exact h.one c c' (inFlight_ne_idle hc) (inFlight_ne_idle hc')
  · rintro c order rfl
    cases step_cases next with
    | executed _ _ _ hQuerying => exact h.elapsed (c := c) (by simp [hQuerying])
  · intro slug hBefore hAfter
    rcases registry_step next with hExtends | ⟨c, version, rows, -, hPc, -⟩ | ⟨slug', rfl, -⟩
    · exact absurd (hExtends.adapters slug hBefore) hAfter
    · exact h.elapsed (c := c) (by simp [hPc])
    · exact hProxied.elim
  · intro c hBusy hIdle
    rcases idle_step next hBusy hIdle with rfl | rfl
    · exact Or.inl rfl
    · exact Or.inr (install_fresh next)

theorem oneLoad_of_init (h : flightMachine.init p) : OneLoad p := by
  obtain ⟨⟨-, -, hLoads, -, -⟩, hNone⟩ := h
  constructor
  · intro c _ hBusy
    exact absurd (by rw [hLoads]) hBusy
  · intro c hBusy
    exact absurd (by rw [hLoads]) hBusy
  · intro r hLast
    rw [hNone] at hLast
    cases hLast

theorem reached_oneLoad (run : flightMachine.Reaches Careful p) : OneLoad p := by
  apply run.invariant
  · intro q hInit
    exact oneLoad_of_init hInit
  · intro q q' e _ ih hCareful next
    exact ih.step hCareful next

/-- Who holds the lock is past it, and there is a table to query. -/
structure Held (s : State) : Prop where
  holder : ∀ c, s.lock = some c → (s.loads c).inFlight
  table : s.committed ≠ []

theorem Held.moved (h : Held s) {c : ℕ} {pc : Pc} (hPc : (s.loads c).inFlight → pc.inFlight) :
    Held (goto s c pc) where
  holder := by
    intro c' hLock
    by_cases hSame : c' = c
    · subst hSame
      simpa [goto] using hPc (h.holder c' hLock)
    · rw [goto_loads_ne hSame]
      exact h.holder c' hLock
  table := h.table

theorem Held.step (h : Held s) (next : machine.step s e = some t) : Held t := by
  cases step_cases next with
  | called c hIdle | stale c hIdle => exact h.moved (by simp [hIdle, Pc.inFlight])
  | fresh c hIdle hFresh => exact h
  | committed table => exact ⟨h.holder, by simp⟩
  | acquired c hWaiting hFree =>
      refine ⟨?_, h.table⟩
      intro c' hLock
      cases hLock
      simp [goto, Pc.inFlight]
  | executed c order pc hQuerying hQuery =>
      obtain ⟨-, rows, -, -, rfl⟩ := query_cases hQuery
      exact h.moved fun _ => trivial
  | gaveUp c hWaiting => exact h.moved (by simp [hWaiting, Pc.inFlight])
  | failed c | installed c => exact ⟨(fun c' hLock => by cases hLock), h.table⟩
  | ticked | asked | askedById | invalidated => exact ⟨h.holder, h.table⟩

/-- Some run that goes on from here, by requests only, has a step that is not
single-flight. -/
def Violated (p : State × Option ℚ) : Prop :=
  ∃ q, (flightMachine.startingAt p).Reaches (fun _ e => Proxied e) q ∧
    ∃ e t, Proxied e ∧ machine.step q.1 e = some t ∧ ¬SingleFlight q.1 t q.2 e

theorem Violated.before {q : State × Option ℚ} (h : Violated q) (hProxied : Proxied e)
    (next : flightMachine.step p e = some q) : Violated p := by
  obtain ⟨q', rest, hLast⟩ := h
  have first : (flightMachine.startingAt p).Reaches (fun _ e => Proxied e) q :=
    .step (.init rfl) hProxied next
  exact ⟨q', first.trans rest, hLast⟩

/-- A query on a table brings its active rows. -/
theorem exists_query (h : s.committed ≠ []) :
    ∃ order version rows, query s order = some (.fetched version rows) := by
  have hTable : s.committed.length - 1 < s.committed.length := by
    have hLength := List.length_pos_iff.mpr h
    omega
  let table := s.committed[s.committed.length - 1]
  refine ⟨List.range table.active.length, s.committed.length - 1,
    inOrder table.active (List.range table.active.length), ?_⟩
  simp [query, List.getElem?_eq_getElem hTable, table]

section Second

variable {last : Option ℚ} {c h : ℕ}

/-- The second caller queries at the time of the first one's installation. -/
theorem violated_of_waiting (hTable : s.committed ≠ []) (hInterval : 0 ≤ s.registry.refreshInterval)
    (hLock : s.lock = none) (hWaiting : s.loads c = .waiting) : Violated (s, some s.now) := by
  let locked : State := { goto s c .querying with lock := some c }
  have hAcquire : flightMachine.step (s, some s.now) (.acquire c) = some (locked, some s.now) := by
    simp [flightMachine, System.withHistory, machine, Coherence.step, hWaiting, hLock, installedAt,
      locked]
  obtain ⟨order, version, rows, hQuery⟩ := exists_query (s := locked) hTable
  have hExecute : machine.step locked (.execute c order) =
      some (goto locked c (.fetched version rows)) := by
    have hQuerying : locked.loads c = .querying := by simp [locked, goto]
    simp [machine, Coherence.step, hQuerying, hQuery]
  refine Violated.before (e := .acquire c) ?_ trivial hAcquire
  refine ⟨_, .init rfl, .execute c order, _, trivial, hExecute, ?_⟩
  intro hSingle
  have hElapsed : s.now + s.registry.refreshInterval < s.now :=
    hSingle.query c order rfl s.now rfl
  linarith

theorem violated_of_fetched {version : ℕ} {rows : List Vendor} (hTable : s.committed ≠ [])
    (hInterval : 0 ≤ s.registry.refreshInterval) (hOther : c ≠ h)
    (hFetched : s.loads h = .fetched version rows) (hWaiting : s.loads c = .waiting) :
    Violated (s, last) := by
  let installed : State :=
    { goto s h .idle with
      registry := s.registry.install rows s.now
      lock := none
      loaded := some version }
  have hInstall : flightMachine.step (s, last) (.install h) = some (installed, some s.now) := by
    simp [flightMachine, System.withHistory, machine, Coherence.step, hFetched, installedAt,
      installed]
  have hStill : installed.loads c = .waiting := (goto_loads_ne hOther).trans hWaiting
  have hNext : Violated (installed, some installed.now) :=
    violated_of_waiting hTable hInterval rfl hStill
  exact hNext.before (e := .install h) trivial hInstall

theorem violated_of_querying (hTable : s.committed ≠ [])
    (hInterval : 0 ≤ s.registry.refreshInterval) (hOther : c ≠ h) (hQuerying : s.loads h = .querying)
    (hWaiting : s.loads c = .waiting) : Violated (s, last) := by
  obtain ⟨order, version, rows, hQuery⟩ := exists_query hTable
  have hExecute : flightMachine.step (s, last) (.execute h order) =
      some (goto s h (.fetched version rows), last) := by
    simp [flightMachine, System.withHistory, machine, Coherence.step, hQuerying, hQuery, installedAt]
  have hFetched : (goto s h (.fetched version rows)).loads h = .fetched version rows := by
    simp [goto]
  have hStill : (goto s h (.fetched version rows)).loads c = .waiting :=
    (goto_loads_ne hOther).trans hWaiting
  have hNext : Violated (goto s h (.fetched version rows), last) :=
    violated_of_fetched hTable hInterval hOther hFetched hStill
  exact hNext.before (e := .execute h order) trivial hExecute

/-- Two callers at a load: the one that holds the lock installs, then the other
one queries. -/
theorem violated_of_two (hHeld : Held s) (hInvariant : Invariant s)
    (hInterval : 0 ≤ s.registry.refreshInterval) (hOther : c ≠ h) (hBusy : s.loads h ≠ .idle)
    (hWaiting : s.loads c = .waiting) : Violated (s, last) := by
  cases hLock : s.lock with
  | some holder =>
      have hFlight := hHeld.holder holder hLock
      have hNot : c ≠ holder := by
        rintro rfl
        simp [hWaiting, Pc.inFlight] at hFlight
      cases hPc : s.loads holder with
      | idle | waiting => simp [hPc, Pc.inFlight] at hFlight
      | querying => exact violated_of_querying hHeld.table hInterval hNot hPc hWaiting
      | fetched version rows => exact violated_of_fetched hHeld.table hInterval hNot hPc hWaiting
  | none =>
      have hFirst : s.loads h = .waiting := by
        by_contra hPast
        have hHolds := hInvariant.lock_of_busy hBusy hPast
        rw [hLock] at hHolds
        cases hHolds
      let locked : State := { goto s h .querying with lock := some h }
      have hAcquire : flightMachine.step (s, last) (.acquire h) = some (locked, last) := by
        simp [flightMachine, System.withHistory, machine, Coherence.step, hFirst, hLock,
          installedAt, locked]
      have hQuerying : locked.loads h = .querying := by simp [locked, goto]
      have hStill : locked.loads c = .waiting := (goto_loads_ne hOther).trans hWaiting
      have hNext : Violated (locked, last) :=
        violated_of_querying (s := locked) hHeld.table hInterval hOther hQuerying hStill
      exact hNext.before (e := .acquire h) trivial hAcquire

end Second

theorem reached_held {allowed : State × Option ℚ → Event → Prop}
    (run : flightMachine.Reaches allowed p) : Held p.1 ∧ Invariant p.1 := by
  apply run.invariant
  · rintro q ⟨hInit, -⟩
    refine ⟨⟨?_, ?_⟩, invariant_of_init hInit⟩
    · intro c hLock
      rw [hInit.2.1] at hLock
      cases hLock
    · exact List.length_pos_iff.mp (by rw [hInit.2.2.2.1]; exact Nat.one_pos)
  · intro q q' e _ ih _ next
    have hNext : flightMachine.step q e = some q' := next
    have hStep := (System.withHistory_step hNext).1
    exact ⟨ih.1.step hStep, ih.2.step hStep⟩

/-- Reloads are single-flight in every run in which a caller that finds the
registry stale finds nobody else at a load; any caller that does find somebody
can be the second to query at one instant. -/
theorem reload_single_flight (run : flightMachine.Reaches (fun _ e => Proxied e) p) :
    (flightMachine.Reaches Careful p → ∀ e t, Proxied e → machine.step p.1 e = some t →
      SingleFlight p.1 t p.2 e) ∧
    (0 ≤ p.1.registry.refreshInterval → ∀ c t, machine.step p.1 (.reloadIfStale c) = some t →
      ¬Unaccompanied p.1 (.reloadIfStale c) → Violated (t, p.2)) := by
  constructor
  · intro careful e t hProxied next
    exact (reached_oneLoad careful).singleFlight hProxied next
  · intro hInterval c t next hSecond
    obtain ⟨hHeld, hInvariant⟩ := reached_held run
    obtain ⟨hStale, hOther⟩ := Classical.not_imp.mp hSecond
    obtain ⟨h, hBusy⟩ := not_forall.mp hOther
    obtain ⟨hIdle, ⟨-, rfl⟩ | ⟨hFresh, -⟩⟩ := reloadIfStale_step next
    · have hNe : c ≠ h := by
        rintro rfl
        exact hBusy hIdle
      have hStill : (goto p.1 c .waiting).loads h ≠ .idle := by
        rwa [goto_loads_ne hNe.symm]
      exact violated_of_two (s := goto p.1 c .waiting) (hHeld.step next) (hInvariant.step next)
        hInterval hNe hStill (by simp [goto])
    · rw [hStale] at hFresh
      cases hFresh

instance (e : Event) : Decidable (Proxied e) :=
  match e with
  | .load _ | .invalidate _ => isFalse id
  | .tick _ | .commit _ | .reloadIfStale _ | .acquire _ | .execute _ _ | .fail _ | .install _
  | .getAdapter _ | .getAdapterById _ => isTrue trivial

/-- A step of a request that is no call which finds the registry stale. -/
def Settled (p : State × Option ℚ) (e : Event) : Prop :=
  Proxied e ∧ (e.refreshes = true → p.1.registry.isStale p.1.now = false)

theorem careful_of_settled (h : Settled p e) : Careful p e := by
  refine ⟨h.1, ?_⟩
  cases e with
  | reloadIfStale c =>
      intro hStale
      rw [h.2 rfl] at hStale
      cases hStale
  | _ => trivial

instance (p : State × Option ℚ) (e : Event) : Decidable (Settled p e) :=
  inferInstanceAs (Decidable (_ ∧ _))

/-- A call that finds the registry stale when no other is at a load. -/
theorem careful_stale (prior : flightMachine.Reaches Careful p) {c : ℕ}
    (hIdle : ∀ c, p.1.loads c = .idle) (hStale : p.1.registry.isStale p.1.now = true) :
    flightMachine.Reaches Careful (goto p.1 c .waiting, p.2) := by
  refine .step prior (e := .reloadIfStale c) ⟨trivial, fun _ => hIdle⟩ ?_
  simp only [flightMachine, System.withHistory, machine, step, hIdle c, hStale]
  rfl

/-- The load of the first of two callers. The second one finds the registry fresh
when an adapter has been built. -/
def firstLoad : List Event :=
  [.acquire 0, .execute 0 [0], .install 0, .getAdapter "v", .reloadIfStale 1]

def loadedOnce : State × Option ℚ :=
  (flightMachine.exec Settled (goto sampleStart 0 .waiting, none) firstLoad).get
    (by decide +kernel)

/-- The state after an interval, where the second caller loads. -/
def loadingAgain : State × Option ℚ :=
  (flightMachine.exec Settled
    (goto { loadedOnce.1 with now := 161 } 1 .waiting, loadedOnce.2) [.acquire 1, .execute 1 [0]]).get
    (by decide +kernel)

theorem reached_loadingAgain : flightMachine.Reaches Careful loadingAgain := by
  have waiting : flightMachine.Reaches Careful (goto sampleStart 0 .waiting, none) :=
    careful_stale (p := (sampleStart, none)) (.init ⟨init_sampleStart, rfl⟩) (fun _ => rfl)
      (by decide +kernel)
  have loaded : flightMachine.Reaches Careful loadedOnce :=
    waiting.exec_mono (fun _ _ => careful_of_settled) (Option.some_get _).symm
  have hFresh : loadedOnce.1.registry.isStale loadedOnce.1.now = false := by decide +kernel
  have hIdle : ∀ c, loadedOnce.1.loads c = .idle := by
    intro c
    by_contra hBusy
    exact absurd ((reached_oneLoad loaded).stale c hBusy) (by simp [hFresh])
  have hTick : flightMachine.step loadedOnce (.tick 161) =
      some ({ loadedOnce.1 with now := 161 }, loadedOnce.2) := by
    have hLater : loadedOnce.1.now ≤ 161 := by decide +kernel
    simp only [flightMachine, System.withHistory, machine, step, if_pos hLater]
    rfl
  have later : flightMachine.Reaches Careful ({ loadedOnce.1 with now := 161 }, loadedOnce.2) :=
    .step loaded (e := .tick 161) ⟨trivial, trivial⟩ hTick
  exact (careful_stale later hIdle (by decide +kernel)).exec_mono (fun _ _ => careful_of_settled)
    (Option.some_get _).symm

/-- The second load of a run with two callers discards the adapter of the first one. -/
theorem reload_single_flight_twice : ∃ t, machine.step loadingAgain.1 (.install 1) = some t ∧
    loadingAgain.1.registry.adapters.keys = ["v"] ∧ t.registry.adapters.keys = [] ∧
    SingleFlight loadingAgain.1 t loadingAgain.2 (.install 1) := by
  have proxied : flightMachine.Reaches (fun _ e => Proxied e) loadingAgain :=
    reached_loadingAgain.mono fun _ _ hCareful => hCareful.1
  have hInstall : (machine.step loadingAgain.1 (.install 1)).any
      (fun t => decide (t.registry.adapters.keys = [])) = true := by decide +kernel
  obtain ⟨t, next, hNone⟩ := (Option.any_eq_true _ _).mp hInstall
  exact ⟨t, next, by decide +kernel, of_decide_eq_true hNone,
    (reload_single_flight proxied).1 reached_loadingAgain _ _ trivial next⟩

/-- Two callers find the registry stale; the second one queries after the first
one's adapter was built. -/
def twoFlights : List Event :=
  [.reloadIfStale 0, .reloadIfStale 1, .acquire 0, .execute 0 [0], .install 0, .getAdapter "v",
    .acquire 1, .execute 1 [0]]

/-- The second load is about to discard an adapter at the time of the first one. -/
def discarding (p : State × Option ℚ) : Bool :=
  decide (p.2 = some p.1.now ∧ p.1.registry.refreshInterval = 60) &&
    decide (p.1.registry.adapters.keys = ["v"]) &&
    (machine.step p.1 (.install 1)).any fun t => decide (t.registry.adapters.keys = [])

/-- Two requests at one instant: the load of the second one discards the adapter
that was built after the load of the first one. -/
theorem reload_not_single_flight :
    (∃ p, flightMachine.Reaches (fun _ e => Proxied e) p ∧ discarding p = true) ∧
      ¬∀ p, flightMachine.Reaches (fun _ e => Proxied e) p → ∀ e t, Proxied e →
        machine.step p.1 e = some t → SingleFlight p.1 t p.2 e := by
  have start : flightMachine.Reaches (fun _ e => Proxied e) (sampleStart, none) :=
    .init ⟨init_sampleStart, rfl⟩
  have hExec : (flightMachine.exec (fun _ e => Proxied e) (sampleStart, none) twoFlights).any
      discarding = true := by decide +kernel
  obtain ⟨p, run, hDiscarding⟩ := start.exec_any hExec
  refine ⟨⟨p, run, hDiscarding⟩, ?_⟩
  intro hAll
  simp only [discarding, Bool.and_eq_true, decide_eq_true_iff] at hDiscarding
  obtain ⟨⟨⟨hLast, hInterval⟩, hKeys⟩, hStep⟩ := hDiscarding
  obtain ⟨t, next, hNone⟩ := (Option.any_eq_true _ _).mp hStep
  have hElapsed := (hAll p run (.install 1) t trivial next).kept "v"
    (by rw [hKeys]; exact List.mem_singleton_self _)
    (by rw [of_decide_eq_true hNone]; exact List.not_mem_nil) p.1.now hLast
  rw [hInterval] at hElapsed
  linarith

end Flights

end Gateway.Vendors.Coherence
