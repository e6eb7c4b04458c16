import Gateway.Semantics.Transition
import Gateway.Vendors.Registry

/-! The registry under concurrent callers, over a vendor table that changes at
any time. A `load` waits for the lock, sends its query and installs the rows in
separate steps; the other functions of the registry do not wait. -/
namespace Gateway.Vendors.Coherence

open Transition

/-- A committed state of the vendor table. -/
structure Table where
  rows : List Vendor
  slugs : (rows.map fun v => v.slug).Nodup

def Table.active (table : Table) : List Vendor := table.rows.filter Vendor.isActive

/-- Where a call of `load` is. The rows that a query brought are those of one
version of the table. -/
inductive Pc where
  | idle
  | waiting
  | querying
  | fetched (version : ℕ) (rows : List Vendor)

/-- The committed tables are listed from the first one on. `loaded` is the
version that the last load installed; no step reads it. -/
structure State where
  now : ℚ
  registry : VendorRegistry
  lock : Option ℕ
  loads : ℕ → Pc
  committed : List Table
  loaded : Option ℕ

inductive Event where
  | tick (later : ℚ)
  | commit (table : Table)
  | load (c : ℕ)
  | reloadIfStale (c : ℕ)
  | acquire (c : ℕ)
  | execute (c : ℕ) (order : List ℕ)
  | fail (c : ℕ)
  | install (c : ℕ)
  | getAdapter (slug : String)
  | getAdapterById (vendorId : String)
  | invalidate (slug : Option String)

def goto (s : State) (c : ℕ) (pc : Pc) : State := { s with loads := Function.update s.loads c pc }

/-- The rows of a list in the order of some positions. -/
def inOrder (rows : List Vendor) (order : List ℕ) : List Vendor :=
  order.filterMap fun i => rows[i]?

/-- `SELECT ... WHERE is_active` on the last committed table; the order of its
rows is left open. -/
def query (s : State) (order : List ℕ) : Option Pc := do
  let version := s.committed.length - 1
  let table ← s.committed[version]?
  if order.Perm (List.range table.active.length) then
    some (.fetched version (inOrder table.active order))
  else none

def step (s : State) : Event → Option State
  | .tick later => if s.now ≤ later then some { s with now := later } else none
  | .commit table => some { s with committed := s.committed ++ [table] }
  | .load c =>
      match s.loads c with
      | .idle => some (goto s c .waiting)
      | _ => none
  | .reloadIfStale c =>
      match s.loads c with
      | .idle => some (if s.registry.isStale s.now then goto s c .waiting else s)
      | _ => none
  | .acquire c =>
      match s.loads c, s.lock with
      | .waiting, none => some { goto s c .querying with lock := some c }
      | _, _ => none
  | .execute c order =>
      match s.loads c with
      | .querying => (query s order).map (goto s c)
      | _ => none
  | .fail c =>
      match s.loads c with
      | .idle => none
      | .waiting => some (goto s c .idle)
      | _ => some { goto s c .idle with lock := none }
  | .install c =>
      match s.loads c with
      | .fetched version rows =>
          some
            { goto s c .idle with
              registry := s.registry.install rows s.now
              lock := none
              loaded := some version }
      | _ => none
  | .getAdapter slug => some { s with registry := (s.registry.getAdapter slug).1 }
  | .getAdapterById vendorId => some { s with registry := (s.registry.getAdapterById vendorId).1 }
  | .invalidate slug => some { s with registry := s.registry.invalidate slug }

def machine : System State Event where
  init s := (∃ interval, s.registry = .empty interval) ∧ s.lock = none ∧ s.loads = (fun _ => .idle) ∧
    s.committed.length = 1 ∧ s.loaded = none
  step := step

/-- All that a step can do. -/
inductive Step (s : State) : Event → State → Prop where
  | ticked (later : ℚ) (hLater : s.now ≤ later) : Step s (.tick later) { s with now := later }
  | committed (table : Table) :
      Step s (.commit table) { s with committed := s.committed ++ [table] }
  | called (c : ℕ) (hIdle : s.loads c = .idle) : Step s (.load c) (goto s c .waiting)
  | stale (c : ℕ) (hIdle : s.loads c = .idle) (hStale : s.registry.isStale s.now = true) :
      Step s (.reloadIfStale c) (goto s c .waiting)
  | fresh (c : ℕ) (hIdle : s.loads c = .idle) (hFresh : s.registry.isStale s.now = false) :
      Step s (.reloadIfStale c) s
  | acquired (c : ℕ) (hWaiting : s.loads c = .waiting) (hFree : s.lock = none) :
      Step s (.acquire c) { goto s c .querying with lock := some c }
  | executed (c : ℕ) (order : List ℕ) (pc : Pc) (hQuerying : s.loads c = .querying)
      (hQuery : query s order = some pc) : Step s (.execute c order) (goto s c pc)
  | gaveUp (c : ℕ) (hWaiting : s.loads c = .waiting) : Step s (.fail c) (goto s c .idle)
  | failed (c : ℕ) (hIdle : s.loads c ≠ .idle) (hWaiting : s.loads c ≠ .waiting) :
      Step s (.fail c) { goto s c .idle with lock := none }
  | installed (c version : ℕ) (rows : List Vendor) (hPc : s.loads c = .fetched version rows) :
      Step s (.install c)
        { goto s c .idle with
          registry := s.registry.install rows s.now
          lock := none
          loaded := some version }
  | asked (slug : String) :
      Step s (.getAdapter slug) { s with registry := (s.registry.getAdapter slug).1 }
  | askedById (vendorId : String) :
      Step s (.getAdapterById vendorId)
        { s with registry := (s.registry.getAdapterById vendorId).1 }
  | invalidated (slug : Option String) :
      Step s (.invalidate slug) { s with registry := s.registry.invalidate slug }

theorem step_cases {s t : State} {e : Event} (next : machine.step s e = some t) : Step s e t := by
  cases e with
  | tick later =>
      simp only [machine, step] at next
      split_ifs at next with hLater
      cases next
      exact .ticked later hLater
  | commit table =>
      cases next
      exact .committed table
  | load c =>
      simp only [machine, step] at next
      split at next
      · rename_i hIdle
        cases next
        exact .called c hIdle
      · cases next
  | reloadIfStale c =>
      simp only [machine, step] at next
      split at next
      · rename_i hIdle
        cases next
        cases hStale : s.registry.isStale s.now with
        | true => exact .stale c hIdle hStale
        | false => exact .fresh c hIdle hStale
      · cases next
  | acquire c =>
      simp only [machine, step] at next
      split at next
      · rename_i hWaiting hFree
        cases next
        exact .acquired c hWaiting hFree
      · cases next
  | execute c order =>
      simp only [machine, step] at next
      split at next
      · rename_i hQuerying
        obtain ⟨pc, hQuery, rfl⟩ := Option.map_eq_some_iff.mp next
        exact .executed c order pc hQuerying hQuery
      · cases next
  | fail c =>
      simp only [machine, step] at next
      split at next
      · cases next
      · rename_i hWaiting
        cases next
        exact .gaveUp c hWaiting
      · rename_i hIdle hWaiting
        cases next
        exact .failed c hIdle hWaiting
  | install c =>
      simp only [machine, step] at next
      split at next
      · rename_i version rows hPc
        cases next
        exact .installed c version rows hPc
      · cases next
  | getAdapter slug =>
      cases next
      exact .asked slug
  | getAdapterById vendorId =>
      cases next
      exact .askedById vendorId
  | invalidate slug =>
      cases next
      exact .invalidated slug

/-- What can be seen of the registry is the active part of a table. -/
structure Shows (r : VendorRegistry) (table : Table) : Prop where
  all : r.allVendors.Perm table.active
  get : ∀ slug config, r.get slug = some config ↔ config ∈ table.active ∧ config.slug = slug
  getById : ∀ vendorId config, r.getById vendorId = some config →
    config ∈ table.active ∧ config.id.text = vendorId
  foundById : ∀ config ∈ table.active, ∃ found, r.getById config.id.text = some found

/-- The registry is coherent: it shows one committed table once it is loaded,
nothing before, and its adapters are those of the configurations it shows. -/
structure Coherent (s : State) : Prop where
  before : s.loaded = none → s.registry.allVendors = [] ∧ ∀ slug, s.registry.get slug = none
  snapshot : ∀ version, s.loaded = some version →
    ∃ table, s.committed[version]? = some table ∧ Shows s.registry table
  adapter : ∀ slug a, (s.registry.getAdapter slug).2 = .found a →
    ∃ config, s.registry.get slug = some config ∧
      a.authType = config.authType ∧ a.authConfig = config.authConfig
  adapterById : ∀ vendorId a, (s.registry.getAdapterById vendorId).2 = .found a →
    ∃ config, s.registry.getById vendorId = some config ∧
      a.authType = config.authType ∧ a.authConfig = config.authConfig

/-- A step never goes back to an older table, and a load that fails changes
nothing in the registry. -/
structure Forward (s t : State) (e : Event) : Prop where
  monotone : ∀ version, s.loaded = some version →
    ∃ version', t.loaded = some version' ∧ version ≤ version'
  failed : ∀ c, e = .fail c → t.registry = s.registry ∧ t.loaded = s.loaded

theorem inOrder_range (rows : List Vendor) : inOrder rows (List.range rows.length) = rows := by
  unfold inOrder
  induction rows with
  | nil => rfl
  | cons v rows ih =>
      rw [List.length_cons, List.range_succ_eq_map, List.filterMap_cons]
      simpa [List.filterMap_map, Function.comp_def] using ih

theorem inOrder_perm {rows : List Vendor} {order : List ℕ}
    (h : order.Perm (List.range rows.length)) : (inOrder rows order).Perm rows := by
  have hPerm : (inOrder rows order).Perm (inOrder rows (List.range rows.length)) :=
    h.filterMap fun i => rows[i]?
  rwa [inOrder_range] at hPerm

/-- A query brings the active rows of the last committed table. -/
theorem query_cases {s : State} {order : List ℕ} {pc : Pc} (h : query s order = some pc) :
    ∃ table rows, s.committed[s.committed.length - 1]? = some table ∧ rows.Perm table.active ∧
      pc = .fetched (s.committed.length - 1) rows := by
  unfold query at h
  simp only [Option.bind_eq_bind, Option.bind_eq_some_iff] at h
  obtain ⟨table, hTable, h⟩ := h
  split_ifs at h with hOrder
  cases h
  exact ⟨table, _, hTable, inOrder_perm hOrder, rfl⟩

/-- Rows with different slugs are what an installed registry shows. -/
theorem shows_install {r : VendorRegistry} {table : Table} {rows : List Vendor} {now : ℚ}
    (h : rows.Perm table.active) : Shows (r.install rows now) table := by
  have hNodup : ((rows.map fun v => (v.slug, v)).map Prod.fst).Nodup := by
    rw [List.map_map]
    have hActive : (table.active.map fun v => v.slug).Nodup :=
      (List.filter_sublist.map _).nodup table.slugs
    exact (h.map _).nodup_iff.mpr hActive
  have hItems : (r.install rows now).vendors.items = rows.map fun v => (v.slug, v) :=
    Dict.ofList_items hNodup
  have hAll : (r.install rows now).allVendors = rows := by
    rw [VendorRegistry.allVendors, hItems, List.map_map]
    exact List.map_id rows
  constructor
  · rw [hAll]
    exact h
  · intro slug config
    rw [VendorRegistry.get, Dict.get?_eq_some, hItems, ← h.mem_iff]
    constructor
    · intro hMem
      obtain ⟨v, hv, hSame⟩ := List.mem_map.mp hMem
      cases hSame
      exact ⟨hv, rfl⟩
    · rintro ⟨hv, rfl⟩
      exact List.mem_map_of_mem hv
  · intro vendorId config hGet
    have hMem := List.mem_of_find?_eq_some hGet
    rw [hAll] at hMem
    exact ⟨h.mem_iff.mp hMem, by simpa using List.find?_some hGet⟩
  · intro config hActive
    refine Option.isSome_iff_exists.mp (List.find?_isSome.mpr ⟨config, ?_, decide_eq_true rfl⟩)
    rw [hAll]
    exact h.mem_iff.mpr hActive

/-- What a load in progress knows: it holds the lock from its query on, and its
rows are those of a version that is no older than the installed one. -/
structure Invariant (s : State) : Prop where
  agree : s.registry.Agree
  before : s.loaded = none → s.registry.vendors = Dict.empty
  snapshot : ∀ version, s.loaded = some version →
    ∃ table, s.committed[version]? = some table ∧ Shows s.registry table
  querying : ∀ c, s.loads c = .querying → s.lock = some c
  fetched : ∀ c version rows, s.loads c = .fetched version rows → s.lock = some c ∧
    (∃ table, s.committed[version]? = some table ∧ rows.Perm table.active) ∧
      ∀ installed, s.loaded = some installed → installed ≤ version

theorem shows_congr {r r' : VendorRegistry} {table : Table} (h : r'.vendors = r.vendors)
    (hShows : Shows r table) : Shows r' table := by
  have hAll : r'.allVendors = r.allVendors := by
    rw [VendorRegistry.allVendors, h, VendorRegistry.allVendors]
  refine ⟨hAll ▸ hShows.all, ?_, ?_, ?_⟩
  · intro slug config
    rw [VendorRegistry.get, h]
    exact hShows.get slug config
  · intro vendorId config hGet
    apply hShows.getById vendorId config
    rwa [VendorRegistry.getById, ← hAll]
  · intro config hActive
    rw [VendorRegistry.getById, hAll]
    exact hShows.foundById config hActive

/-- A step that changes neither the loads nor the configurations keeps the invariant. -/
theorem Invariant.adapters {s : State} (h : Invariant s) {r : VendorRegistry} (hAgree : r.Agree)
    (hVendors : r.vendors = s.registry.vendors) : Invariant { s with registry := r } where
  agree := hAgree
  before := by
    intro hNone
    exact hVendors.trans (h.before hNone)
  snapshot := by
    intro version hLoaded
    obtain ⟨table, hTable, hShows⟩ := h.snapshot version hLoaded
    exact ⟨table, hTable, shows_congr hVendors hShows⟩
  querying := h.querying
  fetched := h.fetched

/-- A load that moves on holds the lock, if it needs it, and nobody else does. -/
theorem Invariant.moved {s : State} (h : Invariant s) (c : ℕ) (pc : Pc) (lock : Option ℕ)
    (hOthers : ∀ c', c' ≠ c → s.lock = some c' → lock = some c')
    (hQuerying : pc = .querying → lock = some c)
    (hFetched : ∀ version rows, pc = .fetched version rows → lock = some c ∧
      (∃ table, s.committed[version]? = some table ∧ rows.Perm table.active) ∧
        ∀ installed, s.loaded = some installed → installed ≤ version) :
    Invariant { goto s c pc with lock := lock } where
  agree := h.agree
  before := h.before
  snapshot := h.snapshot
  querying := by
    intro c' hPc
    by_cases hc : c' = c
    · subst hc
      exact hQuerying (by simpa [goto] using hPc)
    · exact hOthers c' hc (h.querying c' (by simpa [goto, hc] using hPc))
  fetched := by
    intro c' version rows hPc
    by_cases hc : c' = c
    · subst hc
      exact hFetched version rows (by simpa [goto] using hPc)
    · obtain ⟨hLock, hRows⟩ := h.fetched c' version rows (by simpa [goto, hc] using hPc)
      exact ⟨hOthers c' hc hLock, hRows⟩

theorem Invariant.commit {s : State} (h : Invariant s) (table : Table) :
    Invariant { s with committed := s.committed ++ [table] } where
  agree := h.agree
  before := h.before
  snapshot := by
    intro version hLoaded
    obtain ⟨table, hTable, hShows⟩ := h.snapshot version hLoaded
    exact ⟨table, List.getElem?_append_left (List.getElem?_eq_some_iff.mp hTable).1 ▸ hTable, hShows⟩
  querying := h.querying
  fetched := by
    intro c version rows hPc
    obtain ⟨hLock, ⟨table, hTable, hRows⟩, hNewest⟩ := h.fetched c version rows hPc
    refine ⟨hLock, ⟨table, ?_, hRows⟩, hNewest⟩
    exact List.getElem?_append_left (List.getElem?_eq_some_iff.mp hTable).1 ▸ hTable

/-- The rows that are installed are those of a committed table, and the lock
keeps other loads from being past their query. -/
theorem Invariant.install {s : State} (h : Invariant s) {c version : ℕ} {rows : List Vendor}
    (hPc : s.loads c = .fetched version rows) :
    Invariant
      { goto s c .idle with
        registry := s.registry.install rows s.now
        lock := none
        loaded := some version } := by
  obtain ⟨hLock, ⟨table, hTable, hRows⟩, -⟩ := h.fetched c version rows hPc
  have hOther : ∀ c' pc, (goto s c .idle).loads c' = pc → pc ≠ .idle →
      s.lock ≠ some c' ∧ s.loads c' = pc := by
    intro c' pc hLoad hBusy
    by_cases hc : c' = c
    · subst hc
      have hIdle : pc = .idle := by simpa [goto] using hLoad.symm
      exact absurd hIdle hBusy
    · refine ⟨?_, by simpa [goto, hc] using hLoad⟩
      intro hHeld
      exact hc (Option.some.inj (hHeld.symm.trans hLock))
  refine ⟨VendorRegistry.agree_install rows s.now, ?_, ?_, ?_, ?_⟩
  · intro hNone
    cases hNone
  · intro version' hLoaded
    cases hLoaded
    exact ⟨table, hTable, shows_install hRows⟩
  · intro c' hLoad
    obtain ⟨hFree, hQuerying⟩ := hOther c' _ hLoad (by simp)
    exact absurd (h.querying c' hQuerying) hFree
  · intro c' version' rows' hLoad
    obtain ⟨hFree, hFetched⟩ := hOther c' _ hLoad (by simp)
    exact absurd (h.fetched c' version' rows' hFetched).1 hFree

theorem goto_lock (s : State) (c : ℕ) (pc : Pc) : { goto s c pc with lock := s.lock } = goto s c pc :=
  rfl

/-- The new position of a load that neither queries nor has rows. -/
theorem Invariant.rest {s : State} (h : Invariant s) (c : ℕ) (pc : Pc)
    (hPc : pc = .idle ∨ pc = .waiting) : Invariant (goto s c pc) := by
  rw [← goto_lock]
  apply h.moved
  · intro c' _ hLock
    exact hLock
  · rintro rfl
    cases hPc with
    | inl hIdle => cases hIdle
    | inr hWaiting => cases hWaiting
  · rintro version rows rfl
    cases hPc with
    | inl hIdle => cases hIdle
    | inr hWaiting => cases hWaiting

/-- A load that holds the lock gives it up when it fails. -/
theorem Invariant.release {s : State} (h : Invariant s) {c : ℕ} (hLock : s.lock = some c) :
    Invariant { goto s c .idle with lock := none } := by
  apply h.moved
  · intro c' hc hHeld
    rw [hLock] at hHeld
    exact absurd (Option.some.inj hHeld).symm hc
  · intro hPc
    cases hPc
  · intro version rows hPc
    cases hPc

/-- A load past the lock holds it. -/
theorem Invariant.lock_of_busy {s : State} (h : Invariant s) {c : ℕ}
    (hIdle : s.loads c ≠ .idle) (hWaiting : s.loads c ≠ .waiting) : s.lock = some c := by
  cases hPc : s.loads c with
  | idle => exact absurd hPc hIdle
  | waiting => exact absurd hPc hWaiting
  | querying => exact h.querying c hPc
  | fetched version rows => exact (h.fetched c version rows hPc).1

theorem Invariant.acquire {s : State} (h : Invariant s) (c : ℕ) (hFree : s.lock = none) :
    Invariant { goto s c .querying with lock := some c } := by
  apply h.moved
  · intro c' _ hLock
    rw [hFree] at hLock
    cases hLock
  · intro _
    rfl
  · intro version rows hPc
    cases hPc

/-- The rows are those of the last table, and no load has installed a later one. -/
theorem Invariant.execute {s : State} (h : Invariant s) {c : ℕ} {order : List ℕ} {pc : Pc}
    (hQuerying : s.loads c = .querying) (hQuery : query s order = some pc) :
    Invariant (goto s c pc) := by
  obtain ⟨table, rows, hTable, hRows, rfl⟩ := query_cases hQuery
  have hLock := h.querying c hQuerying
  rw [← goto_lock]
  apply h.moved
  · intro c' _ hHeld
    exact hHeld
  · intro hPc
    cases hPc
  · intro version rows' hPc
    cases hPc
    refine ⟨hLock, ⟨table, hTable, hRows⟩, ?_⟩
    intro installed hLoaded
    obtain ⟨table', hOld, -⟩ := h.snapshot installed hLoaded
    have hBound := (List.getElem?_eq_some_iff.mp hOld).1
    omega

theorem Invariant.step {s t : State} {e : Event} (h : Invariant s)
    (next : machine.step s e = some t) : Invariant t := by
  cases step_cases next with
  | ticked later hLater => exact ⟨h.agree, h.before, h.snapshot, h.querying, h.fetched⟩
  | committed table => exact h.commit table
  | called c hIdle => exact h.rest c .waiting (Or.inr rfl)
  | stale c hIdle hStale => exact h.rest c .waiting (Or.inr rfl)
  | fresh c hIdle hFresh => exact h
  | acquired c hWaiting hFree => exact h.acquire c hFree
  | executed c order pc hQuerying hQuery => exact h.execute hQuerying hQuery
  | gaveUp c hWaiting => exact h.rest c .idle (Or.inl rfl)
  | failed c hIdle hWaiting => exact h.release (h.lock_of_busy hIdle hWaiting)
  | installed c version rows hPc => exact h.install hPc
  | asked slug =>
      exact h.adapters (h.agree.getAdapter slug) (VendorRegistry.getAdapter_vendors slug)
  | askedById vendorId =>
      exact h.adapters (h.agree.getAdapterById vendorId)
        (VendorRegistry.getAdapterById_vendors vendorId)
  | invalidated slug =>
      exact h.adapters (h.agree.invalidate slug) (VendorRegistry.invalidate_vendors slug)

theorem invariant_of_init {s : State} (h : machine.init s) : Invariant s := by
  obtain ⟨⟨interval, hRegistry⟩, hLock, hLoads, hLength, hLoaded⟩ := h
  refine ⟨?_, ?_, ?_, ?_, ?_⟩
  · rw [hRegistry]
    exact VendorRegistry.agree_empty interval
  · intro _
    rw [hRegistry]
    rfl
  · intro version hSome
    rw [hLoaded] at hSome
    cases hSome
  · intro c hPc
    rw [hLoads] at hPc
    cases hPc
  · intro c version rows hPc
    rw [hLoads] at hPc
    cases hPc

theorem Invariant.coherent {s : State} (h : Invariant s) : Coherent s where
  before := by
    intro hNone
    have hEmpty := h.before hNone
    refine ⟨?_, ?_⟩
    · rw [VendorRegistry.allVendors, hEmpty]
      rfl
    · intro slug
      rw [VendorRegistry.get, hEmpty]
      rfl
  snapshot := h.snapshot
  adapter := fun _ _ hFound => h.agree.found hFound
  adapterById := fun _ _ hFound => h.agree.foundById hFound

/-- Only an installation changes the loaded version. -/
theorem loaded_step {s t : State} {e : Event} (next : machine.step s e = some t) :
    t.loaded = s.loaded ∨ ∃ c version rows, e = .install c ∧ s.loads c = .fetched version rows ∧
      t.loaded = some version := by
  cases step_cases next with
  | installed c version rows hPc => exact Or.inr ⟨c, version, rows, rfl, hPc, rfl⟩
  | _ => exact Or.inl rfl

theorem registry_fail {s t : State} {c : ℕ} (next : machine.step s (.fail c) = some t) :
    t.registry = s.registry := by
  cases step_cases next <;> rfl

theorem Invariant.forward {s t : State} {e : Event} (h : Invariant s)
    (next : machine.step s e = some t) : Forward s t e := by
  have hLoaded := loaded_step next
  constructor
  · intro version hSome
    rcases hLoaded with hSame | ⟨c, version', rows, -, hPc, hNew⟩
    · exact ⟨version, hSame.trans hSome, le_rfl⟩
    · exact ⟨version', hNew, (h.fetched c version' rows hPc).2.2 version hSome⟩
  · rintro c rfl
    refine ⟨registry_fail next, ?_⟩
    rcases hLoaded with hSame | ⟨c', -, -, hInstall, -⟩
    · exact hSame
    · cases hInstall

/-- The registry is coherent in every run, and no step takes it back. -/
theorem registry_coherent {s : State} (run : machine.Reaches System.anyRun s) :
    Coherent s ∧ ∀ e t, machine.step s e = some t → Forward s t e := by
  have hInv : Invariant s := by
    apply run.invariant
    · intro s hInit
      exact invariant_of_init hInit
    · intro s t e _ hInv _ next
      exact hInv.step next
  exact ⟨hInv.coherent, fun e t next => hInv.forward next⟩

section Sample

/-- An active vendor whose API key is the secret of some name. -/
def sampleVendor (keyReference : String) : Vendor where
  id := .nil
  slug := "v"
  baseUrl := "http://v"
  cacheTtlSeconds := 0
  name := "V"
  authType := "api_key"
  authConfig := [("header_name", .str "x-api-key"), ("key_reference", .str keyReference)]
  rateLimitRpm := 0
  isActive := true

def sampleTable (keyReference : String) : Table := ⟨[sampleVendor keyReference], by simp⟩

def sampleStart : State :=
  ⟨100, .empty 60, none, fun _ => .idle, [sampleTable "OLD"], none⟩

theorem init_sampleStart : machine.init sampleStart := ⟨⟨60, rfl⟩, rfl, rfl, rfl, rfl⟩

/-- Before the first load the registry does not show the one committed table. -/
theorem registry_not_loaded :
    machine.Reaches System.anyRun sampleStart ∧
      ∀ table ∈ sampleStart.committed, ¬Shows sampleStart.registry table := by
  refine ⟨.init init_sampleStart, ?_⟩
  intro table hTable hShows
  obtain rfl : table = sampleTable "OLD" := by simpa [sampleStart] using hTable
  have hLength := hShows.all.length_eq
  exact absurd hLength (by decide)

/-- Two loads that wait for each other, with a change of the vendor between
their queries, and an adapter after each of them. -/
def rotation : List Event :=
  [.load 0, .reloadIfStale 1, .acquire 0, .execute 0 [0], .commit (sampleTable "NEW"), .install 0,
    .getAdapter "v", .acquire 1, .execute 1 [0], .load 2, .fail 2, .install 1, .getAdapter "v"]

/-- The adapter of the last load is there. -/
def rotated (s : State) : Bool :=
  decide (s.loaded = some 1) && decide (s.registry.adapters.keys = ["v"])

theorem registry_coherent_rotation : ∃ s, rotated s = true ∧ Coherent s ∧
    ∀ e t, machine.step s e = some t → Forward s t e := by
  obtain ⟨s, run, hRotated⟩ : ∃ s, machine.Reaches System.anyRun s ∧ rotated s = true :=
    System.Reaches.exec_any (.init init_sampleStart)
      (by decide +kernel : (machine.exec System.anyRun sampleStart rotation).any rotated = true)
  exact ⟨s, hRotated, registry_coherent run⟩

end Sample

end Gateway.Vendors.Coherence
