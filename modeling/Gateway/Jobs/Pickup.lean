import Gateway.Jobs.Lifecycle

/-! A job whose vendor is active against the registry of the process that runs
it. The worker looks the vendor up in what requests have loaded, and a new
process has not loaded anything. -/
namespace Gateway.Jobs.Worker

open Transition Gateway.Db Gateway.Vendors

/-- The vendor is active in the table. -/
def lists (vendorId : Uuid) (table : Coherence.Table) : Bool :=
  table.active.any fun v => decide (v.id = vendorId)

/-- The vendor is active in the database. -/
def activeNow (vendors : Coherence.State) (vendorId : Uuid) : Bool :=
  vendors.committed.getLast?.any (lists vendorId)

/-- The vendor was active when the query of the last load of this process ran. -/
def activeLoaded (vendors : Coherence.State) (vendorId : Uuid) : Bool :=
  (vendors.loaded.bind fun version => vendors.committed[version]?).any (lists vendorId)

/-- History: whether the vendor of the job was active in the database when the
job was last picked up. -/
def recordPickup (s : State) (e : Event) (active : Bool) : Bool :=
  match e, s.worker with
  | .reply, .refetching id _ => (s.jobs id).any fun job => activeNow s.vendors job.vendorId
  | _, _ => active

def picked : System (State × Bool) Event := machine.withHistory false recordPickup

/-- The step commits a job as failed because the registry lacks its vendor or an
adapter. -/
def Blames (s t : State) : Prop :=
  ∃ job reason rest, s.worker = .rejecting job reason rest ∧ reason ≠ .noEndpoint ∧
    t.jobs job.id = some (job.reject reason)

/-- Nothing blames the registry for a job that was picked up with an active vendor. -/
def Blameless (p : State × Bool) : Prop :=
  p.2 = true → ∀ e q, picked.step p e = some q → ¬Blames p.1 q.1

/-- When a job with an active vendor is looked up in the registry, the process
has loaded the vendor as active. -/
def loaded (p : State × Bool) : Event → Bool
  | .endpointRow (some _) =>
      match p.1.worker with
      | .selectingEndpoint job _ => !p.2 || activeLoaded p.1.vendors job.vendorId
      | _ => true
  | _ => true

section Lookup

variable {v : Coherence.State} {vendorId : Uuid}

theorem lists_iff {table : Coherence.Table} :
    lists vendorId table = true ↔ ∃ vendor ∈ table.active, vendor.id = vendorId := by
  simp [lists]

/-- The registry finds a vendor exactly if the process has loaded it as active. -/
theorem getById_isSome (h : Coherence.Invariant v) :
    (v.registry.getById vendorId.text).isSome = activeLoaded v vendorId := by
  cases hLoaded : v.loaded with
  | none =>
      have hEmpty := h.before hLoaded
      simp [activeLoaded, hLoaded, VendorRegistry.getById, VendorRegistry.allVendors, hEmpty,
        Dict.empty]
  | some version =>
      obtain ⟨table, hTable, hShows⟩ := h.snapshot version hLoaded
      have hActive : activeLoaded v vendorId = lists vendorId table := by
        simp [activeLoaded, hLoaded, hTable]
      rw [hActive, Bool.eq_iff_iff, lists_iff, VendorRegistry.getById, List.find?_isSome]
      constructor
      · rintro ⟨vendor, hMem, hId⟩
        exact ⟨vendor, hShows.all.mem_iff.mp hMem, Uuid.text_injective (of_decide_eq_true hId)⟩
      · rintro ⟨vendor, hMem, rfl⟩
        exact ⟨vendor, hShows.all.mem_iff.mpr hMem, decide_eq_true rfl⟩

end Lookup

/-- The worker is about to reject a job with an active vendor only for its endpoint. -/
def Fair (p : State × Bool) : Prop :=
  ∀ job reason rest, p.1.worker = .rejecting job reason rest → p.2 = true → reason = .noEndpoint

section Steps

variable {s t : State} {e : Event} {active : Bool} {calls : List Uuid}

theorem blameless_iff (h : Invariant (s, calls)) : Blameless (s, active) ↔ Fair (s, active) := by
  constructor
  · intro hBlameless job reason rest (hPc : s.worker = .rejecting job reason rest) hActive
    by_contra hReason
    have hKnows := h.knows
    simp only [hPc] at hKnows
    have hCommit : commit s.jobs (job.reject reason) =
        some (Function.update s.jobs job.id (some (job.reject reason))) :=
      commit_of_frame hKnows.1 (frame_reject job reason)
    have next : picked.step (s, active) .reply = some
        (⟨Function.update s.jobs job.id (some (job.reject reason)), s.vendors, .closing rest⟩,
          recordPickup s .reply active) := by
      show (reply s).map _ = _
      simp only [reply, hPc, hCommit]
      rfl
    exact hBlameless hActive _ _ next ⟨job, reason, rest, hPc, hReason, Function.update_self ..⟩
  · intro hFair hActive e q _ hBlames
    obtain ⟨job, reason, rest, hPc, hReason, -⟩ := hBlames
    exact hReason (hFair job reason rest hPc hActive)

theorem afterClosing_ne_rejecting {job : JobRow} {reason : Rejection} {rest rest' : List Uuid} :
    afterClosing rest ≠ .rejecting job reason rest' := by
  cases rest <;> exact nofun

theorem afterRefetching_ne_rejecting {row : Option JobRow} {job : JobRow} {reason : Rejection}
    {rest rest' : List Uuid} : afterRefetching row rest ≠ .rejecting job reason rest' := by
  unfold afterRefetching
  split
  · exact nofun
  · split_ifs <;> exact nofun

theorem afterStoring_ne_rejecting {job job' : JobRow} {reason : Rejection}
    {rest rest' : List Uuid} : afterStoring job rest ≠ .rejecting job' reason rest' := by
  unfold afterStoring
  split
  · exact nofun
  · exact nofun
  · split_ifs <;> exact nofun

/-- Of a vendor that is found only its endpoint can be missing. -/
theorem reason_of_selected {r : VendorRegistry} {job job' : JobRow} {reason : Rejection}
    {rest rest' : List Uuid} {row : Option VendorEndpoint} (hAgree : r.Agree)
    (hPc : (afterSelectEndpoint r job rest row).2 = .rejecting job' reason rest')
    (hReason : reason ≠ .noEndpoint) :
    (∃ endpoint, row = some endpoint) ∧ r.getById job.vendorId.text = none := by
  rcases afterSelectEndpoint_cases hAgree job rest row with ⟨-, hAfter⟩ |
    ⟨endpoint, hRow, ⟨hGet, -⟩ | ⟨config, -, ⟨-, hAfter⟩ | ⟨-, r', -, hAfter⟩⟩⟩
  · rw [hAfter] at hPc
    cases hPc
    exact absurd rfl hReason
  · exact ⟨⟨endpoint, hRow⟩, hGet⟩
  · rw [hAfter] at hPc
    cases hPc
  · rw [hAfter] at hPc
    cases hPc

theorem fair_step (hVendors : Coherence.Invariant s.vendors) (hFair : Fair (s, active))
    (hLoaded : loaded (s, active) e = true) (hStep : Step s e t) :
    Fair (t, recordPickup s e active) := by
  intro job reason rest hPc hActive
  cases hStep with
  | created => exact hFair job reason rest hPc hActive
  | others => exact hFair job reason rest hPc hActive
  | closed => exact absurd hPc afterClosing_ne_rejecting
  | refetched => exact absurd hPc afterRefetching_ne_rejecting
  | stored => exact absurd hPc afterStoring_ne_rejecting
  | selected job' rest' row hBefore hRow =>
      by_contra hReason
      obtain ⟨⟨endpoint, rfl⟩, hNone⟩ := reason_of_selected hVendors.agree hPc hReason
      have hSame : active = true := hActive
      have hFound : activeLoaded s.vendors job'.vendorId = true := by
        simpa [loaded, hBefore, hSame] using hLoaded
      rw [← getById_isSome hVendors, hNone] at hFound
      cases hFound
  | _ => cases hPc

/-- A job whose active vendor is not loaded is about to be rejected. -/
theorem not_fair_step (hVendors : Coherence.Invariant s.vendors)
    (hNot : loaded (s, active) e = false) (hStep : Step s e t) :
    ¬Fair (t, recordPickup s e active) := by
  intro hFair
  cases hStep with
  | selected job rest row hPc hRow =>
      cases row with
      | none => cases hNot
      | some endpoint =>
          obtain ⟨hActive, hLoaded⟩ : active = true ∧ activeLoaded s.vendors job.vendorId = false := by
            simpa [loaded, hPc] using hNot
          rw [← getById_isSome hVendors] at hLoaded
          have hGet : s.vendors.registry.getById job.vendorId.text = none := by simpa using hLoaded
          have hAfter : (afterSelectEndpoint s.vendors.registry job rest (some endpoint)).2 =
              .rejecting job .noVendor rest := by
            simp only [afterSelectEndpoint, hGet]
          cases hFair job .noVendor rest hAfter hActive
  | _ => cases hNot

end Steps

theorem fair_run {p : State × Bool} (run : picked.Reaches (fun p e => loaded p e = true) p) : Fair p := by
  induction run with
  | init start =>
      intro job reason rest hPc
      rw [start.1.2.2] at hPc
      cases hPc
  | @step p q e prior hLoaded next ih =>
      obtain ⟨t, rfl, hStep⟩ := recorded_cases next
      exact fair_step (vendors_run prior) ih hLoaded hStep

/-- While each job with an active vendor is looked up in a process that has
loaded its vendor, the registry is not blamed. The first lookup in a process
that has not leads to such a failure. -/
theorem pickup_blameless {p : State × Bool} (run : picked.Reaches (fun p e => loaded p e = true) p) :
    Blameless p ∧ ∀ e q, picked.step p e = some q →
      (Blameless q ↔ loaded p e = true) := by
  obtain ⟨s, active⟩ := p
  obtain ⟨calls, hInvariant⟩ := exists_invariant run
  have hFair := fair_run run
  refine ⟨(blameless_iff hInvariant).mpr hFair, fun e q next => ?_⟩
  obtain ⟨t, rfl, hStep⟩ := recorded_cases next
  have hVendors := vendors_run run
  have hPlain : picked.Reaches System.anyRun (s, active) := run.mono fun _ _ _ => trivial
  obtain ⟨calls', hInvariant'⟩ := exists_invariant (.step hPlain trivial next)
  rw [blameless_iff hInvariant']
  constructor
  · intro hFair'
    by_contra hNot
    exact not_fair_step hVendors (Bool.eq_false_iff.mpr hNot) hStep hFair'
  · intro hLoaded
    exact fair_step hVendors hFair hLoaded hStep

section Traces

/-- The vendor of the job that is about to be looked up. -/
def lookingUp (p : State × Bool) : Option Uuid :=
  match p.1.worker with
  | .selectingEndpoint job _ => some job.vendorId
  | _ => none

/-- A request loads the registry before the job is picked up. -/
def loadedFirst : List Event :=
  load ++ .create sampleId sampleId sampleId "u" none :: .pendingRows [sampleId] :: upToEndpoint

theorem pickup_blameless_loaded : ∃ p, (lookingUp p = some sampleId ∧ p.2 = true) ∧
    Blameless p ∧ ∀ e q, picked.step p e = some q → (Blameless q ↔ loaded p e = true) := by
  obtain ⟨p, run, hEnd⟩ : ∃ p, picked.Reaches (fun p e => loaded p e = true) p ∧
      decide (lookingUp p = some sampleId ∧ p.2 = true) = true :=
    System.Reaches.exec_any (.init ⟨init_sampleStart, rfl⟩)
      (by decide +kernel : (picked.exec (fun p e => loaded p e = true) (sampleStart, false)
        loadedFirst).any (fun p => decide (lookingUp p = some sampleId ∧ p.2 = true)) = true)
  exact ⟨p, of_decide_eq_true hEnd, pickup_blameless run⟩

/-- The process is restarted between the creation of the job and its run. -/
def restartedBetween : List Event :=
  load ++ .create sampleId sampleId sampleId "u" none :: .restart false 60 ::
    .pendingRows [sampleId] :: upToEndpoint ++ [.endpointRow (some sampleEndpoint)]

/-- The database still has the vendor as active, and the job is committed as
failed for its absence. -/
def blamed (p : State × Bool) : Bool :=
  p.2 && activeNow p.1.vendors sampleId && (p.1.jobs sampleId).any fun row =>
    decide (row.status = .failed ∧ row.error =
      some "Vendor 00000000-0000-0000-0000-000000000000 not found in registry")

/-- The job is about to be rejected for its vendor. -/
def rejects (p : State × Bool) : Bool :=
  match p.1.worker with
  | .rejecting _ .noVendor _ => p.2
  | _ => false

theorem pickup_blamed : ∃ p, picked.Reaches System.anyRun p ∧ ¬Blameless p ∧
    ∃ q, picked.step p .reply = some q ∧ blamed q = true := by
  obtain ⟨p, run, hEnd⟩ : ∃ p, picked.Reaches System.anyRun p ∧
      (rejects p && (picked.step p .reply).any blamed) = true :=
    System.Reaches.exec_any (.init ⟨init_sampleStart, rfl⟩)
      (by decide +kernel : (picked.exec System.anyRun (sampleStart, false) restartedBetween).any
        (fun p => rejects p && (picked.step p .reply).any blamed) = true)
  obtain ⟨hRejects, hBlamed⟩ := (Bool.and_eq_true _ _).mp hEnd
  obtain ⟨q, next, hCommitted⟩ := (Option.any_eq_true _ _).mp hBlamed
  obtain ⟨s, active⟩ := p
  obtain ⟨calls, hInvariant⟩ := exists_invariant run
  refine ⟨_, run, fun hBlameless => ?_, q, next, hCommitted⟩
  have hFair := (blameless_iff hInvariant).mp hBlameless
  unfold rejects at hRejects
  split at hRejects
  case h_1 job rest hPc => cases hFair job .noVendor rest hPc hRejects
  case h_2 => cases hRejects

end Traces

end Gateway.Jobs.Worker
