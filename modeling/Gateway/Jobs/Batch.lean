import Gateway.Jobs.Lifecycle
import Gateway.Routes.Proxy

/-! One pass of `_process_pending_jobs` over the jobs that it has fetched, as
long as the database answers. Between the first commit of `run_job` and its
`try` block, and again behind its last commit, an exception ends the pass. -/
namespace Gateway.Jobs.Worker

open Transition Gateway.Db Gateway.Vendors

/-- History: the jobs that the pass has fetched. A new pass starts without any,
and so does what comes after a cancelled one. -/
def recordBatch (_ : State) (e : Event) (batch : List Uuid) : List Uuid :=
  match e with
  | .pendingRows ids => ids
  | .wake | .cancel _ | .restart _ _ => []
  | _ => batch

def batched : System (State × List Uuid) Event := machine.withHistory [] recordBatch

def Done (jobs : Uuid → Option JobRow) (id : Uuid) : Prop :=
  ∃ row, jobs id = some row ∧ (row.status = .completed ∨ row.status = .failed)

def Pending (jobs : Uuid → Option JobRow) (id : Uuid) : Prop :=
  ∃ row, jobs id = some row ∧ row.status = .pending

/-- When the pass has ended, each job that it fetched is completed or failed. -/
def Settled (p : State × List Uuid) : Prop :=
  p.1.worker = .sleeping → ∀ id ∈ p.2, Done p.1.jobs id

/-- The database does not fail. -/
def answers : Event → Bool
  | .raised _ => false
  | _ => true

/-- The adapter of a registered vendor can be had, and the stored headers are an
object unless nothing follows. -/
def runnable (s : State) : Event → Bool
  | .endpointRow (some _) =>
      match s.worker with
      | .selectingEndpoint job _ =>
          (s.vendors.registry.getById job.vendorId.text).all (adapterReady s.vendors.registry)
      | _ => true
  | .reply =>
      match s.worker with
      | .storing job rest => rest.isEmpty || (callbackUrl job.payload).isSome
      | _ => true
  | _ => true

/-- The jobs that the pass has not begun with. -/
def Pc.rest : Pc → List Uuid
  | .closing rest | .refetching _ rest | .marking _ rest | .refreshing _ rest => rest
  | .selectingEndpoint _ rest | .rejecting _ _ rest | .calling _ _ rest => rest
  | .storing _ rest | .notifying _ rest => rest
  | .stopped | .sleeping | .fetching => []

/-- The job that the pass has begun with and not committed as done. -/
def Pc.current : Pc → Option Uuid
  | .refetching id _ => some id
  | .marking job _ | .refreshing job _ | .selectingEndpoint job _ => some job.id
  | .rejecting job _ _ | .calling job _ _ | .storing job _ => some job.id
  | .stopped | .sleeping | .fetching | .closing _ | .notifying _ _ => none

/-- How far the pass has got with its jobs. -/
structure Pass (jobs : Uuid → Option JobRow) (batch : List Uuid) (current : Option Uuid)
    (rest : List Uuid) : Prop where
  member : ∀ id ∈ batch, id ∈ rest ∨ current = some id ∨ Done jobs id
  waiting : ∀ id ∈ rest, id ∈ batch ∧ Pending jobs id
  nodup : rest.Nodup
  begun : ∀ id, current = some id → id ∈ batch ∧ id ∉ rest

namespace Pass

variable {jobs jobs' : Uuid → Option JobRow} {batch rest : List Uuid} {current : Option Uuid}
  {id : Uuid}

theorem empty (jobs : Uuid → Option JobRow) : Pass jobs [] none [] :=
  ⟨nofun, nofun, List.nodup_nil, nofun⟩

theorem fetched (hNodup : batch.Nodup) (hPending : ∀ id ∈ batch, Pending jobs id) :
    Pass jobs batch none batch :=
  ⟨fun _ hMem => Or.inl hMem, fun id hMem => ⟨hMem, hPending id hMem⟩, hNodup, nofun⟩

theorem frame (h : Pass jobs batch current rest) (hDone : ∀ id, Done jobs id → Done jobs' id)
    (hPending : ∀ id ∈ rest, Pending jobs id → Pending jobs' id) :
    Pass jobs' batch current rest where
  member id' hMem := by
    rcases h.member id' hMem with hRest | hCurrent | hOld
    · exact Or.inl hRest
    · exact Or.inr (Or.inl hCurrent)
    · exact Or.inr (Or.inr (hDone id' hOld))
  waiting id' hMem := ⟨(h.waiting id' hMem).1, hPending id' hMem (h.waiting id' hMem).2⟩
  nodup := h.nodup
  begun := h.begun

theorem begin (h : Pass jobs batch none (id :: rest)) :
    Pass jobs batch (some id) rest ∧ Pending jobs id := by
  obtain ⟨hNotMem, hNodup⟩ := List.nodup_cons.mp h.nodup
  refine ⟨⟨fun id' hMem => ?_, fun id' hMem => h.waiting id' (List.mem_cons_of_mem _ hMem), hNodup,
    fun id' hSame => ?_⟩, (h.waiting id List.mem_cons_self).2⟩
  · rcases h.member id' hMem with hRest | hCurrent | hDone
    · rcases List.mem_cons.mp hRest with rfl | hTail
      · exact Or.inr (Or.inl rfl)
      · exact Or.inl hTail
    · cases hCurrent
    · exact Or.inr (Or.inr hDone)
  · obtain rfl := Option.some.inj hSame
    exact ⟨(h.waiting id List.mem_cons_self).1, hNotMem⟩

theorem finish (h : Pass jobs batch (some id) rest) (hDone : Done jobs id) :
    Pass jobs batch none rest := by
  refine ⟨fun id' hMem => ?_, h.waiting, h.nodup, nofun⟩
  rcases h.member id' hMem with hRest | hCurrent | hOld
  · exact Or.inl hRest
  · obtain rfl := Option.some.inj hCurrent
    exact Or.inr (Or.inr hDone)
  · exact Or.inr (Or.inr hOld)

/-- A pass without open jobs has done them all. -/
theorem done (h : Pass jobs batch none []) (hMem : id ∈ batch) : Done jobs id := by
  rcases h.member id hMem with hRest | hCurrent | hDone
  · cases hRest
  · cases hCurrent
  · exact hDone

end Pass

section Steps

variable {s t : State} {calls batch : List Uuid} {e : Event}

theorem done_step {id : Uuid} (h : Invariant (s, calls)) (hStep : Step s e t)
    (hDone : Done s.jobs id) : Done t.jobs id := by
  obtain ⟨row, hRow, hStatus⟩ := hDone
  obtain ⟨row', hRow', hAdvances⟩ := advances_step h hStep hRow
  refine ⟨row', hRow', ?_⟩
  rcases hAdvances with rfl | ⟨hMoves, -⟩
  · exact hStatus
  · generalize row'.status = status' at hMoves ⊢
    rcases hStatus with hStatus | hStatus <;>
    · rw [hStatus] at hMoves
      cases hMoves

/-- The worker writes only the job that it has begun with. -/
theorem current_of_draft {draft : JobRow} (hDraft : s.worker.draft = some draft) :
    s.worker.current = some draft.id := by
  generalize s.worker = pc at hDraft ⊢
  cases pc with
  | marking job rest | rejecting job reason rest | storing job rest =>
      obtain rfl := Option.some.inj hDraft
      rfl
  | _ => cases hDraft

theorem pending_step {id : Uuid} (h : Invariant (s, calls)) (hStep : Step s e t)
    (hOther : s.worker.current ≠ some id) (hPending : Pending s.jobs id) : Pending t.jobs id := by
  obtain ⟨row, hRow, hStatus⟩ := hPending
  refine ⟨row, ?_, hStatus⟩
  rcases jobs_cases hStep with hSame | ⟨id', _, _, _, _, job, _, hFresh, _, hNew⟩ |
    ⟨draft, hDraft, hCommit⟩
  · rw [hSame, hRow]
  · rw [hNew, update_of_fresh hFresh hRow]
  · have hNe : id ≠ draft.id := by
      rintro rfl
      exact hOther (current_of_draft hDraft)
    rw [jobs_of_commit h hDraft hCommit, Function.update_of_ne hNe, hRow]

theorem frame_step (h : Invariant (s, calls)) (hStep : Step s e t)
    (hPass : Pass s.jobs batch s.worker.current s.worker.rest) :
    Pass t.jobs batch s.worker.current s.worker.rest := by
  refine hPass.frame (fun _ hDone => done_step h hStep hDone) fun id hMem hPending => ?_
  exact pending_step h hStep (fun hCurrent => (hPass.begun id hCurrent).2 hMem) hPending

/-- What the worker has committed before it goes on to the next job. -/
theorem done_of_commit {draft : JobRow} {jobs : Uuid → Option JobRow} (h : Invariant (s, calls))
    (hDraft : s.worker.draft = some draft) (hCommit : commit s.jobs draft = some jobs)
    (hStatus : draft.status ≠ .inProgress) : Done jobs draft.id := by
  obtain ⟨row, -, hMoves, -⟩ := draft_spec h hDraft
  refine ⟨draft, by rw [jobs_of_commit h hDraft hCommit, Function.update_self], ?_⟩
  generalize row.status = before at hMoves
  generalize draft.status = status at hMoves hStatus ⊢
  cases hMoves with
  | start => exact absurd rfl hStatus
  | complete => exact Or.inl rfl
  | fail => exact Or.inr rfl

end Steps

/-- What the worker knows of its pass. -/
structure InPass (p : State × List Uuid) : Prop where
  pass : Pass p.1.jobs p.2 p.1.worker.current p.1.worker.rest
  next : ∀ id rest, p.1.worker = .refetching id rest → Pending p.1.jobs id

section Passes

variable {s t : State} {calls batch : List Uuid} {e : Event} {jobs : Uuid → Option JobRow}
  {rest : List Uuid}

theorem inPass_afterClosing {v : Coherence.State} (h : Pass jobs batch none rest) :
    InPass (⟨jobs, v, afterClosing rest⟩, batch) := by
  cases rest with
  | nil => exact ⟨h, nofun⟩
  | cons id rest =>
      obtain ⟨hPass, hPending⟩ := h.begin
      refine ⟨hPass, fun id' rest' hPc => ?_⟩
      cases hPc
      exact hPending

/-- The next job is still pending, so that it is started. -/
theorem inPass_afterRefetching {v : Coherence.State} {id : Uuid}
    (hId : ∀ id row, jobs id = some row → row.id = id) (h : Pass jobs batch (some id) rest)
    (hPending : Pending jobs id) :
    InPass (⟨jobs, v, afterRefetching (jobs id) rest⟩, batch) := by
  obtain ⟨row, hRow, hStatus⟩ := hPending
  have hAfter : afterRefetching (jobs id) rest = .marking row.start rest := by
    rw [hRow, afterRefetching, if_pos hStatus]
  have hSame : row.start.id = id := hId id row hRow
  rw [hAfter]
  refine ⟨?_, nofun⟩
  show Pass jobs batch (some row.start.id) rest
  rw [hSame]
  exact h

/-- Unless its adapter cannot be built, the job stays the current one. -/
theorem inPass_afterSelectEndpoint {v : Coherence.State} {r : VendorRegistry} {job : JobRow}
    {row : Option VendorEndpoint} (hAgree : r.Agree) (h : Pass jobs batch (some job.id) rest)
    (hReady : ∀ endpoint config, row = some endpoint → r.getById job.vendorId.text = some config →
      adapterReady r config = true) :
    InPass (⟨jobs, v, (afterSelectEndpoint r job rest row).2⟩, batch) := by
  rcases afterSelectEndpoint_cases hAgree job rest row with ⟨-, hAfter⟩ |
    ⟨endpoint, hRow, ⟨-, hAfter⟩ | ⟨config, hGet, ⟨hNot, -⟩ | ⟨-, r', -, hAfter⟩⟩⟩
  · rw [hAfter]
    exact ⟨h, nofun⟩
  · rw [hAfter]
    exact ⟨h, nofun⟩
  · rw [hReady endpoint config hRow hGet] at hNot
    cases hNot
  · rw [hAfter]
    exact ⟨h, nofun⟩

/-- Behind the last commit the pass goes on, unless an exception ends it. -/
theorem inPass_afterStoring {v : Coherence.State} {job : JobRow} (h : Pass jobs batch none rest)
    (hHeaders : callbackUrl job.payload = none → rest = []) :
    InPass (⟨jobs, v, afterStoring job rest⟩, batch) := by
  unfold afterStoring
  split
  case h_1 hRaises =>
    obtain rfl := hHeaders hRaises
    exact ⟨h, nofun⟩
  case h_2 => exact ⟨h, nofun⟩
  case h_3 =>
    split_ifs
    · exact ⟨h, nofun⟩
    · exact ⟨h, nofun⟩

/-- After the vendor call the job is not in progress any more. -/
theorem status_of_storing {job : JobRow} (h : Knows jobs calls (.storing job rest)) :
    job.status ≠ .inProgress := by
  obtain ⟨row, result, hRuns, rfl⟩ := h
  have hMoves := moves_afterCall hRuns.2 result
  intro hSame
  rw [hRuns.2, hSame] at hMoves
  cases hMoves

theorem inPass_step (hInv : Invariant (s, calls)) (hAgree : s.vendors.registry.Agree)
    (h : InPass (s, batch)) (hAnswers : answers e = true) (hRunnable : runnable s e = true)
    (hStep : Step s e t) : InPass (t, recordBatch s e batch) := by
  have hFrame := frame_step hInv hStep h.pass
  have hKnows := hInv.knows
  cases hStep with
  | created id vendorId endpointId requestedBy requestPayload job hFresh hCreated =>
      refine ⟨hFrame, fun id' rest hPc => ?_⟩
      obtain ⟨row, hRow, hPending⟩ := h.next id' rest hPc
      exact ⟨row, update_of_fresh hFresh hRow, hPending⟩
  | others e vendors hVendors => exact ⟨hFrame, h.next⟩
  | woke hPc => exact ⟨.empty _, nofun⟩
  | fetched ids hPc hNodup hPending => exact ⟨.fetched hNodup hPending, nofun⟩
  | closed rest hPc =>
      simp only [hPc] at hFrame
      exact inPass_afterClosing hFrame
  | refetched id rest hPc =>
      simp only [hPc] at hFrame
      exact inPass_afterRefetching hInv.id hFrame (h.next id rest hPc)
  | marked job rest jobs hPc hCommit =>
      simp only [hPc] at hFrame
      exact ⟨hFrame, nofun⟩
  | refreshed job row rest hPc hRow =>
      simp only [hPc] at hFrame hKnows
      obtain rfl := Option.some.inj (hKnows.1.1.symm.trans hRow)
      exact ⟨hFrame, nofun⟩
  | selected job rest row hPc hRow =>
      simp only [hPc] at hFrame
      refine inPass_afterSelectEndpoint hAgree hFrame fun endpoint config hFound hGet => ?_
      subst hFound
      simpa [runnable, hPc, hGet] using hRunnable
  | rejected job reason rest jobs hPc hCommit =>
      simp only [hPc] at hFrame
      have hDraft : s.worker.draft = some (job.reject reason) := congrArg Pc.draft hPc
      have hDone := done_of_commit hInv hDraft hCommit nofun
      exact ⟨hFrame.finish hDone, nofun⟩
  | answered job call rest result hPc =>
      simp only [hPc] at hFrame
      refine ⟨?_, nofun⟩
      show Pass s.jobs batch (some (job.afterCall result).id) rest
      rw [(frame_afterCall job result).id]
      exact hFrame
  | stored job rest jobs hPc hCommit =>
      simp only [hPc] at hFrame hKnows
      have hDraft : s.worker.draft = some job := congrArg Pc.draft hPc
      have hDone := done_of_commit hInv hDraft hCommit (status_of_storing hKnows)
      refine inPass_afterStoring (hFrame.finish hDone) fun hRaises => ?_
      simpa [runnable, hPc, hRaises] using hRunnable
  | notified job rest hPc =>
      simp only [hPc] at hFrame
      exact ⟨hFrame, nofun⟩
  | raised executed hPc => cases hAnswers
  | cancelled executed => exact ⟨.empty _, nofun⟩
  | restarted executed refreshInterval => exact ⟨.empty _, nofun⟩

/-- A step that cannot be run leaves a job of the pass open when it ends. -/
theorem not_settled_step (hInv : Invariant (s, calls)) (hAgree : s.vendors.registry.Agree)
    (h : InPass (s, batch)) (hNot : runnable s e = false) (hStep : Step s e t) :
    ¬Settled (t, recordBatch s e batch) := by
  intro hSettled
  have hFrame := frame_step hInv hStep h.pass
  have hKnows := hInv.knows
  cases hStep with
  | selected job rest row hPc hRow =>
      simp only [hPc] at hFrame hKnows
      rcases afterSelectEndpoint_cases hAgree job rest row with ⟨rfl, -⟩ |
        ⟨endpoint, rfl, ⟨hGet, -⟩ | ⟨config, hGet, ⟨-, hAfter⟩ | ⟨hReady, -⟩⟩⟩
      · cases hNot
      · simp [runnable, hPc, hGet] at hNot
      · have hMem : job.id ∈ batch := (hFrame.begun job.id rfl).1
        obtain ⟨row, hRow, hStatus⟩ := hSettled (congrArg Prod.snd hAfter) job.id hMem
        obtain rfl := Option.some.inj (hKnows.1.1.symm.trans hRow)
        rw [hKnows.1.2] at hStatus
        rcases hStatus with hStatus | hStatus <;> cases hStatus
      · simp [runnable, hPc, hGet, hReady] at hNot
  | stored job rest jobs hPc hCommit =>
      simp only [hPc] at hFrame
      cases rest with
      | nil => simp [runnable, hPc] at hNot
      | cons id rest =>
          have hRaises : callbackUrl job.payload = none := by simpa [runnable, hPc] using hNot
          obtain ⟨hMem, row, hRow, hPending⟩ := hFrame.waiting id List.mem_cons_self
          have hAfter : afterStoring job (id :: rest) = .sleeping := by
            simp only [afterStoring, hRaises]
          obtain ⟨row', hRow', hStatus⟩ := hSettled hAfter id hMem
          obtain rfl := Option.some.inj (hRow.symm.trans hRow')
          rw [hPending] at hStatus
          rcases hStatus with hStatus | hStatus <;> cases hStatus
  | closed rest hPc | refetched id rest hPc | marked job rest jobs hPc hCommit =>
      simp [runnable, hPc] at hNot
  | refreshed job row rest hPc hRow | rejected job reason rest jobs hPc hCommit =>
      simp [runnable, hPc] at hNot
  | _ => cases hNot

end Passes

/-- The database answers, and what is run can be. -/
def Smooth (p : State × List Uuid) (e : Event) : Prop :=
  answers e = true ∧ runnable p.1 e = true

instance (p : State × List Uuid) (e : Event) : Decidable (Smooth p e) :=
  inferInstanceAs (Decidable (_ ∧ _))

theorem inPass_run {p : State × List Uuid} (run : batched.Reaches Smooth p) : InPass p := by
  induction run with
  | init start =>
      obtain ⟨⟨-, -, hWorker⟩, hBatch⟩ := start
      refine ⟨?_, fun id rest hPc => ?_⟩
      · rw [hWorker, hBatch]
        exact .empty _
      · rw [hWorker] at hPc
        cases hPc
  | @step p q e prior hSmooth next ih =>
      obtain ⟨t, rfl, hStep⟩ := recorded_cases next
      obtain ⟨calls, hInvariant⟩ := exists_invariant prior
      exact inPass_step hInvariant (vendors_run prior).agree ih hSmooth.1 hSmooth.2 hStep

theorem settled_of_inPass {p : State × List Uuid} (h : InPass p) : Settled p := by
  intro hPc id hMem
  have hPass := h.pass
  rw [hPc] at hPass
  exact hPass.done hMem

/-- While the database answers and each job can be run, a pass that ends has
completed or failed every job that it fetched. The first step at which a job
cannot be run ends the pass with a job that is neither. -/
theorem batch_settled {p : State × List Uuid} (run : batched.Reaches Smooth p) :
    Settled p ∧ ∀ e q, answers e = true → batched.step p e = some q →
      (Settled q ↔ runnable p.1 e = true) := by
  refine ⟨settled_of_inPass (inPass_run run), fun e q hAnswers next => ⟨fun hSettled => ?_,
    fun hRunnable => ?_⟩⟩
  · by_contra hNot
    obtain ⟨calls, hInvariant⟩ := exists_invariant run
    obtain ⟨t, rfl, hStep⟩ := recorded_cases next
    exact not_settled_step hInvariant (vendors_run run).agree (inPass_run run)
      (Bool.eq_false_iff.mpr hNot) hStep hSettled
  · exact settled_of_inPass (inPass_run (.step run ⟨hAnswers, hRunnable⟩ next))

/-- Jobs that the proxy route creates have an object of headers. -/
theorem callbackUrl_of_proxy {vendorId endpointId : Uuid} {requestedBy : String}
    {request : Routes.Inbound} {job : Job}
    (hJob : createJob vendorId endpointId requestedBy (some request.requestPayload) = some job) :
    (callbackUrl (job.requestPayload.getD Dict.empty)).isSome = true := by
  have hMember := get?_createJob hJob "headers"
  obtain ⟨fields, hFields⟩ : ∃ fields, request.requestPayload.get? "headers" = some (.obj fields) :=
    ⟨_, rfl⟩
  rw [hFields] at hMember
  rw [callbackUrl, hMember]
  rfl

section Traces

/-- An administrator takes the settings from a vendor of type OAuth 2. -/
def brokenTable : Coherence.Table :=
  ⟨[{ Coherence.sampleVendor "KEY" with authType := "oauth2", authConfig := [] }], by simp⟩

/-- Two jobs are created, and fetched together. -/
def twoJobs : List Event :=
  [.create sampleId sampleId sampleId "u" none, .create otherId sampleId sampleId "u" none,
    .pendingRows [sampleId, otherId]]

/-- One job whose call fails and one that completes. -/
def settledTrace : List Event :=
  load ++ twoJobs ++ upToEndpoint ++ [.endpointRow (some sampleEndpoint),
    .called (.raised "down"), .reply] ++ upToEndpoint ++ [.endpointRow (some sampleEndpoint),
    .called (.response ⟨200, [], []⟩ (.ok "")), .reply, .reply]

/-- The pass has ended with jobs in these states. -/
def ends (status status' : Status) (p : State × List Uuid) : Bool :=
  (match p.1.worker with
    | .sleeping => true
    | _ => false) &&
  decide (p.2 = [sampleId, otherId]) &&
  (p.1.jobs sampleId).any (fun row => decide (row.status = status)) &&
  (p.1.jobs otherId).any (fun row => decide (row.status = status'))

theorem batch_settled_two : ∃ p, ends .failed .completed p = true ∧ Settled p ∧
    ∀ e q, answers e = true → batched.step p e = some q → (Settled q ↔ runnable p.1 e = true) := by
  obtain ⟨p, run, hEnds⟩ : ∃ p, batched.Reaches Smooth p ∧ ends .failed .completed p = true :=
    System.Reaches.exec_any (.init ⟨init_sampleStart, rfl⟩)
      (by decide +kernel : (batched.exec Smooth (sampleStart, []) settledTrace).any
        (ends .failed .completed) = true)
  exact ⟨p, hEnds, batch_settled run⟩

def strandedTrace : List Event :=
  load ++ twoJobs ++ .vendors (.commit brokenTable) :: load ++ upToEndpoint ++
    [.endpointRow (some sampleEndpoint)]

/-- No adapter can be built: one job stays in progress, the other is not run. -/
theorem batch_stranded : ∃ p, batched.Reaches (fun _ e => answers e = true) p ∧
    ends .inProgress .pending p = true ∧ ¬Settled p := by
  obtain ⟨p, run, hEnds⟩ : ∃ p, batched.Reaches (fun _ e => answers e = true) p ∧
      ends .inProgress .pending p = true :=
    System.Reaches.exec_any (.init ⟨init_sampleStart, rfl⟩)
      (by decide +kernel : (batched.exec (fun _ e => answers e = true) (sampleStart, [])
        strandedTrace).any (ends .inProgress .pending) = true)
  refine ⟨p, run, hEnds, fun hSettled => ?_⟩
  simp only [ends, Bool.and_eq_true, Option.any_eq_true, decide_eq_true_eq] at hEnds
  obtain ⟨⟨⟨hSleeping, hBatch⟩, -⟩, row, hRow, hPending⟩ := hEnds
  have hWorker : p.1.worker = .sleeping := by
    split at hSleeping
    · assumption
    · cases hSleeping
  have hMem : otherId ∈ p.2 := by
    rw [hBatch]
    exact List.mem_cons_of_mem _ List.mem_cons_self
  obtain ⟨row', hRow', hStatus⟩ := hSettled hWorker otherId hMem
  obtain rfl := Option.some.inj (hRow.symm.trans hRow')
  rw [hPending] at hStatus
  rcases hStatus with hStatus | hStatus <;> cases hStatus

end Traces

end Gateway.Jobs.Worker
