import Gateway.Jobs.Worker

/-! The life of a job in every run of the worker: its status only moves forward,
its row is well formed whenever it is committed, and its vendor is called at most
once, whatever raises and wherever the worker is cancelled or restarted. -/
namespace Gateway.Jobs.Worker

open Transition Gateway.Db Gateway.Vendors

inductive Moves : Status → Status → Prop where
  | start : Moves .pending .inProgress
  | complete : Moves .inProgress .completed
  | fail : Moves .inProgress .failed

theorem not_moves_pending {status : Status} (h : Moves status .pending) : False := by
  cases h

def JobRow.WellFormed (row : JobRow) : Prop :=
  match row.status with
  | .pending | .inProgress => row.responsePayload = none ∧ row.error = none
  | .completed => row.error = none ∧
      ∃ payload, row.responsePayload = some payload ∧ payload.statusCode < 400
  | .failed => row.error ≠ none

/-- The rows differ at most in what the worker assigns. -/
def Frame (row row' : JobRow) : Prop :=
  row' = { row with
    status := row'.status
    responsePayload := row'.responsePayload
    error := row'.error }

/-- What a step may do to a row: nothing, or one move of its status. -/
def Advances (row row' : JobRow) : Prop :=
  row' = row ∨ Moves row.status row'.status ∧ Frame row row'

/-- The job whose vendor call starts in this event. -/
def State.startsCall (s : State) : Event → Option Uuid
  | .endpointRow row =>
      match s.worker with
      | .selectingEndpoint job rest =>
          match (afterSelectEndpoint s.vendors.registry job rest row).2 with
          | .calling job _ _ => some job.id
          | _ => none
      | _ => none
  | _ => none

/-- History: the jobs whose vendor has been called, with repetitions. -/
def recordCall (s : State) (e : Event) (calls : List Uuid) : List Uuid :=
  (s.startsCall e).toList ++ calls

def recorded : System (State × List Uuid) Event := machine.withHistory [] recordCall

section Rows

variable {row row' job : JobRow} {jobs jobs' : Uuid → Option JobRow}

theorem frame_start (row : JobRow) : Frame row row.start := rfl

theorem frame_reject (row : JobRow) (reason : Rejection) : Frame row (row.reject reason) := rfl

theorem frame_afterCall (row : JobRow) (result : CallResult) : Frame row (row.afterCall result) := by
  cases result with
  | raised message => rfl
  | response r text =>
      cases text <;>
      · simp only [JobRow.afterCall, JobRow.answer]
        split_ifs <;> rfl

theorem Frame.id (h : Frame row row') : row'.id = row.id := by
  rw [h]

/-- A commit of changes to a row writes the changed object. -/
theorem commit_of_frame (hRow : jobs job.id = some row) (hFrame : Frame row job) :
    commit jobs job = some (Function.update jobs job.id (some job)) := by
  rw [commit, hRow, Option.map_some]
  exact congrArg (fun written => some (Function.update jobs job.id (some written))) hFrame.symm

/-- A new row takes the place of none. -/
theorem update_of_fresh {id id' : Uuid} {new : Option JobRow} (hFresh : jobs id = none)
    (hRow : jobs id' = some row) : Function.update jobs id new id' = some row := by
  have hOther : id' ≠ id := by
    rintro rfl
    rw [hFresh] at hRow
    cases hRow
  rw [Function.update_of_ne hOther, hRow]

/-- A row after one of them was written is the new one or one of the others. -/
theorem row_of_update {id id' : Uuid} (h : Function.update jobs id (some job) id' = some row) :
    id' = id ∧ row = job ∨ id' ≠ id ∧ jobs id' = some row := by
  by_cases hId : id' = id
  · subst hId
    rw [Function.update_self] at h
    exact Or.inl ⟨rfl, (Option.some.inj h).symm⟩
  · rw [Function.update_of_ne hId] at h
    exact Or.inr ⟨hId, h⟩

theorem wellFormed_of_createJob {id vendorId endpointId : Uuid} {requestedBy : String}
    {requestPayload : Option Jsonb.Object} {job : Job}
    (h : createJob vendorId endpointId requestedBy requestPayload = some job) :
    (JobRow.mk job id none none).WellFormed ∧ job.status = .pending := by
  unfold createJob at h
  split_ifs at h
  obtain ⟨stored, -, rfl⟩ := Option.map_eq_some_iff.mp h
  exact ⟨⟨rfl, rfl⟩, rfl⟩

theorem wellFormed_start (hWell : row.WellFormed) (hPending : row.status = .pending) :
    row.start.WellFormed := by
  unfold JobRow.WellFormed at hWell
  rw [hPending] at hWell
  exact hWell

theorem wellFormed_reject (row : JobRow) (reason : Rejection) : (row.reject reason).WellFormed := by
  intro hNone
  cases hNone

/-- The handler overwrites whatever status was set before. -/
theorem wellFormed_raise (row : JobRow) (message : String) : (row.raise message).WellFormed := by
  intro hNone
  cases hNone

theorem wellFormed_afterCall (hWell : row.WellFormed) (hRunning : row.status = .inProgress)
    (result : CallResult) : (row.afterCall result).WellFormed := by
  unfold JobRow.WellFormed at hWell
  rw [hRunning] at hWell
  cases result with
  | raised message => exact wellFormed_raise row message
  | response r text =>
      cases text with
      | error message => exact wellFormed_raise _ message
      | ok body =>
          simp only [JobRow.afterCall, JobRow.answer]
          split_ifs with hError
          · intro hNone
            cases hNone
          · exact ⟨hWell.2, _, rfl, Nat.lt_of_not_le hError⟩

theorem moves_afterCall (hRunning : row.status = .inProgress) (result : CallResult) :
    Moves row.status (row.afterCall result).status := by
  rw [hRunning]
  cases result with
  | raised message => exact .fail
  | response r text =>
      cases text with
      | error message => exact .fail
      | ok body =>
          simp only [JobRow.afterCall, JobRow.answer]
          split_ifs
          · exact .fail
          · exact .complete

end Rows

/-- The worker runs this committed job. -/
def Runs (jobs : Uuid → Option JobRow) (job : JobRow) : Prop :=
  jobs job.id = some job ∧ job.status = .inProgress

/-- What the worker knows of its job at each await. Nobody else changes it. -/
def Knows (jobs : Uuid → Option JobRow) (calls : List Uuid) : Pc → Prop
  | .marking job _ => ∃ row, jobs job.id = some row ∧ row.status = .pending ∧ job = row.start
  | .refreshing job _ => Runs jobs job ∧ job.id ∉ calls
  | .selectingEndpoint job _ => Runs jobs job ∧ job.id ∉ calls
  | .rejecting job _ _ => Runs jobs job
  | .calling job _ _ => Runs jobs job
  | .storing job _ => ∃ row result, Runs jobs row ∧ job = row.afterCall result
  | _ => True

/-- What every run keeps. -/
structure Invariant (p : State × List Uuid) : Prop where
  id : ∀ id row, p.1.jobs id = some row → row.id = id
  wellFormed : ∀ id row, p.1.jobs id = some row → row.WellFormed
  uncalled : ∀ id ∈ p.2, ∃ row, p.1.jobs id = some row ∧ row.status ≠ .pending
  once : p.2.Nodup
  knows : Knows p.1.jobs p.2 p.1.worker

section Preservation

variable {s t : State} {calls : List Uuid} {e : Event} {jobs jobs' : Uuid → Option JobRow}

/-- What the worker is about to commit is one move away from the row. -/
theorem draft_spec {draft : JobRow} (h : Invariant (s, calls)) (hDraft : s.worker.draft = some draft) :
    ∃ row, s.jobs draft.id = some row ∧ Moves row.status draft.status ∧ Frame row draft ∧
      draft.WellFormed ∧ (draft.status = .inProgress → draft.id ∉ calls) := by
  have hKnows := h.knows
  cases hPc : s.worker with
  | marking job rest =>
      rw [hPc] at hDraft hKnows
      obtain rfl := Option.some.inj hDraft
      obtain ⟨row, hRow, hPending, rfl⟩ := hKnows
      refine ⟨row, hRow, hPending ▸ .start, frame_start row,
        wellFormed_start (h.wellFormed _ row hRow) hPending, fun _ hMem => ?_⟩
      obtain ⟨row', hRow', hNot⟩ := h.uncalled _ hMem
      rw [hRow] at hRow'
      exact hNot (Option.some.inj hRow' ▸ hPending)
  | rejecting job reason rest =>
      rw [hPc] at hDraft hKnows
      obtain rfl := Option.some.inj hDraft
      exact ⟨job, hKnows.1, hKnows.2 ▸ .fail, frame_reject job reason, wellFormed_reject job reason,
        nofun⟩
  | storing job rest =>
      rw [hPc] at hDraft hKnows
      obtain rfl := Option.some.inj hDraft
      obtain ⟨row, result, hRuns, rfl⟩ := hKnows
      have hId := (frame_afterCall row result).id
      have hMoves := moves_afterCall hRuns.2 result
      refine ⟨row, hId ▸ hRuns.1, hMoves, frame_afterCall row result,
        wellFormed_afterCall (h.wellFormed _ row hRuns.1) hRuns.2 result, fun hSame => ?_⟩
      rw [hRuns.2, hSame] at hMoves
      cases hMoves
  | _ =>
      rw [hPc] at hDraft
      cases hDraft

/-- A commit of the worker writes its draft. -/
theorem jobs_of_commit {draft : JobRow} (h : Invariant (s, calls))
    (hDraft : s.worker.draft = some draft) (hCommit : commit s.jobs draft = some jobs) :
    jobs = Function.update s.jobs draft.id (some draft) := by
  obtain ⟨row, hRow, -, hFrame, -⟩ := draft_spec h hDraft
  rw [commit_of_frame hRow hFrame] at hCommit
  exact (Option.some.inj hCommit).symm

theorem advances_step {id : Uuid} {row : JobRow} (h : Invariant (s, calls)) (hStep : Step s e t)
    (hRow : s.jobs id = some row) : ∃ row', t.jobs id = some row' ∧ Advances row row' := by
  rcases jobs_cases hStep with hSame | ⟨id', _, _, _, _, job, _, hFresh, _, hNew⟩ |
    ⟨draft, hDraft, hCommit⟩
  · exact ⟨row, hSame ▸ hRow, Or.inl rfl⟩
  · exact ⟨row, by rw [hNew, update_of_fresh hFresh hRow], Or.inl rfl⟩
  · rw [jobs_of_commit h hDraft hCommit]
    by_cases hId : id = draft.id
    · subst hId
      obtain ⟨row', hRow', hMoves, hFrame, -⟩ := draft_spec h hDraft
      rw [hRow] at hRow'
      obtain rfl := Option.some.inj hRow'
      exact ⟨draft, Function.update_self .., Or.inr ⟨hMoves, hFrame⟩⟩
    · exact ⟨row, by rw [Function.update_of_ne hId, hRow], Or.inl rfl⟩

/-- A row after a step was there, is new, or is what the worker has committed. -/
theorem rows_cases {id : Uuid} {row : JobRow} (h : Invariant (s, calls)) (hStep : Step s e t)
    (hRow : t.jobs id = some row) : s.jobs id = some row ∨ row.id = id ∧ row.WellFormed := by
  rcases jobs_cases hStep with hSame | ⟨id', _, _, _, _, job, _, _, hCreated, hNew⟩ |
    ⟨draft, hDraft, hCommit⟩
  · exact Or.inl (hSame ▸ hRow)
  · rw [hNew] at hRow
    rcases row_of_update hRow with ⟨rfl, rfl⟩ | ⟨-, hOld⟩
    · exact Or.inr ⟨rfl, (wellFormed_of_createJob hCreated).1⟩
    · exact Or.inl hOld
  · rw [jobs_of_commit h hDraft hCommit] at hRow
    rcases row_of_update hRow with ⟨rfl, rfl⟩ | ⟨-, hOld⟩
    · obtain ⟨-, -, -, -, hWell, -⟩ := draft_spec h hDraft
      exact Or.inr ⟨rfl, hWell⟩
    · exact Or.inl hOld

theorem startsCall_eq_some {id : Uuid} (h : s.startsCall e = some id) :
    ∃ job rest row, e = .endpointRow row ∧ s.worker = .selectingEndpoint job rest ∧ job.id = id := by
  unfold State.startsCall at h
  split at h
  case h_1 row =>
    split at h
    case h_1 job rest hPc =>
      refine ⟨job, rest, row, rfl, hPc, ?_⟩
      -- the job stays the same on the way to its call
      unfold afterSelectEndpoint at h
      split at h
      case h_1 job' call rest' hCalling =>
        split at hCalling
        · cases hCalling
        · split at hCalling
          · cases hCalling
          · split at hCalling <;> cases hCalling
            exact Option.some.inj h
      case h_2 => cases h
    case h_2 => cases h
  case h_2 => cases h

/-- A row that stays keeps what is known about it. -/
theorem knows_mono {pc : Pc} (hRows : ∀ id row, jobs id = some row → jobs' id = some row)
    (h : Knows jobs calls pc) : Knows jobs' calls pc := by
  cases pc with
  | marking job rest =>
      obtain ⟨row, hRow, hRest⟩ := h
      exact ⟨row, hRows _ _ hRow, hRest⟩
  | refreshing job rest => exact ⟨⟨hRows _ _ h.1.1, h.1.2⟩, h.2⟩
  | selectingEndpoint job rest => exact ⟨⟨hRows _ _ h.1.1, h.1.2⟩, h.2⟩
  | rejecting job reason rest => exact ⟨hRows _ _ h.1, h.2⟩
  | calling job call rest => exact ⟨hRows _ _ h.1, h.2⟩
  | storing job rest =>
      obtain ⟨row, result, hRuns, hJob⟩ := h
      exact ⟨row, result, ⟨hRows _ _ hRuns.1, hRuns.2⟩, hJob⟩
  | _ => trivial

theorem knows_afterClosing (rest : List Uuid) : Knows jobs calls (afterClosing rest) := by
  cases rest <;> trivial

theorem knows_afterRefetching {id : Uuid} (rest : List Uuid)
    (hId : ∀ id row, jobs id = some row → row.id = id) :
    Knows jobs calls (afterRefetching (jobs id) rest) := by
  unfold afterRefetching
  split
  case h_1 => trivial
  case h_2 row hRow =>
    split_ifs with hPending
    · have hSame : row.start.id = id := hId id row hRow
      exact ⟨row, hSame ▸ hRow, hPending, rfl⟩
    · trivial

theorem knows_afterSelectEndpoint {job : JobRow} (rest : List Uuid) (registry : VendorRegistry)
    (row : Option VendorEndpoint) (hRuns : Runs jobs job) :
    Knows jobs calls (afterSelectEndpoint registry job rest row).2 := by
  unfold afterSelectEndpoint
  split
  · exact hRuns
  · split
    · exact hRuns
    · split
      · exact hRuns
      · trivial
      · exact hRuns

theorem knows_afterStoring (job : JobRow) (rest : List Uuid) :
    Knows jobs calls (afterStoring job rest) := by
  unfold afterStoring
  split
  · trivial
  · trivial
  · split_ifs <;> trivial

theorem knows_step (h : Invariant (s, calls)) (hStep : Step s e t) :
    Knows t.jobs (recordCall s e calls) t.worker := by
  have hKnows := h.knows
  cases hStep with
  | created id vendorId endpointId requestedBy requestPayload job hFresh hCreated =>
      exact knows_mono (fun id' row hRow => update_of_fresh hFresh hRow) hKnows
  | others e vendors hVendors => exact hKnows
  | closed rest hPc => exact knows_afterClosing rest
  | refetched id rest hPc => exact knows_afterRefetching rest h.id
  | marked job rest jobs hPc hCommit =>
      have hDraft : s.worker.draft = some job := congrArg Pc.draft hPc
      obtain ⟨row, -, hMoves, -, -, hUncalled⟩ := draft_spec h hDraft
      simp only [hPc] at hKnows
      obtain ⟨row, -, -, rfl⟩ := hKnows
      refine ⟨⟨?_, rfl⟩, hUncalled rfl⟩
      show jobs row.start.id = some row.start
      rw [jobs_of_commit h hDraft hCommit, Function.update_self]
  | refreshed job row rest hPc hRow =>
      simp only [hPc] at hKnows
      obtain rfl := Option.some.inj (hKnows.1.1.symm.trans hRow)
      exact hKnows
  | selected job rest row hPc hRow =>
      simp only [hPc] at hKnows
      exact knows_afterSelectEndpoint rest s.vendors.registry row hKnows.1
  | answered job call rest result hPc =>
      simp only [hPc] at hKnows
      exact ⟨job, result, hKnows, rfl⟩
  | stored job rest jobs hPc hCommit => exact knows_afterStoring job rest
  | _ => trivial

theorem Invariant.step (h : Invariant (s, calls)) (hStep : Step s e t) :
    Invariant (t, recordCall s e calls) where
  id id row hRow := by
    rcases rows_cases h hStep hRow with hOld | ⟨hId, -⟩
    · exact h.id id row hOld
    · exact hId
  wellFormed id row hRow := by
    rcases rows_cases h hStep hRow with hOld | ⟨-, hWell⟩
    · exact h.wellFormed id row hOld
    · exact hWell
  uncalled id hMem := by
    have hBefore : ∃ row, s.jobs id = some row ∧ row.status ≠ .pending := by
      rcases List.mem_append.mp hMem with hNew | hOld
      · obtain ⟨job, rest, row, rfl, hPc, rfl⟩ := startsCall_eq_some (Option.mem_toList.mp hNew)
        have hKnows := h.knows
        simp only [hPc] at hKnows
        refine ⟨job, hKnows.1.1, ?_⟩
        rw [hKnows.1.2]
        exact nofun
      · exact h.uncalled id hOld
    obtain ⟨row, hRow, hNot⟩ := hBefore
    obtain ⟨row', hRow', hAdvances⟩ := advances_step h hStep hRow
    refine ⟨row', hRow', fun hPending => ?_⟩
    rcases hAdvances with rfl | ⟨hMoves, -⟩
    · exact hNot hPending
    · rw [hPending] at hMoves
      exact not_moves_pending hMoves
  once := by
    cases hStart : s.startsCall e with
    | none =>
        simp only [recordCall, hStart]
        exact h.once
    | some id =>
        obtain ⟨job, rest, row, rfl, hPc, rfl⟩ := startsCall_eq_some hStart
        have hKnows := h.knows
        simp only [hPc] at hKnows
        simp only [recordCall, hStart]
        exact List.nodup_cons.mpr ⟨hKnows.2, h.once⟩
  knows := knows_step h hStep

end Preservation

theorem invariant_run {p : State × List Uuid} (run : recorded.Reaches System.anyRun p) :
    Invariant p := by
  induction run with
  | init start =>
      obtain ⟨⟨hJobs, -, hWorker⟩, hCalls⟩ := start
      refine ⟨fun id row hRow => ?_, fun id row hRow => ?_, fun id hMem => ?_, ?_, ?_⟩
      · rw [hJobs id] at hRow
        cases hRow
      · rw [hJobs id] at hRow
        cases hRow
      · rw [hCalls] at hMem
        cases hMem
      · rw [hCalls]
        exact List.nodup_nil
      · rw [hWorker]
        trivial
  | @step p q e prior _ next ih =>
      obtain ⟨t, rfl, hStep⟩ := recorded_cases next
      exact ih.step hStep

/-- Whatever else is recorded of a run, the jobs and the worker keep the invariant. -/
theorem exists_invariant {History : Type*} {start : History}
    {record : State → Event → History → History} {allowed : State × History → Event → Prop}
    {p : State × History} (run : (machine.withHistory start record).Reaches allowed p) :
    ∃ calls, Invariant (p.1, calls) := by
  obtain ⟨calls, hRun⟩ : ∃ calls, recorded.Reaches (fun p e => System.anyRun p.1 e) (p.1, calls) :=
    run.forget.remember
  exact ⟨calls, invariant_run (hRun.mono fun _ _ _ => trivial)⟩

/-- In every run each vendor is called at most once for a job, each committed
row is well formed, and a step moves a committed status at most forward. -/
theorem job_lifecycle {p : State × List Uuid} (run : recorded.Reaches System.anyRun p) :
    p.2.Nodup ∧ (∀ id row, p.1.jobs id = some row → row.WellFormed) ∧
      ∀ e q, recorded.step p e = some q → ∀ id row, p.1.jobs id = some row →
        ∃ row', q.1.jobs id = some row' ∧ Advances row row' := by
  have hInvariant := invariant_run run
  refine ⟨hInvariant.once, hInvariant.wellFormed, fun e q next id row hRow => ?_⟩
  obtain ⟨t, rfl, hStep⟩ := recorded_cases next
  exact advances_step hInvariant hStep hRow

/-- The worker is cancelled in the middle of a call of a first job, and a new
process completes a second one; the first stays in progress. -/
def cancelled : List Event :=
  load ++ .create sampleId sampleId sampleId "u" none :: .pendingRows [sampleId] ::
    upToEndpoint ++ [.endpointRow (some sampleEndpoint), .cancel false, .restart false 60] ++
    load ++ .create otherId sampleId sampleId "u" none :: .pendingRows [otherId] ::
    upToEndpoint ++ [.endpointRow (some sampleEndpoint),
      .called (.response ⟨200, [], []⟩ (.ok "")), .reply, .reply]

def endsWith (status status' : Status) (p : State × List Uuid) : Bool :=
  (p.1.jobs sampleId).any (fun row => decide (row.status = status)) &&
    (p.1.jobs otherId).any (fun row => decide (row.status = status')) &&
    decide (p.2 = [otherId, sampleId])

theorem job_lifecycle_cancelled : ∃ p, endsWith .inProgress .completed p = true ∧
    p.2.Nodup ∧ (∀ id row, p.1.jobs id = some row → row.WellFormed) ∧
      ∀ e q, recorded.step p e = some q → ∀ id row, p.1.jobs id = some row →
        ∃ row', q.1.jobs id = some row' ∧ Advances row row' := by
  obtain ⟨p, run, hEnd⟩ : ∃ p, recorded.Reaches System.anyRun p ∧
      endsWith .inProgress .completed p = true :=
    System.Reaches.exec_any (.init ⟨init_sampleStart, rfl⟩)
      (by decide +kernel : (recorded.exec System.anyRun (sampleStart, []) cancelled).any
        (endsWith .inProgress .completed) = true)
  exact ⟨p, hEnd, job_lifecycle run⟩

end Gateway.Jobs.Worker
