import Gateway.Jobs.Batch
import Gateway.Jobs.Served

/-! The columns `created_at` and `updated_at` of the jobs. The database stamps a row
with the beginning of the transaction that writes it, and the worker may write a
row long after that. -/
namespace Gateway.Served

open Transition Gateway.Db Gateway.Jobs Gateway.Routes

/-- The columns `created_at` and `updated_at`. -/
structure Stamps where
  createdAt : ℚ
  updatedAt : ℚ

/-- History: when the open transaction of each request and that of the worker
began, and the stamps of the rows. -/
structure Sessions where
  opened : ℕ → ℚ
  begun : ℚ
  stamps : Uuid → Stamps

/-- The row that the worker commits in an event. -/
def written (s : Worker.State) : Worker.Event → Option Uuid
  | .reply => s.worker.draft.map Worker.JobRow.id
  | .raised executed | .cancel executed | .restart executed _ =>
      if executed then s.worker.draft.map Worker.JobRow.id else none
  | _ => none

/-- The worker goes on to the first statement of a transaction: of a new session,
or behind the commit that marks the job. -/
def opensTransaction (s : Worker.State) : Worker.Event → Bool
  | .reply =>
      match s.worker with
      | .closing (_ :: _) | .marking _ _ => true
      | _ => false
  | _ => false

/-- What the worker writes is stamped with the beginning of its transaction. -/
def Sessions.work (h : Sessions) (now : ℚ) (s : Worker.State) (e : Worker.Event) : Sessions :=
  { h with
    begun := if opensTransaction s e then now else h.begun
    stamps := fun id =>
      if written s e = some id then { h.stamps id with updatedAt := h.begun } else h.stamps id }

/-- The session of a request to an asynchronous endpoint begins with its query. -/
def recordSessions (s : State) (e : Event) (h : Sessions) : Sessions :=
  match e with
  | .route (.deliver r (.arrive _)) =>
      { h with opened := Function.update h.opened r s.routes.now }
  | .route _ => h
  | .store r id _ => { h with stamps := Function.update h.stamps id ⟨h.opened r, h.opened r⟩ }
  | .work e => h.work s.routes.now s.jobs e

def stamped (D : Deployment) : System (State × Sessions) Event :=
  (machine D).withHistory ⟨fun _ => 0, 0, fun _ => ⟨0, 0⟩⟩ recordSessions

section Worker

variable {s t : Worker.State} {e : Worker.Event} {calls : List Uuid} {id : Uuid}

/-- The worker takes up the next job of its pass where a transaction begins. -/
theorem current_afterClosing {rest : List Uuid} (h : (Worker.afterClosing rest).current = some id) :
    id ∈ rest ∧ ∃ tail, rest = id :: tail := by
  cases rest with
  | nil => cases h
  | cons id' rest =>
      obtain rfl := Option.some.inj h
      exact ⟨List.mem_cons_self, rest, rfl⟩

theorem current_afterRefetching {jobs : Uuid → Option Worker.JobRow} {id' : Uuid} {rest : List Uuid}
    (hId : ∀ id row, jobs id = some row → row.id = id)
    (h : (Worker.afterRefetching (jobs id') rest).current = some id) : id = id' := by
  unfold Worker.afterRefetching at h
  split at h
  case h_1 => cases h
  case h_2 job hRow =>
    split_ifs at h
    · obtain rfl := Option.some.inj h
      exact hId id' job hRow
    · cases h

theorem current_afterSelectEndpoint {r : Vendors.VendorRegistry} {job : Worker.JobRow} {rest : List Uuid}
    {row : Option VendorEndpoint} (h : (Worker.afterSelectEndpoint r job rest row).2.current = some id) :
    id = job.id := by
  unfold Worker.afterSelectEndpoint at h
  split at h
  · exact (Option.some.inj h).symm
  · split at h
    · exact (Option.some.inj h).symm
    · split at h
      · exact (Option.some.inj h).symm
      · cases h
      · exact (Option.some.inj h).symm

theorem current_afterStoring {job : Worker.JobRow} {rest : List Uuid} :
    (Worker.afterStoring job rest).current = none := by
  unfold Worker.afterStoring
  split
  · rfl
  · rfl
  · split_ifs <;> rfl

/-- The job that the worker is at is the one it was at, or the next one of its
pass, with a new transaction. -/
theorem current_of_step (h : Worker.Invariant (s, calls)) (hStep : Worker.Step s e t)
    (hCurrent : t.worker.current = some id) :
    s.worker.current = some id ∨ id ∈ s.worker.rest ∧ opensTransaction s e = true := by
  cases hStep with
  | created => exact Or.inl hCurrent
  | others => exact Or.inl hCurrent
  | closed rest hPc =>
      obtain ⟨hMem, tail, rfl⟩ := current_afterClosing hCurrent
      exact Or.inr ⟨by rw [hPc]; exact hMem, by simp [opensTransaction, hPc]⟩
  | refetched id' rest hPc =>
      obtain rfl := current_afterRefetching h.id hCurrent
      exact Or.inl (by rw [hPc]; rfl)
  | marked job rest jobs hPc _ => exact Or.inl (by rw [hPc]; exact hCurrent)
  | refreshed job row rest hPc hRow =>
      obtain rfl := Option.some.inj hCurrent
      exact Or.inl (by rw [hPc]; exact congrArg some (h.id _ _ hRow).symm)
  | selected job rest row hPc _ =>
      obtain rfl := current_afterSelectEndpoint hCurrent
      exact Or.inl (by rw [hPc]; rfl)
  | answered job call rest result hPc =>
      obtain rfl := Option.some.inj hCurrent
      exact Or.inl (by rw [hPc]; exact congrArg some (Worker.frame_afterCall job result).id.symm)
  | stored job rest jobs hPc _ =>
      rw [current_afterStoring] at hCurrent
      cases hCurrent
  | _ => cases hCurrent

theorem rest_afterSelectEndpoint {r : Vendors.VendorRegistry} {job : Worker.JobRow}
    {rest : List Uuid} {row : Option VendorEndpoint}
    (h : id ∈ (Worker.afterSelectEndpoint r job rest row).2.rest) : id ∈ rest := by
  unfold Worker.afterSelectEndpoint at h
  split at h
  · exact h
  · split at h
    · exact h
    · split at h
      · exact h
      · cases h
      · exact h

theorem rest_afterStoring {job : Worker.JobRow} {rest : List Uuid}
    (h : id ∈ (Worker.afterStoring job rest).rest) : id ∈ rest := by
  unfold Worker.afterStoring at h
  split at h
  · cases h
  · exact h
  · split_ifs at h <;> exact h

/-- The jobs that the worker has yet to begin with were fetched. -/
theorem rest_of_step (hStep : Worker.Step s e t) (hMem : id ∈ t.worker.rest) :
    id ∈ s.worker.rest ∨ ∃ row, s.jobs id = some row := by
  cases hStep with
  | created => exact Or.inl hMem
  | others => exact Or.inl hMem
  | fetched ids hPc _ hPending =>
      obtain ⟨row, hRow, _⟩ := hPending id hMem
      exact Or.inr ⟨row, hRow⟩
  | closed rest hPc =>
      refine Or.inl ?_
      rw [hPc]
      cases rest with
      | nil => cases hMem
      | cons id' rest => exact List.mem_cons_of_mem _ hMem
  | refetched id' rest hPc =>
      refine Or.inl ?_
      rw [hPc]
      unfold Worker.afterRefetching at hMem
      split at hMem
      · exact hMem
      · split_ifs at hMem <;> exact hMem
  | marked job rest jobs hPc _ => exact Or.inl (by rw [hPc]; exact hMem)
  | refreshed job row rest hPc _ => exact Or.inl (by rw [hPc]; exact hMem)
  | selected job rest row hPc _ => exact Or.inl (by rw [hPc]; exact rest_afterSelectEndpoint hMem)
  | rejected job reason rest jobs hPc _ => exact Or.inl (by rw [hPc]; exact hMem)
  | answered job call rest result hPc => exact Or.inl (by rw [hPc]; exact hMem)
  | stored job rest jobs hPc _ => exact Or.inl (by rw [hPc]; exact rest_afterStoring hMem)
  | notified job rest hPc => exact Or.inl (by rw [hPc]; exact hMem)
  | _ => cases hMem

/-- What the worker writes is the job that it is at. -/
theorem draft_of_written (h : written s e = some id) :
    ∃ draft, s.worker.draft = some draft ∧ draft.id = id := by
  have hDraft : s.worker.draft.map Worker.JobRow.id = some id := by
    cases e with
    | reply => exact h
    | raised executed => exact (Option.ite_none_right_eq_some.mp h).2
    | cancel executed => exact (Option.ite_none_right_eq_some.mp h).2
    | restart executed refreshInterval => exact (Option.ite_none_right_eq_some.mp h).2
    | _ => cases h
  exact Option.map_eq_some_iff.mp hDraft

end Worker

/-- No stamp lies in the future, and the open transaction of the worker began
when the row of its job was there already. -/
structure Timely (p : State × Sessions) : Prop where
  opened : ∀ r, p.2.opened r ≤ p.1.routes.now
  begun : p.2.begun ≤ p.1.routes.now
  dates : ∀ id row, p.1.jobs.jobs id = some row →
    (p.2.stamps id).createdAt ≤ (p.2.stamps id).updatedAt ∧
      (p.2.stamps id).updatedAt ≤ p.1.routes.now
  waiting : ∀ id ∈ p.1.jobs.worker.rest, ∃ row, p.1.jobs.jobs id = some row
  current : ∀ id, p.1.jobs.worker.current = some id →
    (∃ row, p.1.jobs.jobs id = some row) ∧ (p.2.stamps id).updatedAt ≤ p.2.begun

section Sessions

variable {D : Deployment} {s t : State} {h : Sessions} {e : Event} {calls : List Uuid}

theorem now_of_route {σ τ : Routes.State} {e : Routes.Event} (next : D.machine.step σ e = some τ) :
    σ.now ≤ τ.now := by
  rcases Routes.step_cases next with ⟨dt, -, hdt, rfl⟩ | ⟨_, _, _, _, -, -, rfl⟩
  · exact le_add_of_nonneg_right hdt
  · exact le_rfl

theorem now_of_deliver {σ τ : Routes.State} {r : ℕ} {input : Input}
    (next : D.machine.step σ (.deliver r input) = some τ) : τ.now = σ.now := by
  rcases Routes.step_cases next with ⟨dt, hEvent, -⟩ | ⟨_, _, _, _, -, -, rfl⟩
  · cases hEvent
  · rfl

/-- Requests change no stamps, and open their transactions now. -/
theorem recordSessions_route (e : Routes.Event) :
    (recordSessions s (.route e) h).stamps = h.stamps ∧
      (recordSessions s (.route e) h).begun = h.begun ∧
      ∀ r, (recordSessions s (.route e) h).opened r = h.opened r ∨
        (recordSessions s (.route e) h).opened r = s.routes.now := by
  cases e with
  | elapse dt => exact ⟨rfl, rfl, fun _ => Or.inl rfl⟩
  | deliver r input =>
      cases input with
      | arrive request =>
          refine ⟨rfl, rfl, fun w => ?_⟩
          by_cases hw : w = r
          · subst hw
            exact Or.inr (Function.update_self ..)
          · exact Or.inl (Function.update_of_ne hw _ _)
      | _ => exact ⟨rfl, rfl, fun _ => Or.inl rfl⟩

theorem timely_route {routes : Routes.State} {e : Routes.Event} (hTimely : Timely (s, h))
    (next : D.machine.step s.routes e = some routes) :
    Timely (⟨routes, s.jobs⟩, recordSessions s (.route e) h) := by
  obtain ⟨hStamps, hBegun, hOpened⟩ := recordSessions_route (s := s) (h := h) e
  have hNow := now_of_route next
  refine ⟨fun r => ?_, ?_, fun id row hRow => ?_, hTimely.waiting, fun id hCurrent => ?_⟩
  · rcases hOpened r with hOld | hNew
    · exact hOld.le.trans ((hTimely.opened r).trans hNow)
    · exact hNew.le.trans hNow
  · exact hBegun.le.trans (hTimely.begun.trans hNow)
  · rw [hStamps]
    exact ⟨(hTimely.dates id row hRow).1, (hTimely.dates id row hRow).2.trans hNow⟩
  · rw [hStamps, hBegun]
    exact hTimely.current id hCurrent

theorem timely_store {routes : Routes.State} {jobs : Worker.State} {r : ℕ} {id : Uuid}
    {refreshed : Bool} {job : JobRequest} (hTimely : Timely (s, h))
    (hCreate : Worker.step s.jobs (job.create id) = some jobs)
    (next : D.machine.step s.routes (.deliver r (stored id refreshed)) = some routes) :
    Timely (⟨routes, jobs⟩, recordSessions s (.store r id refreshed) h) := by
  have hNow := now_of_deliver next
  have hStep : Worker.Step s.jobs (job.create id) jobs := Worker.step_cases hCreate
  unfold JobRequest.create at hStep
  cases hStep with
  | created _ _ _ _ _ new hFresh _ =>
      have hOld : ∀ id' row, s.jobs.jobs id' = some row → id' ≠ id := by
        rintro id' row hRow rfl
        rw [hFresh] at hRow
        cases hRow
      refine ⟨fun r' => ?_, ?_, fun id' row hRow => ?_, fun id' hMem => ?_, fun id' hCurrent => ?_⟩
      · exact (hTimely.opened r').trans hNow.ge
      · exact hTimely.begun.trans hNow.ge
      · rcases Worker.row_of_update hRow with ⟨rfl, -⟩ | ⟨hNe, hBefore⟩
        · simp only [recordSessions, Function.update_self]
          exact ⟨le_rfl, (hTimely.opened r).trans hNow.ge⟩
        · simp only [recordSessions, Function.update_of_ne hNe]
          exact ⟨(hTimely.dates id' row hBefore).1, (hTimely.dates id' row hBefore).2.trans hNow.ge⟩
      · obtain ⟨row, hRow⟩ := hTimely.waiting id' hMem
        exact ⟨row, Worker.update_of_fresh hFresh hRow⟩
      · obtain ⟨⟨row, hRow⟩, hBefore⟩ := hTimely.current id' hCurrent
        refine ⟨⟨row, Worker.update_of_fresh hFresh hRow⟩, ?_⟩
        simp only [recordSessions, Function.update_of_ne (hOld id' row hRow)]
        exact hBefore

theorem row_before_work {jobs : Worker.State} {e : Worker.Event} {id : Uuid} {row : Worker.JobRow}
    (hInvariant : Worker.Invariant (s.jobs, calls)) (hNew : createsJob e = false)
    (hStep : Worker.Step s.jobs e jobs) (hRow : jobs.jobs id = some row) :
    ∃ before, s.jobs.jobs id = some before := by
  rcases Worker.jobs_cases hStep with hSame | ⟨_, _, _, _, _, _, rfl, -⟩ | ⟨draft, hDraft, hCommit⟩
  · exact ⟨row, hSame ▸ hRow⟩
  · cases hNew
  · rw [Worker.jobs_of_commit hInvariant hDraft hCommit] at hRow
    rcases Worker.row_of_update hRow with ⟨rfl, -⟩ | ⟨-, hBefore⟩
    · obtain ⟨before, hBefore, -⟩ := Worker.draft_spec hInvariant hDraft
      exact ⟨before, hBefore⟩
    · exact ⟨row, hBefore⟩

/-- A stamp is kept, or moves on to the beginning of the worker's transaction. -/
theorem stamps_work (now : ℚ) (e : Worker.Event) (id : Uuid) :
    ((h.work now s.jobs e).stamps id).createdAt = (h.stamps id).createdAt ∧
      ((h.work now s.jobs e).stamps id = h.stamps id ∨
        ((h.work now s.jobs e).stamps id).updatedAt = h.begun ∧
          s.jobs.worker.current = some id) := by
  by_cases hWritten : written s.jobs e = some id
  · obtain ⟨draft, hDraft, rfl⟩ := draft_of_written hWritten
    simp only [Sessions.work, if_pos hWritten]
    exact ⟨trivial, Or.inr ⟨trivial, Worker.current_of_draft hDraft⟩⟩
  · simp only [Sessions.work, if_neg hWritten]
    exact ⟨trivial, Or.inl trivial⟩

theorem updated_work {now : ℚ} {e : Worker.Event} {id : Uuid} (hTimely : Timely (s, h)) :
    (h.stamps id).updatedAt ≤ ((h.work now s.jobs e).stamps id).updatedAt := by
  rcases (stamps_work now e id).2 with hSame | ⟨hBegun, hCurrent⟩
  · rw [hSame]
  · rw [hBegun]
    exact (hTimely.current id hCurrent).2

theorem timely_work {jobs : Worker.State} {e : Worker.Event} (hTimely : Timely (s, h))
    (hInvariant : Worker.Invariant (s.jobs, calls)) (hNew : createsJob e = false)
    (hStep : Worker.Step s.jobs e jobs) :
    Timely (⟨s.routes, jobs⟩, recordSessions s (.work e) h) := by
  have hKept : ∀ id, (∃ row, s.jobs.jobs id = some row) → ∃ row, jobs.jobs id = some row := by
    rintro id ⟨row, hRow⟩
    obtain ⟨row', hRow', -⟩ := Worker.advances_step hInvariant hStep hRow
    exact ⟨row', hRow'⟩
  have hBegun : h.begun ≤ (h.work s.routes.now s.jobs e).begun := by
    simp only [Sessions.work]
    split_ifs
    · exact hTimely.begun
    · exact le_rfl
  have hPast : ∀ id, (∃ row, s.jobs.jobs id = some row) →
      ((h.work s.routes.now s.jobs e).stamps id).updatedAt ≤ s.routes.now := by
    rintro id ⟨row, hRow⟩
    rcases (stamps_work s.routes.now e id).2 with hSame | ⟨hWritten, -⟩
    · rw [hSame]
      exact (hTimely.dates id row hRow).2
    · rw [hWritten]
      exact hTimely.begun
  refine ⟨hTimely.opened, ?_, fun id row hRow => ?_, fun id hMem => ?_, fun id hCurrent => ?_⟩
  · simp only [recordSessions, Sessions.work]
    split_ifs
    · exact le_rfl
    · exact hTimely.begun
  · obtain ⟨before, hBefore⟩ := row_before_work hInvariant hNew hStep hRow
    refine ⟨?_, hPast id ⟨before, hBefore⟩⟩
    calc ((h.work s.routes.now s.jobs e).stamps id).createdAt
        = (h.stamps id).createdAt := (stamps_work s.routes.now e id).1
      _ ≤ (h.stamps id).updatedAt := (hTimely.dates id before hBefore).1
      _ ≤ ((h.work s.routes.now s.jobs e).stamps id).updatedAt := updated_work hTimely
  · rcases rest_of_step hStep hMem with hBefore | hRow
    · exact hKept id (hTimely.waiting id hBefore)
    · exact hKept id hRow
  · rcases current_of_step hInvariant hStep hCurrent with hBefore | ⟨hMem, hOpens⟩
    · obtain ⟨hRow, hUpdated⟩ := hTimely.current id hBefore
      refine ⟨hKept id hRow, ?_⟩
      rcases (stamps_work s.routes.now e id).2 with hSame | ⟨hWritten, -⟩
      · exact (congrArg Stamps.updatedAt hSame).le.trans (hUpdated.trans hBegun)
      · exact hWritten.le.trans hBegun
    · have hRow := hTimely.waiting id hMem
      have hNow : (h.work s.routes.now s.jobs e).begun = s.routes.now := by
        simp only [Sessions.work, if_pos hOpens]
      exact ⟨hKept id hRow, (hPast id hRow).trans hNow.ge⟩

end Sessions

section Runs

variable {D : Deployment} {p q : State × Sessions} {e : Event}

theorem jobs_invariant (run : (stamped D).Reaches System.anyRun p) :
    ∃ calls, Worker.Invariant (p.1.jobs, calls) := by
  obtain ⟨history, hRun⟩ : ∃ history, Worker.recorded.Reaches
      (fun p e => System.anyRun p.1 e) (p.1.jobs, history) := (jobs_of_run run).remember
  obtain ⟨calls, hInvariant⟩ := Worker.exists_invariant hRun
  exact ⟨calls, hInvariant⟩

theorem creates_of_step {s t : State} {e : Worker.Event} (next : (machine D).step s (.work e) = some t) :
    createsJob e = false := by
  cases hCreates : createsJob e with
  | false => rfl
  | true => simp [machine, hCreates] at next

theorem timely_run (run : (stamped D).Reaches System.anyRun p) : Timely p := by
  induction run with
  | init hInit =>
      obtain ⟨⟨⟨hNow, -, -⟩, hJobs, -, hWorker⟩, hSessions⟩ := hInit
      refine ⟨fun r => ?_, ?_, fun id row hRow => ?_, fun id hMem => ?_, fun id hCurrent => ?_⟩
      · rw [hSessions]
        exact hNow
      · rw [hSessions]
        exact hNow
      · rw [hJobs id] at hRow
        cases hRow
      · rw [hWorker] at hMem
        cases hMem
      · rw [hWorker] at hCurrent
        cases hCurrent
  | @step p q e prior _ next ih =>
      obtain ⟨s, h⟩ := p
      obtain ⟨calls, hInvariant⟩ := jobs_invariant prior
      obtain ⟨t, h'⟩ := q
      obtain ⟨hStep, hRecord⟩ := System.withHistory_step next
      simp only at hStep hRecord hInvariant
      rw [hRecord]
      have hCases := step_cases hStep
      cases hCases with
      | route e routes hRoute => exact timely_route ih hRoute
      | store r id refreshed turn job jobs routes _ _ hCreate hRoute =>
          exact timely_store ih hCreate hRoute
      | work e jobs hWork =>
          exact timely_work ih hInvariant (creates_of_step hStep) (Worker.step_cases hWork)

end Runs

end Gateway.Served
