import Gateway.Jobs.Batch
import Gateway.Semantics.Ranking

/-! A pass of `_process_pending_jobs` comes to its end: it fetches at most 50
jobs, and `run_job` waits at most seven times for each of them. -/
namespace Gateway.Jobs.Worker

open Transition Gateway.Db Gateway.Vendors

/-- The worker begins its next pass. -/
def beginsPass (_ : State) : Event → Bool
  | .wake | .restart _ _ => true
  | _ => false

/-- An await of the worker ends. -/
def endsAwait (_ : State) : Event → ℕ
  | .pendingRows _ | .reply | .endpointRow _ | .called _ | .notified | .raised _ => 1
  | .create .. | .vendors _ | .wake | .cancel _ | .restart _ _ => 0

/-- The awaits that the pass has yet to go through, at most. -/
def Pc.budget : Pc → ℕ
  | .stopped | .sleeping => 0
  | .fetching => 402
  | .closing rest => 8 * rest.length + 1
  | .refetching _ rest => 8 * rest.length + 8
  | .marking _ rest => 8 * rest.length + 7
  | .refreshing _ rest => 8 * rest.length + 6
  | .selectingEndpoint _ rest => 8 * rest.length + 5
  | .calling _ _ rest => 8 * rest.length + 4
  | .storing _ rest => 8 * rest.length + 3
  | .rejecting _ _ rest | .notifying _ rest => 8 * rest.length + 2

section Steps

variable {s t : State} {e : Event}

theorem budget_afterClosing (rest : List Uuid) :
    1 + (afterClosing rest).budget ≤ (Pc.closing rest).budget := by
  cases rest with
  | nil => simp [afterClosing, Pc.budget]
  | cons id rest =>
      simp only [afterClosing, Pc.budget, List.length_cons]
      omega

theorem budget_afterRefetching (id : Uuid) (row : Option JobRow) (rest : List Uuid) :
    1 + (afterRefetching row rest).budget ≤ (Pc.refetching id rest).budget := by
  unfold afterRefetching
  split
  · simp only [Pc.budget]
    omega
  · split_ifs <;> simp only [Pc.budget] <;> omega

theorem budget_afterSelectEndpoint (registry : VendorRegistry) (job : JobRow) (rest : List Uuid)
    (endpoint : Option VendorEndpoint) :
    1 + (afterSelectEndpoint registry job rest endpoint).2.budget ≤
      (Pc.selectingEndpoint job rest).budget := by
  unfold afterSelectEndpoint
  split
  · simp only [Pc.budget]
    omega
  · split
    · simp only [Pc.budget]
      omega
    · split <;> simp only [Pc.budget] <;> omega

theorem budget_afterStoring (job : JobRow) (rest : List Uuid) :
    1 + (afterStoring job rest).budget ≤ (Pc.storing job rest).budget := by
  unfold afterStoring
  split
  · simp only [Pc.budget]
    omega
  · simp only [Pc.budget]
    omega
  · split_ifs <;> simp only [Pc.budget] <;> omega

theorem budget_of_onDatabase {pc : Pc} (h : pc.onDatabase = true) : 1 ≤ pc.budget := by
  cases pc <;> simp_all [Pc.onDatabase, Pc.budget]

theorem length_of_pendingRows {ids : List Uuid} (h : step s (.pendingRows ids) = some t) :
    ids.length ≤ 50 := by
  simp only [step] at h
  split_ifs at h with hRows
  exact hRows.2.1

/-- Every await that ends uses up budget, and nothing else does. -/
theorem budget_of_step (next : machine.step s e = some t) (hPass : beginsPass s e = false) :
    endsAwait s e + t.worker.budget ≤ s.worker.budget := by
  cases step_cases next with
  | created => exact (Nat.zero_add _).le
  | others => exact (Nat.zero_add _).le
  | woke hPc => cases hPass
  | fetched ids hPc =>
      have hFew := length_of_pendingRows next
      rw [hPc]
      simp only [endsAwait, Pc.budget]
      omega
  | closed rest hPc =>
      rw [hPc]
      exact budget_afterClosing rest
  | refetched id rest hPc =>
      rw [hPc]
      exact budget_afterRefetching id _ rest
  | marked job rest jobs hPc hCommit =>
      rw [hPc]
      simp only [endsAwait, Pc.budget]
      omega
  | refreshed job row rest hPc hRow =>
      rw [hPc]
      simp only [endsAwait, Pc.budget]
      omega
  | selected job rest row hPc hRow =>
      rw [hPc]
      exact budget_afterSelectEndpoint _ job rest row
  | rejected job reason rest jobs hPc hCommit =>
      rw [hPc]
      simp only [endsAwait, Pc.budget]
      omega
  | answered job call rest result hPc =>
      rw [hPc]
      simp only [endsAwait, Pc.budget]
      omega
  | stored job rest jobs hPc hCommit =>
      rw [hPc]
      exact budget_afterStoring job rest
  | notified job rest hPc =>
      rw [hPc]
      simp only [endsAwait, Pc.budget]
      omega
  | raised executed hPc => exact budget_of_onDatabase hPc
  | cancelled executed => exact Nat.zero_le _
  | restarted executed refreshInterval => cases hPass

/-- The worker is within a pass. -/
def State.busy (s : State) : Bool :=
  match s.worker with
  | .stopped | .sleeping => false
  | _ => true

/-- A call of the vendor ends with a response and its text. -/
def responds : Event → Bool
  | .called (.response _ (.ok _)) => true
  | .called _ => false
  | _ => true

/-- The pending await is answered, without a failure and in this process. -/
def Answered (s : State) (e : Event) : Prop :=
  endsAwait s e = 1 ∧ answers e = true ∧ responds e = true

instance (s : State) (e : Event) : Decidable (Answered s e) := inferInstanceAs (Decidable (_ ∧ _ ∧ _))

theorem reply_of_commit {draft : JobRow} {calls : List Uuid} (h : Invariant (s, calls))
    (hDraft : s.worker.draft = some draft) : ∃ jobs, commit s.jobs draft = some jobs := by
  obtain ⟨row, hRow, -, hFrame, -⟩ := draft_spec h hDraft
  exact ⟨_, commit_of_frame hRow hFrame⟩

/-- Within a pass the pending await can be answered: the rows are there. -/
theorem exists_answered {calls : List Uuid} (h : Invariant (s, calls)) (hBusy : s.busy = true) :
    ∃ e t, machine.step s e = some t ∧ Answered s e ∧ beginsPass s e = false := by
  obtain ⟨jobs, vendors, worker⟩ := s
  cases worker with
  | stopped => cases hBusy
  | sleeping => cases hBusy
  | fetching => exact ⟨.pendingRows [], _, by simp [machine, step]; rfl, ⟨rfl, rfl, rfl⟩, rfl⟩
  | closing rest => exact ⟨.reply, _, rfl, ⟨rfl, rfl, rfl⟩, rfl⟩
  | refetching id rest => exact ⟨.reply, _, rfl, ⟨rfl, rfl, rfl⟩, rfl⟩
  | marking job rest =>
      obtain ⟨jobs', hCommit⟩ := reply_of_commit h rfl
      exact ⟨.reply, _, by simp [machine, step, reply, hCommit]; rfl, ⟨rfl, rfl, rfl⟩, rfl⟩
  | refreshing job rest =>
      have hRow : jobs job.id = some job := h.knows.1.1
      exact ⟨.reply, _, by simp [machine, step, reply, hRow]; rfl, ⟨rfl, rfl, rfl⟩, rfl⟩
  | selectingEndpoint job rest =>
      exact ⟨.endpointRow none, _, by simp [machine, step]; rfl, ⟨rfl, rfl, rfl⟩, rfl⟩
  | rejecting job reason rest =>
      obtain ⟨jobs', hCommit⟩ := reply_of_commit h rfl
      exact ⟨.reply, _, by simp [machine, step, reply, hCommit]; rfl, ⟨rfl, rfl, rfl⟩, rfl⟩
  | calling job call rest => exact
      ⟨.called (.response ⟨200, [], []⟩ (.ok "")), _, rfl, ⟨rfl, rfl, rfl⟩, rfl⟩
  | storing job rest =>
      obtain ⟨jobs', hCommit⟩ := reply_of_commit h rfl
      exact ⟨.reply, _, by simp [machine, step, reply, hCommit]; rfl, ⟨rfl, rfl, rfl⟩, rfl⟩
  | notifying job rest => exact ⟨.notified, _, rfl, ⟨rfl, rfl, rfl⟩, rfl⟩

end Steps

theorem exists_lower {s : State} (run : machine.Reaches System.anyRun s) (hBusy : s.busy = true) :
    ∃ t, (machine.startingAt s).Reaches Answered t ∧ t.worker.budget < s.worker.budget := by
  obtain ⟨history, hRun⟩ :
      ∃ history, recorded.Reaches (fun p e => System.anyRun p.1 e) (s, history) := run.remember
  obtain ⟨calls, hInvariant⟩ := exists_invariant hRun
  simp only at hInvariant
  obtain ⟨e, t, next, hAnswered, hPass⟩ := exists_answered hInvariant hBusy
  have hUsed := budget_of_step next hPass
  rw [hAnswered.1] at hUsed
  have hNext : (machine.startingAt s).step s e = some t := next
  exact ⟨t, .step (.init rfl) hAnswered hNext, by omega⟩

/-- A pass of the worker goes through at most 402 awaits, whatever fails, and
while it lasts answers alone can bring it to its end. -/
theorem pass_ends (p : State × ℕ)
    (run : (machine.lapped beginsPass endsAwait).Reaches (fun p e => System.anyRun p.1 e) p) :
    p.2 ≤ 402 ∧ ∃ t, (machine.startingAt p.1).Reaches Answered t ∧ t.busy = false := by
  have hRun : machine.Reaches System.anyRun p.1 := System.Reaches.unmetered run
  constructor
  · have hInit : ∀ s, machine.init s → s.worker.budget ≤ 402 := by
      intro s hInit
      rw [hInit.2.2]
      rfl
    have hReset : ∀ s e t, machine.Reaches System.anyRun s → System.anyRun s e →
        machine.step s e = some t →
        beginsPass s e = true → t.worker.budget ≤ 402 := by
      intro s e t _ _ next hPass
      cases step_cases next with
      | woke hPc => exact le_rfl
      | restarted executed refreshInterval => exact le_rfl
      | _ => cases hPass
    have hSpent := run.lap_le hInit hReset fun _ _ _ _ _ next hPass => budget_of_step next hPass
    omega
  · have hLower : ∀ s, (machine.startingAt p.1).Reaches Answered s → ¬s.busy = false →
        ∃ t, (machine.startingAt s).Reaches Answered t ∧ t.worker.budget < s.worker.budget := by
      intro s rest hNot
      have hWhole : machine.Reaches System.anyRun s := hRun.trans (rest.mono fun _ _ _ => trivial)
      exact exists_lower hWhole (Bool.of_not_eq_false hNot)
    have hStart : (machine.startingAt p.1).Reaches Answered p.1 := .init rfl
    exact hStart.descend hLower

/-- A first job is fetched and about to be called. -/
theorem pass_ends_calling :
    ∃ p, (machine.lapped beginsPass endsAwait).Reaches (fun p e => System.anyRun p.1 e) p ∧ p.2 = 6 ∧
      p.2 ≤ 402 ∧ ∃ t, (machine.startingAt p.1).Reaches Answered t ∧ t.busy = false := by
  have hDone : ((machine.lapped beginsPass endsAwait).exec
      (fun p e => System.anyRun p.1 e) (sampleStart, 0)
      (load ++ .create sampleId sampleId sampleId "u" none :: .pendingRows [sampleId] ::
        upToEndpoint ++ [.endpointRow (some sampleEndpoint)])).any
      (fun p => decide (p.2 = 6)) = true := by
    decide +kernel
  obtain ⟨p, run, hCheck⟩ := System.Reaches.exec_any (.init (System.init_lapped init_sampleStart)) hDone
  exact ⟨p, run, of_decide_eq_true hCheck, pass_ends p run⟩

end Gateway.Jobs.Worker
