import Gateway.Jobs.Accounting
import Gateway.Jobs.Batch
import Gateway.Jobs.Fidelity

/-! The webhook of a job: whether its caller hears exactly once what the job has
come to. The URL travels from a header of the request through the payload of the
job, and `run_job` has several places at which a job ends. -/
namespace Gateway.Served

open Transition Gateway.Db Gateway.Jobs Gateway.Routes

/-- The JSON that `_fire_webhook` posts. -/
structure Webhook where
  jobId : Uuid
  status : Status
  result : Option Worker.ResponsePayload
  error : Option String

def webhook (job : Worker.JobRow) : Webhook where
  jobId := job.id
  status := job.status
  result := job.responsePayload
  error := job.error

/-- A job is committed as completed or failed, or a webhook is posted. -/
inductive Entry where
  | committed (job : Worker.JobRow)
  | posted (url : String) (body : Webhook)

def Entry.jobId : Entry → Uuid
  | .committed job => job.id
  | .posted _ body => body.jobId

@[simp] theorem Entry.jobId_committed (job : Worker.JobRow) : (Entry.committed job).jobId = job.id :=
  rfl

/-- The job that the pending commit completes or fails. -/
def ending : Worker.Pc → Option Worker.JobRow
  | .rejecting job reason _ => some (job.reject reason)
  | .storing job _ => some job
  | _ => none

/-- The job that an event commits as completed or failed. -/
def finished (pc : Worker.Pc) : Worker.Event → Option Worker.JobRow
  | .reply => ending pc
  | .raised executed | .cancel executed | .restart executed _ => if executed then ending pc else none
  | _ => none

/-- `_fire_webhook` -/
def fireWebhook : Worker.Pc → List Entry
  | .notifying job _ =>
      match Worker.callbackUrl job.payload with
      | some (some url) => [.posted url (webhook job)]
      | _ => []
  | _ => []

/-- The worker goes on to a webhook only when a commit is answered. -/
def posted (s : Worker.State) : Worker.Event → List Entry
  | .reply => (Worker.reply s).elim [] fun t => fireWebhook t.worker
  | _ => []

/-- History: the request that each job was created for, and what has happened
about the jobs, the latest first. -/
structure Ledger where
  request : Uuid → Option Inbound
  log : List Entry

def Ledger.about (h : Ledger) (id : Uuid) : List Entry := h.log.filter fun entry => entry.jobId = id

/-- What the worker adds to the history. -/
def Ledger.work (h : Ledger) (s : Worker.State) (e : Worker.Event) : Ledger :=
  { h with log := posted s e ++ ((finished s.worker e).toList.map .committed ++ h.log) }

def recordLedger (s : State) (e : Event) (h : Ledger) : Ledger :=
  match e with
  | .route _ => h
  | .store r id _ =>
      { h with
        request := Function.update h.request id ((s.routes.turn r).map fun turn => turn.ctx.request) }
  | .work e => h.work s.jobs e

def notified (D : Deployment) : System (State × Ledger) Event :=
  (machine D).withHistory ⟨fun _ => none, []⟩ recordLedger

/-- Of the lines with a name the last one counts. -/
def callbackHeader (request : Inbound) : Option String :=
  (Dict.ofList request.headers).get? "x-callback-url"

/-- The caller of a finished job has been told once if there is a callback
header: behind the commit, what was committed. -/
def Told (h : Ledger) (request : Inbound) (row : Worker.JobRow) : Prop :=
  ((∀ line ∈ request.headers, line.1 ≠ "x-callback-url") ∧ h.about row.id = [.committed row]) ∨
    ∃ url, ("x-callback-url", url) ∈ request.headers ∧
      h.about row.id = [.posted url (webhook row), .committed row]

/-- Nothing happens about a job before it is completed or failed. -/
structure WebhookOnce (p : State × Ledger) : Prop where
  before : ∀ id, ¬Worker.Done p.1.jobs.jobs id → p.2.about id = []
  after : ∀ id row, p.1.jobs.jobs id = some row → row.status = .completed ∨ row.status = .failed →
    ∃ request, p.2.request id = some request ∧ Told p.2 request row

/-- The database answers the commit behind the `try` block of `run_job`. -/
def storesResult (pc : Worker.Pc) : Worker.Event → Bool
  | .reply =>
      match pc with
      | .storing _ _ => true
      | _ => false
  | _ => false

/-- A job with a callback header is completed or failed only by the commit behind
the `try` block, and its URL is not empty. -/
def tells (p : State × Ledger) : Event → Bool
  | .work e =>
      (finished p.1.jobs.worker e).all fun job =>
        ((p.2.request job.id).bind callbackHeader).all fun url =>
          decide (url ≠ "") && storesResult p.1.jobs.worker e
  | _ => true

section Header

variable {vendorId endpointId : Uuid} {requestedBy : String} {request : Inbound} {job : Job}

/-- The URL that the worker reads is the one that the request carried. -/
theorem callbackUrl_createJob
    (hJob : createJob vendorId endpointId requestedBy (some request.requestPayload) = some job) :
    Worker.callbackUrl (job.requestPayload.getD Dict.empty) = some (callbackHeader request) := by
  have hMember := get?_createJob hJob "headers"
  have hHeaders : request.requestPayload.get? "headers" = some (.obj
      ((Dict.ofList (request.headers.map fun line => (Text.lower line.1, line.2))).filterKeys
        fun k => Text.lower k ≠ "authorization")) := rfl
  rw [hHeaders, lower_lines] at hMember
  rw [Worker.callbackUrl, hMember]
  have hKept : Text.lower "x-callback-url" ≠ "authorization" := by decide +kernel
  simp only [Option.map_some, Jsonb.Value.normal, Option.some.injEq]
  rw [Dict.get?_perm (Jsonb.normal_perm _), callbackHeader]
  apply Option.ext
  intro url
  rw [Dict.get?_eq_some, Dict.get?_eq_some, Dict.filterKeys, List.mem_filter]
  exact and_iff_left (decide_eq_true hKept)

theorem mem_of_callbackHeader {url : String} (h : callbackHeader request = some url) :
    ("x-callback-url", url) ∈ request.headers :=
  Dict.of_mem_ofList (Dict.get?_eq_some.mp h)

theorem not_carried_of_callbackHeader (h : callbackHeader request = none) :
    ∀ line ∈ request.headers, line.1 ≠ "x-callback-url" := by
  intro line hLine hName
  have hKey : "x-callback-url" ∈ (Dict.ofList request.headers).keys :=
    Dict.mem_keys_ofList.mpr (hName ▸ List.mem_map_of_mem hLine)
  obtain ⟨entry, hEntry, hSame⟩ := List.mem_map.mp hKey
  have hSome : callbackHeader request = some entry.2 :=
    Dict.get?_eq_some.mpr (hSame ▸ hEntry)
  rw [h] at hSome
  cases hSome

end Header

section Ending

variable {s t : Worker.State} {e : Worker.Event} {calls : List Uuid} {job : Worker.JobRow}

/-- A finished job is not open. -/
theorem not_open {status : Status} (h : status = .completed ∨ status = .failed) :
    status ≠ .pending ∧ status ≠ .inProgress := by
  rcases h with rfl | rfl <;> exact ⟨nofun, nofun⟩

theorem draft_of_ending (h : ending s.worker = some job) : s.worker.draft = some job := by
  generalize s.worker = pc at h ⊢
  cases pc with
  | rejecting | storing => exact h
  | _ => cases h

theorem ending_of_finished {pc : Worker.Pc} (h : finished pc e = some job) :
    ending pc = some job := by
  cases e with
  | reply => exact h
  | raised executed | cancel executed | restart executed interval =>
      simp only [finished] at h
      split_ifs at h
      exact h
  | _ => cases h

theorem not_running_of_ending (h : Worker.Invariant (s, calls))
    (hEnding : ending s.worker = some job) : job.status ≠ .inProgress := by
  have hKnows := h.knows
  cases hPc : s.worker with
  | rejecting running reason rest =>
      rw [hPc] at hEnding
      obtain rfl := Option.some.inj hEnding
      exact nofun
  | storing answered rest =>
      rw [hPc] at hEnding
      obtain rfl := Option.some.inj hEnding
      simp only [hPc] at hKnows
      exact Worker.status_of_storing hKnows
  | _ =>
      rw [hPc] at hEnding
      cases hEnding

/-- A job that is about to be finished is in progress, and nobody else writes it. -/
theorem row_of_ending (h : Worker.Invariant (s, calls)) (hEnding : ending s.worker = some job) :
    ∃ row, s.jobs job.id = some row ∧ row.status = .inProgress ∧ Worker.Frame row job ∧
      (job.status = .completed ∨ job.status = .failed) := by
  obtain ⟨row, hRow, hMoves, hFrame, -⟩ := Worker.draft_spec h (draft_of_ending hEnding)
  have hNot := not_running_of_ending h hEnding
  have hBoth : row.status = .inProgress ∧ (job.status = .completed ∨ job.status = .failed) := by
    generalize row.status = before at hMoves ⊢
    generalize job.status = status at hMoves hNot ⊢
    cases hMoves with
    | start => exact absurd rfl hNot
    | complete => exact ⟨rfl, Or.inl rfl⟩
    | fail => exact ⟨rfl, Or.inr rfl⟩
  exact ⟨row, hRow, hBoth.1, hFrame, hBoth.2⟩

theorem commit_of_ending (h : Worker.Invariant (s, calls)) (hEnding : ending s.worker = some job) :
    Worker.commit s.jobs job = some (Function.update s.jobs job.id (some job)) := by
  obtain ⟨row, hRow, -, hFrame, -⟩ := row_of_ending h hEnding
  exact Worker.commit_of_frame hRow hFrame

/-- An await that fails after its commit was executed has written the job. -/
theorem afterFailure_of_ending (h : Worker.Invariant (s, calls))
    (hEnding : ending s.worker = some job) :
    s.afterFailure true = Function.update s.jobs job.id (some job) := by
  have hCommit := commit_of_ending h hEnding
  rw [Worker.State.afterFailure, if_pos rfl, draft_of_ending hEnding]
  show (Worker.commit s.jobs job).getD s.jobs = _
  rw [hCommit]
  rfl

/-- The event that finishes a job writes it as it is. -/
theorem jobs_of_finished (h : Worker.Invariant (s, calls)) (hStep : Worker.Step s e t)
    (hFinished : finished s.worker e = some job) :
    t.jobs = Function.update s.jobs job.id (some job) := by
  have hEnding := ending_of_finished hFinished
  have hFailure := afterFailure_of_ending h hEnding
  have hDraft := draft_of_ending hEnding
  cases hStep with
  | rejected running reason rest jobs hPc hCommit =>
      rw [hPc] at hEnding
      obtain rfl := Option.some.inj hEnding
      exact Worker.jobs_of_commit h hDraft hCommit
  | stored answered rest jobs hPc hCommit =>
      rw [hPc] at hEnding
      obtain rfl := Option.some.inj hEnding
      exact Worker.jobs_of_commit h hDraft hCommit
  | raised executed | cancelled executed | restarted executed =>
      cases executed with
      | false => cases hFinished
      | true => exact hFailure
  | closed rest hPc | refetched id rest hPc | marked running rest jobs hPc hCommit
  | refreshed running row rest hPc hRow =>
      rw [hPc] at hEnding
      cases hEnding
  | _ => cases hFinished

/-- What a commit of the worker writes but does not finish is in progress. -/
theorem running_of_draft (h : Worker.Invariant (s, calls)) (hOpen : ending s.worker = none)
    (hDraft : s.worker.draft = some job) : job.status = .inProgress := by
  have hKnows := h.knows
  cases hPc : s.worker with
  | marking started rest =>
      rw [hPc] at hDraft
      obtain rfl := Option.some.inj hDraft
      simp only [hPc] at hKnows
      obtain ⟨row, -, -, rfl⟩ := hKnows
      rfl
  | rejecting running reason rest | storing answered rest =>
      rw [hPc] at hOpen
      cases hOpen
  | _ =>
      rw [hPc] at hDraft
      cases hDraft

theorem row_of_commit (h : Worker.Invariant (s, calls)) (hOpen : ending s.worker = none)
    (hDraft : s.worker.draft = some job) {jobs : Uuid → Option Worker.JobRow}
    (hCommit : Worker.commit s.jobs job = some jobs) {id : Uuid} {row : Worker.JobRow}
    (hRow : jobs id = some row) (hStatus : row.status = .completed ∨ row.status = .failed) :
    s.jobs id = some row := by
  rw [Worker.jobs_of_commit h hDraft hCommit] at hRow
  rcases Worker.row_of_update hRow with ⟨-, rfl⟩ | ⟨-, hOld⟩
  · exact absurd (running_of_draft h hOpen hDraft) (not_open hStatus).2
  · exact hOld

/-- A finished row after an event that finishes nothing was there before. -/
theorem row_of_unfinished (h : Worker.Invariant (s, calls)) (hStep : Worker.Step s e t)
    (hNone : finished s.worker e = none) {id : Uuid} {row : Worker.JobRow}
    (hRow : t.jobs id = some row) (hStatus : row.status = .completed ∨ row.status = .failed) :
    s.jobs id = some row := by
  cases hStep with
  | created id' vendorId endpointId requestedBy requestPayload new hFresh hCreated =>
      rcases Worker.row_of_update hRow with ⟨-, rfl⟩ | ⟨-, hOld⟩
      · obtain ⟨-, hPending⟩ :
            (Worker.JobRow.mk new id' none none).WellFormed ∧ new.status = .pending :=
          Worker.wellFormed_of_createJob hCreated
        exact absurd hPending (not_open hStatus).1
      · exact hOld
  | marked running rest jobs hPc hCommit =>
      exact row_of_commit h (hPc ▸ rfl) (congrArg Worker.Pc.draft hPc) hCommit hRow hStatus
  | raised executed | cancelled executed | restarted executed =>
      cases executed with
      | false => exact hRow
      | true =>
          rcases Worker.afterFailure_cases s true with hSame | ⟨draft, hDraft, hCommit⟩
          · rw [hSame] at hRow
            exact hRow
          · exact row_of_commit h hNone hDraft hCommit hRow hStatus
  | rejected running reason rest jobs hPc | stored answered rest jobs hPc =>
      rw [hPc] at hNone
      cases hNone
  | others | woke | fetched | closed | refetched | refreshed | selected | answered | notified =>
      exact hRow

end Ending

section Posts

variable {s t : Worker.State} {e : Worker.Event} {job : Worker.JobRow}

/-- Nothing is posted but behind a commit that finishes a job. -/
theorem posted_of_unfinished (hStep : Worker.Step s e t) (hReply : e = .reply → Worker.reply s = some t)
    (hNone : finished s.worker e = none) : posted s e = [] := by
  cases hStep with
  | closed rest hPc =>
      simp only [posted, hReply rfl, Option.elim_some]
      cases rest <;> rfl
  | refetched id rest hPc =>
      simp only [posted, hReply rfl, Option.elim_some, Worker.afterRefetching]
      split
      · rfl
      · split_ifs <;> rfl
  | marked running rest jobs hPc hCommit | refreshed running row rest hPc hRow =>
      simp only [posted, hReply rfl, Option.elim_some]
      rfl
  | rejected running reason rest jobs hPc | stored answered rest jobs hPc =>
      rw [hPc] at hNone
      cases hNone
  | _ => rfl

/-- What is posted behind the commit of a finished job, by the URL in its payload. -/
theorem posted_of_finished (hStep : Worker.Step s e t) (hReply : e = .reply → Worker.reply s = some t)
    (hFinished : finished s.worker e = some job) {url : Option String}
    (hUrl : Worker.callbackUrl job.payload = some url) :
    posted s e = (url.filter fun url => decide (url ≠ "") && storesResult s.worker e).toList.map
      fun url => .posted url (webhook job) := by
  cases hStep with
  | rejected running reason rest jobs hPc hCommit =>
      simp [posted, hReply rfl, fireWebhook, hPc, storesResult]
  | stored answered rest jobs hPc hCommit =>
      obtain rfl : answered = job := by
        rw [hPc] at hFinished
        exact Option.some.inj hFinished
      simp only [posted, hReply rfl, Option.elim_some, hPc, storesResult, Bool.and_true,
        Worker.afterStoring, hUrl]
      cases url with
      | none => rfl
      | some url =>
          by_cases hEmpty : url = ""
          · simp [Option.filter, hEmpty, fireWebhook]
          · simp [Option.filter, hEmpty, fireWebhook, hUrl]
  | raised | cancelled | restarted => simp [posted, storesResult]
  | closed rest hPc | refetched id rest hPc | marked running rest jobs hPc
  | refreshed running row rest hPc =>
      rw [hPc] at hFinished
      cases hFinished
  | _ => cases hFinished

end Posts

/-- What every run keeps: nothing happens about a job that is not finished, and
each job was created for a request with the URL of its payload. -/
structure Known (p : State × Ledger) : Prop where
  silent : ∀ id, ¬Worker.Done p.1.jobs.jobs id → p.2.about id = []
  request : ∀ id row, p.1.jobs.jobs id = some row → ∃ request, p.2.request id = some request ∧
    Worker.callbackUrl row.payload = some (callbackHeader request)

section Work

variable {s t : Worker.State} {e : Worker.Event} {h : Ledger} {calls : List Uuid}
  {job row : Worker.JobRow} {id : Uuid}

theorem work_of_unfinished (hPosted : posted s e = []) (hNone : finished s.worker e = none) :
    h.work s e = h := by
  rw [Ledger.work, hPosted, hNone]
  rfl

/-- A finished job is new in the history of that job. -/
theorem about_of_finished {url : Option String} (hFinished : finished s.worker e = some job)
    (hPosted : posted s e =
      (url.filter fun url => decide (url ≠ "") && storesResult s.worker e).toList.map
        fun url => .posted url (webhook job)) :
    (h.work s e).about job.id = posted s e ++ .committed job :: h.about job.id ∧
      ∀ id, id ≠ job.id → (h.work s e).about id = h.about id := by
  have hOwn : ∀ entry ∈ posted s e, entry.jobId = job.id := by
    intro entry hMem
    rw [hPosted] at hMem
    obtain ⟨url, -, rfl⟩ := List.mem_map.mp hMem
    rfl
  have hLog : (h.work s e).log = posted s e ++ .committed job :: h.log := by
    rw [Ledger.work, hFinished]
    rfl
  constructor
  · have hAll : (posted s e).filter (fun entry => entry.jobId = job.id) = posted s e :=
      List.filter_eq_self.mpr fun entry hMem => decide_eq_true (hOwn entry hMem)
    simp [Ledger.about, hLog, hAll]
  · intro id hOther
    have hNone : (posted s e).filter (fun entry => entry.jobId = id) = [] :=
      List.filter_eq_nil_iff.mpr fun entry hMem => by simpa [hOwn entry hMem] using hOther.symm
    simp [Ledger.about, hLog, hNone, hOther.symm]

/-- The payload of a job never changes, and only a request adds a job. -/
theorem payload_step (hInv : Worker.Invariant (s, calls)) (hStep : Worker.Step s e t)
    (hWork : createsJob e = false) (hRow : t.jobs id = some row) :
    ∃ row', s.jobs id = some row' ∧ row'.payload = row.payload := by
  cases hBefore : s.jobs id with
  | some row' =>
      obtain ⟨row'', hAfter, hAdvances⟩ := Worker.advances_step hInv hStep hBefore
      obtain rfl := Option.some.inj (hRow.symm.trans hAfter)
      refine ⟨row', rfl, ?_⟩
      rcases hAdvances with rfl | ⟨-, hFrame⟩
      · rfl
      · rw [hFrame]
        rfl
  | none =>
      exfalso
      rcases Worker.jobs_cases hStep with hSame | ⟨_, _, _, _, _, _, rfl, _⟩ |
        ⟨draft, hDraft, hCommit⟩
      · rw [hSame, hBefore] at hRow
        cases hRow
      · cases hWork
      · obtain ⟨old, hOld, -⟩ := Worker.draft_spec hInv hDraft
        rw [Worker.jobs_of_commit hInv hDraft hCommit, Function.update_of_ne, hBefore] at hRow
        · cases hRow
        · rintro rfl
          rw [hBefore] at hOld
          cases hOld

end Work

section Steps

variable {D : Deployment} {s t : State} {w : Worker.State} {h h' : Ledger} {e : Worker.Event}
  {calls : List Uuid} {job : Worker.JobRow}

/-- What is known about a finished job before it is finished. -/
theorem known_of_finished (hInv : Worker.Invariant (s.jobs, calls)) (hKnown : Known (s, h))
    (hFinished : finished s.jobs.worker e = some job) :
    h.about job.id = [] ∧ ∃ request, h.request job.id = some request ∧
      Worker.callbackUrl job.payload = some (callbackHeader request) := by
  obtain ⟨row, hRow, hRunning, hFrame, -⟩ := row_of_ending hInv (ending_of_finished hFinished)
  constructor
  · refine hKnown.silent job.id fun hDone => ?_
    obtain ⟨row', hRow', hStatus⟩ := hDone
    obtain rfl := Option.some.inj (hRow.symm.trans hRow')
    exact (not_open hStatus).2 hRunning
  · obtain ⟨request, hRequest, hUrl⟩ := hKnown.request job.id row hRow
    refine ⟨request, hRequest, ?_⟩
    rw [hFrame]
    exact hUrl

theorem known_work (hInv : Worker.Invariant (s.jobs, calls)) (hKnown : Known (s, h))
    (hStep : Worker.Step s.jobs e w) (hReply : e = .reply → Worker.reply s.jobs = some w)
    (hWork : createsJob e = false) : Known (⟨s.routes, w⟩, h.work s.jobs e) where
  silent id hNot := by
    have hBefore : ¬Worker.Done s.jobs.jobs id := fun hDone =>
      hNot (Worker.done_step hInv hStep hDone)
    cases hFinished : finished s.jobs.worker e with
    | none =>
        rw [work_of_unfinished (posted_of_unfinished hStep hReply hFinished) hFinished]
        exact hKnown.silent id hBefore
    | some job =>
        obtain ⟨-, request, -, hUrl⟩ := known_of_finished hInv hKnown hFinished
        obtain ⟨-, -, -, -, hStatus⟩ := row_of_ending hInv (ending_of_finished hFinished)
        have hOther : id ≠ job.id := by
          rintro rfl
          exact hNot ⟨job, by rw [jobs_of_finished hInv hStep hFinished, Function.update_self],
            hStatus⟩
        rw [(about_of_finished hFinished (posted_of_finished hStep hReply hFinished hUrl)).2 id
          hOther]
        exact hKnown.silent id hBefore
  request id row hRow := by
    obtain ⟨row', hOld, hPayload⟩ := payload_step hInv hStep hWork hRow
    rw [← hPayload]
    exact hKnown.request id row' hOld

/-- A finished job has been told of exactly if its commit is the one behind the
`try` block and its URL is not empty. -/
theorem told_iff (hInv : Worker.Invariant (s.jobs, calls)) (hKnown : Known (s, h))
    (hStep : Worker.Step s.jobs e w) (hReply : e = .reply → Worker.reply s.jobs = some w)
    (hFinished : finished s.jobs.worker e = some job) {request : Inbound}
    (hRequest : h.request job.id = some request) :
    Told (h.work s.jobs e) request job ↔ tells (s, h) (.work e) = true := by
  obtain ⟨hSilent, request', hSame, hUrl⟩ := known_of_finished hInv hKnown hFinished
  obtain rfl := Option.some.inj (hRequest.symm.trans hSame)
  have hPosted := posted_of_finished hStep hReply hFinished hUrl
  have hAbout := (about_of_finished (h := h) hFinished hPosted).1
  rw [hSilent, hPosted] at hAbout
  simp only [tells, hFinished, hRequest, Option.all_some, Option.bind_some]
  unfold Told
  rw [hAbout]
  cases hHeader : callbackHeader request with
  | none =>
      have hNotCarried := not_carried_of_callbackHeader hHeader
      simp only [Option.all_none, iff_true]
      exact Or.inl ⟨hNotCarried, rfl⟩
  | some url =>
      have hCarried := mem_of_callbackHeader hHeader
      simp only [Option.all_some]
      cases hTells : decide (url ≠ "") && storesResult s.jobs.worker e with
      | true =>
          simp only [Option.filter, hTells, if_true, iff_true]
          exact Or.inr ⟨url, hCarried, rfl⟩
      | false =>
          simp only [Option.filter, hTells]
          constructor
          · rintro (⟨hNotCarried, -⟩ | ⟨url', -, hPosted⟩)
            · exact absurd rfl (hNotCarried _ hCarried)
            · cases hPosted
          · intro hTrue
            cases hTrue

/-- A step of the worker keeps the law exactly if it tells the caller of the job
that it finishes. -/
theorem webhookOnce_work (hInv : Worker.Invariant (s.jobs, calls)) (hKnown : Known (s, h))
    (hOnce : WebhookOnce (s, h)) (hStep : Worker.Step s.jobs e w)
    (hReply : e = .reply → Worker.reply s.jobs = some w) (hWork : createsJob e = false) :
    WebhookOnce (⟨s.routes, w⟩, h.work s.jobs e) ↔ tells (s, h) (.work e) = true := by
  have hAfter := known_work hInv hKnown hStep hReply hWork
  cases hFinished : finished s.jobs.worker e with
  | none =>
      have hSame : h.work s.jobs e = h :=
        work_of_unfinished (posted_of_unfinished hStep hReply hFinished) hFinished
      have hTells : tells (s, h) (.work e) = true := by simp [tells, hFinished]
      refine ⟨fun _ => hTells, fun _ => ⟨hAfter.silent, fun id row hRow hStatus => ?_⟩⟩
      rw [hSame]
      exact hOnce.after id row (row_of_unfinished hInv hStep hFinished hRow hStatus) hStatus
  | some job =>
      obtain ⟨-, request, hRequest, hUrl⟩ := known_of_finished hInv hKnown hFinished
      obtain ⟨-, -, -, -, hDone⟩ := row_of_ending hInv (ending_of_finished hFinished)
      have hJobs := jobs_of_finished hInv hStep hFinished
      have hFrame := (about_of_finished (h := h) hFinished
        (posted_of_finished hStep hReply hFinished hUrl)).2
      rw [← told_iff hInv hKnown hStep hReply hFinished hRequest]
      constructor
      · intro hOnce'
        have hRow : w.jobs job.id = some job := by rw [hJobs, Function.update_self]
        obtain ⟨request', hSame, hTold⟩ := hOnce'.after job.id job hRow hDone
        obtain rfl := Option.some.inj (hRequest.symm.trans hSame)
        exact hTold
      · intro hTold
        refine ⟨hAfter.silent, fun id row hRow hStatus => ?_⟩
        simp only [hJobs] at hRow
        rcases Worker.row_of_update hRow with ⟨rfl, rfl⟩ | ⟨hId, hRow⟩
        · exact ⟨request, hRequest, hTold⟩
        · obtain ⟨request', hRequest', hTold'⟩ := hOnce.after id row hRow hStatus
          have hRowId : row.id = id := hInv.id id row hRow
          refine ⟨request', hRequest', ?_⟩
          rw [Told, hFrame row.id (hRowId ▸ hId)]
          exact hTold'

/-- A new job, with the request that it is created for. -/
theorem store_cases {jobs : Worker.State} {turn : Turn} {request : JobRequest} {id : Uuid}
    (hJob : jobRequest turn = some request)
    (hCreate : Worker.step s.jobs (request.create id) = some jobs) :
    ∃ new : Worker.JobRow, s.jobs.jobs id = none ∧ new.status = .pending ∧
      Worker.callbackUrl new.payload = some (callbackHeader turn.ctx.request) ∧
      jobs.jobs = Function.update s.jobs.jobs id (some new) := by
  have hPayload : request.requestPayload = turn.ctx.request.requestPayload := by
    unfold jobRequest at hJob
    split at hJob
    case h_1 =>
      cases hJob
      rfl
    case h_2 => cases hJob
  have hStep : Worker.Step s.jobs (.create id request.vendorId request.endpointId
      request.requestedBy (some request.requestPayload)) jobs := Worker.step_cases hCreate
  cases hStep with
  | created _ _ _ _ _ job hFresh hCreated =>
      obtain ⟨-, hPending⟩ : (Worker.JobRow.mk job id none none).WellFormed ∧ job.status = .pending :=
        Worker.wellFormed_of_createJob hCreated
      rw [hPayload] at hCreated
      exact ⟨⟨job, id, none, none⟩, hFresh, hPending, callbackUrl_createJob hCreated, rfl⟩

theorem known_store (hKnown : Known (s, h)) {jobs : Worker.State} {routes : Routes.State} {id : Uuid}
    {new : Worker.JobRow} {request : Inbound} (hFresh : s.jobs.jobs id = none)
    (hUrl : Worker.callbackUrl new.payload = some (callbackHeader request))
    (hJobs : jobs.jobs = Function.update s.jobs.jobs id (some new)) :
    Known (⟨routes, jobs⟩, { h with request := Function.update h.request id (some request) }) where
  silent id' hNot := by
    refine hKnown.silent id' fun hDone => hNot ?_
    obtain ⟨row, hRow, hStatus⟩ := hDone
    exact ⟨row, by rw [hJobs, Worker.update_of_fresh hFresh hRow], hStatus⟩
  request id' row hRow := by
    simp only [hJobs] at hRow
    rcases Worker.row_of_update hRow with ⟨rfl, rfl⟩ | ⟨hId, hRow⟩
    · exact ⟨request, Function.update_self .., hUrl⟩
    · obtain ⟨request', hRequest, hUrl'⟩ := hKnown.request id' row hRow
      exact ⟨request', (Function.update_of_ne hId ..).trans hRequest, hUrl'⟩

theorem webhookOnce_store (hKnown : Known (s, h)) (hOnce : WebhookOnce (s, h)) {jobs : Worker.State}
    {routes : Routes.State} {id : Uuid} {new : Worker.JobRow} {request : Inbound}
    (hFresh : s.jobs.jobs id = none) (hPending : new.status = .pending)
    (hUrl : Worker.callbackUrl new.payload = some (callbackHeader request))
    (hJobs : jobs.jobs = Function.update s.jobs.jobs id (some new)) :
    WebhookOnce
      (⟨routes, jobs⟩, { h with request := Function.update h.request id (some request) }) where
  before := by
    have hAfter : Known
        (⟨routes, jobs⟩, { h with request := Function.update h.request id (some request) }) :=
      known_store hKnown hFresh hUrl hJobs
    exact hAfter.silent
  after id' row hRow hStatus := by
    simp only [hJobs] at hRow
    rcases Worker.row_of_update hRow with ⟨-, rfl⟩ | ⟨hId, hRow⟩
    · exact absurd hPending (not_open hStatus).1
    · obtain ⟨request', hRequest, hTold⟩ := hOnce.after id' row hRow hStatus
      exact ⟨request', (Function.update_of_ne hId ..).trans hRequest, hTold⟩

/-- Only the gateway's requests add jobs. -/
theorem work_cases (next : (machine D).step s (.work e) = some t) :
    createsJob e = false ∧ ∃ w, t = ⟨s.routes, w⟩ ∧ Worker.machine.step s.jobs e = some w := by
  simp only [machine] at next
  split_ifs at next with hCreates
  obtain ⟨w, hWork, rfl⟩ := Option.map_eq_some_iff.mp next
  exact ⟨Bool.eq_false_iff.mpr hCreates, w, rfl, hWork⟩

/-- What a step of the gateway keeps, and when the law is kept with it. -/
theorem known_step {e : Event} (hInv : Worker.Invariant (s.jobs, calls)) (hKnown : Known (s, h))
    (next : (machine D).step s e = some t) :
    Known (t, recordLedger s e h) ∧ (WebhookOnce (s, h) →
      (WebhookOnce (t, recordLedger s e h) ↔ tells (s, h) e = true)) := by
  cases e with
  | route e =>
      cases step_cases next with
      | route _ routes _ =>
          exact ⟨⟨hKnown.silent, hKnown.request⟩,
            fun hOnce => ⟨fun _ => rfl, fun _ => ⟨hOnce.before, hOnce.after⟩⟩⟩
  | store r id refreshed =>
      cases step_cases next with
      | store _ _ _ turn job jobs routes hTurn hJob hCreate hRoute =>
          obtain ⟨new, hFresh, hPending, hUrl, hJobs⟩ := store_cases hJob hCreate
          simp only [recordLedger, hTurn, Option.map_some]
          exact ⟨known_store hKnown hFresh hUrl hJobs, fun hOnce => ⟨fun _ => rfl,
            fun _ => webhookOnce_store hKnown hOnce hFresh hPending hUrl hJobs⟩⟩
  | work e =>
      obtain ⟨hWork, w, rfl, hNext⟩ := work_cases next
      have hStep := Worker.step_cases hNext
      have hReply : e = .reply → Worker.reply s.jobs = some w := by
        rintro rfl
        exact hNext
      exact ⟨known_work hInv hKnown hStep hReply hWork,
        fun hOnce => webhookOnce_work hInv hKnown hOnce hStep hReply hWork⟩

end Steps

section Runs

variable {D : Deployment} {p q : State × Ledger} {allowed : State × Ledger → Event → Prop}

theorem worker_invariant (run : (notified D).Reaches allowed p) :
    ∃ calls, Worker.Invariant (p.1.jobs, calls) := by
  obtain ⟨calls, hRun⟩ : ∃ calls, Worker.recorded.Reaches (fun p e => System.anyRun p.1 e)
      (p.1.jobs, calls) := (jobs_of_run run).remember
  exact ⟨calls, Worker.invariant_run (hRun.mono fun _ _ _ => trivial)⟩

theorem known_run (run : (notified D).Reaches allowed p) : Known p := by
  induction run with
  | @init p start =>
      obtain ⟨s, h⟩ := p
      obtain ⟨⟨-, hJobs, -⟩, hLedger⟩ := start
      subst hLedger
      refine ⟨fun _ _ => rfl, fun id row hRow => ?_⟩
      cases (hJobs id).symm.trans hRow
  | @step p q e prior _ next ih =>
      obtain ⟨t, h⟩ := q
      obtain ⟨hStep, rfl⟩ := System.withHistory_step next
      obtain ⟨calls, hInv⟩ := worker_invariant prior
      exact (known_step hInv ih hStep).1

theorem webhookOnce_run (run : (notified D).Reaches (fun p e => tells p e = true) p) :
    WebhookOnce p := by
  induction run with
  | @init p start =>
      obtain ⟨s, h⟩ := p
      obtain ⟨⟨-, hJobs, -⟩, hLedger⟩ := start
      subst hLedger
      refine ⟨fun _ _ => rfl, fun id row hRow => ?_⟩
      cases (hJobs id).symm.trans hRow
  | @step p q e prior hTells next ih =>
      obtain ⟨t, h⟩ := q
      obtain ⟨hStep, rfl⟩ := System.withHistory_step next
      obtain ⟨calls, hInv⟩ := worker_invariant prior
      exact ((known_step hInv (known_run prior) hStep).2 ih).mpr hTells

end Runs

/-- As long as each job with a callback header is finished behind the `try` block,
by a commit that is answered, its caller is told exactly once, behind the commit,
what was committed; a job without the header is not told of. The first step that
finishes a job with the header in another place breaks the law. -/
theorem webhook_once_iff {D : Deployment} {p : State × Ledger}
    (run : (notified D).Reaches (fun p e => tells p e = true) p) :
    WebhookOnce p ∧ ∀ e q, (notified D).step p e = some q →
      (WebhookOnce q ↔ tells p e = true) := by
  have hOnce := webhookOnce_run run
  refine ⟨hOnce, fun e q next => ?_⟩
  obtain ⟨t, h⟩ := q
  obtain ⟨hStep, rfl⟩ := System.withHistory_step next
  obtain ⟨calls, hInv⟩ := worker_invariant run
  exact (known_step hInv (known_run run) hStep).2 hOnce

section Traces

def callbackRequest : Inbound :=
  { sampleRequest .post "p" with
    headers := [("x-callback-url", "https://c/hook")]
    headers_lower := by decide }

theorem init_notified : (notified jobDeployment).init (sampleStart, ⟨fun _ => none, []⟩) :=
  ⟨⟨Routes.init_sampleStart, Worker.init_sampleStart⟩, rfl⟩

/-- A request with a callback URL creates a job, and the worker looks up its endpoint. -/
def callbackJob (between behind : List Worker.Event) : List Event :=
  Worker.load.map .work ++
    [.route (.deliver 0 (.arrive callbackRequest)), .route (.deliver 0 .endpointRow),
      .store 0 Worker.otherId true] ++
    (between ++ .pendingRows [Worker.otherId] :: Worker.upToEndpoint ++
      .endpointRow (some Worker.sampleEndpoint) :: behind).map .work

/-- How the job has ended, and how much has happened about it. -/
def heard (status : Status) (n : ℕ) (p : State × Ledger) : Bool :=
  (p.1.jobs.jobs Worker.otherId).any (fun row =>
    decide (row.status = status) && decide (row.id = Worker.otherId)) &&
  decide (p.2.request Worker.otherId = some callbackRequest) &&
  (p.2.about Worker.otherId).length == n

theorem webhook_once_completed : ∃ p, heard .completed 2 p = true ∧ WebhookOnce p ∧
    ∀ e q, (notified jobDeployment).step p e = some q → (WebhookOnce q ↔ tells p e = true) := by
  obtain ⟨p, run, hHeard⟩ := (System.Reaches.init init_notified).exec_any
    (by decide +kernel : ((notified jobDeployment).exec (fun p e => tells p e = true)
      (sampleStart, ⟨fun _ => none, []⟩) (callbackJob []
        [.called (.response sampleAnswer (.ok "")), .reply])).any (heard .completed 2) = true)
  exact ⟨p, hHeard, webhook_once_iff run⟩

/-- The worker of a new process takes the job before a request has loaded the
registry: the job fails, and its caller is not told. -/
theorem webhook_missed : ∃ p, (notified jobDeployment).Reaches System.anyRun p ∧
    heard .failed 1 p = true ∧ ¬WebhookOnce p := by
  obtain ⟨p, run, hHeard⟩ := (System.Reaches.init init_notified).exec_any
    (by decide +kernel : ((notified jobDeployment).exec System.anyRun
      (sampleStart, ⟨fun _ => none, []⟩) (callbackJob [.restart false 60] [.reply])).any
        (heard .failed 1) = true)
  refine ⟨p, run, hHeard, fun hOnce => ?_⟩
  simp only [heard, Bool.and_eq_true, decide_eq_true_eq, beq_iff_eq, Option.any_eq_true] at hHeard
  obtain ⟨⟨⟨row, hRow, hFailed, hId⟩, hRequest⟩, hLength⟩ := hHeard
  obtain ⟨request, hSame, hTold⟩ := hOnce.after _ row hRow (Or.inr hFailed)
  obtain rfl := Option.some.inj (hRequest.symm.trans hSame)
  rcases hTold with ⟨hNotCarried, -⟩ | ⟨url, -, hAbout⟩
  · exact hNotCarried _ (List.mem_singleton_self _) rfl
  · rw [← hId, hAbout] at hLength
    cases hLength

end Traces

end Gateway.Served
