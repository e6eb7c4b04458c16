import Gateway.Jobs.Accounting
import Gateway.Jobs.Sessions
import Gateway.Middleware.Paths
import Gateway.Semantics.Observation
import Mathlib.Data.List.TakeWhile

/-! `gateway/routes/jobs.py`: polling for a job while the gateway works on it. -/
namespace Gateway.Served

open Text Transition Gateway.Db Gateway.Jobs Gateway.Routes

structure JobStatusResponse where
  jobId : Uuid
  status : Status
  result : Option Worker.ResponsePayload
  error : Option String
  createdAt : ℚ
  updatedAt : ℚ

inductive PollAnswer where
  | found (body : JobStatusResponse)
  | httpException (statusCode : ℕ) (detail : String)

def statusResponse (job : Worker.JobRow) (stamps : Stamps) : JobStatusResponse where
  jobId := job.id
  status := job.status
  result := job.responsePayload
  error := job.error
  createdAt := stamps.createdAt
  updatedAt := stamps.updatedAt

/-- `poll_job` for an authenticated caller, with the row that `get_job` reads. -/
def pollJob (row : Option Worker.JobRow) (stamps : Stamps) (jobId : Uuid) (userSub : String) :
    PollAnswer :=
  match row with
  | none => .httpException 404 ("Job '" ++ jobId.text ++ "' not found.")
  | some job =>
      if job.requestedBy ≠ userSub then .httpException 403 "Access denied"
      else .found (statusResponse job stamps)

/-- The answer that a caller gets about a job. -/
def pollView (p : State × Sessions) (question : Uuid × String) : PollAnswer :=
  pollJob (p.1.jobs.jobs question.1) (p.2.stamps question.1) question.1 question.2

/-- What a later answer about a job may say. -/
structure Follows (a b : JobStatusResponse) : Prop where
  job : b.jobId = a.jobId
  created : b.createdAt = a.createdAt
  updated : a.updatedAt ≤ b.updatedAt
  status : Relation.ReflTransGen Worker.Moves a.status b.status
  final : a.status = .completed ∨ a.status = .failed → b = a

inductive Before : PollAnswer → PollAnswer → Prop where
  | same (a : PollAnswer) : Before a a
  | appears (detail : String) (b : PollAnswer) : Before (.httpException 404 detail) b
  | moves {a b : JobStatusResponse} (h : Follows a b) : Before (.found a) (.found b)

/-- There is a result or an error only at the end, and the right one of them. -/
structure JobStatusResponse.Sound (body : JobStatusResponse) (jobId : Uuid) : Prop where
  job : body.jobId = jobId
  dates : body.createdAt ≤ body.updatedAt
  content : match body.status with
    | .pending | .inProgress => body.result = none ∧ body.error = none
    | .completed => body.error = none ∧
        ∃ payload, body.result = some payload ∧ payload.statusCode < 400
    | .failed => body.error ≠ none

section Order

variable {a b c : JobStatusResponse}

theorem Follows.trans (h : Follows a b) (h' : Follows b c) : Follows a c where
  job := h'.job.trans h.job
  created := h'.created.trans h.created
  updated := h.updated.trans h'.updated
  status := h.status.trans h'.status
  final hEnd := by
    obtain rfl := h.final hEnd
    exact h'.final hEnd

theorem Before.trans {x y z : PollAnswer} (h : Before x y) (h' : Before y z) : Before x z := by
  cases h with
  | same => exact h'
  | appears detail => exact .appears detail z
  | moves hFollows =>
      cases h' with
      | same => exact .moves hFollows
      | moves hFollows' => exact .moves (hFollows.trans hFollows')

end Order

/-- The end of a job is its end. -/
theorem not_moves_of_final {status : Status} (h : status = .completed ∨ status = .failed)
    (status' : Status) : ¬Worker.Moves status status' := by
  intro hMoves
  cases hMoves <;> simp at h

section Answers

variable {D : Deployment} {p q : State × Sessions} {e : Event} {id : Uuid} {row row' : Worker.JobRow}

/-- What a step does to a row and to its stamps. -/
structure Kept (row row' : Worker.JobRow) (stamps stamps' : Stamps) : Prop where
  advances : Worker.Advances row row'
  created : stamps'.createdAt = stamps.createdAt
  updated : stamps.updatedAt ≤ stamps'.updatedAt
  final : row.status = .completed ∨ row.status = .failed → stamps' = stamps

theorem kept_work {s : State} {jobs : Worker.State} {h : Sessions} {e : Worker.Event}
    {calls : List Uuid} (hTimely : Timely (s, h)) (hInvariant : Worker.Invariant (s.jobs, calls))
    (hStep : Worker.Step s.jobs e jobs) (hRow : s.jobs.jobs id = some row) :
    ∃ row', jobs.jobs id = some row' ∧
      Kept row row' (h.stamps id) ((h.work s.routes.now s.jobs e).stamps id) := by
  obtain ⟨row', hRow', hAdvances⟩ := Worker.advances_step hInvariant hStep hRow
  refine ⟨row', hRow', hAdvances, (stamps_work s.routes.now e id).1, updated_work hTimely,
    fun hFinal => ?_⟩
  by_cases hWritten : written s.jobs e = some id
  · -- the worker writes a row only to move its status on
    obtain ⟨draft, hDraft, rfl⟩ := draft_of_written hWritten
    obtain ⟨before, hBefore, hMoves, -⟩ := Worker.draft_spec hInvariant hDraft
    obtain rfl := Option.some.inj (hRow.symm.trans hBefore)
    exact absurd hMoves (not_moves_of_final hFinal _)
  · simp only [Sessions.work, if_neg hWritten]

theorem kept_step (run : (stamped D).Reaches System.anyRun p)
    (next : (stamped D).step p e = some q) (hRow : p.1.jobs.jobs id = some row) :
    ∃ row', q.1.jobs.jobs id = some row' ∧ Kept row row' (p.2.stamps id) (q.2.stamps id) := by
  have hTimely := timely_run run
  obtain ⟨calls, hInvariant⟩ := jobs_invariant run
  obtain ⟨s, h⟩ := p
  obtain ⟨t, h'⟩ := q
  obtain ⟨hStep, hRecord⟩ := System.withHistory_step next
  simp only at hStep hRecord hInvariant hRow ⊢
  subst hRecord
  cases step_cases hStep with
  | route e routes _ =>
      obtain ⟨hStamps, -⟩ := recordSessions_route (s := s) (h := h) e
      rw [hStamps]
      exact ⟨row, hRow, Or.inl rfl, rfl, le_rfl, fun _ => rfl⟩
  | store r id' refreshed turn job jobs routes _ _ hCreate _ =>
      have hCreated : Worker.Step s.jobs (job.create id') jobs := Worker.step_cases hCreate
      unfold JobRequest.create at hCreated
      cases hCreated with
      | created _ _ _ _ _ new hFresh _ =>
          have hOther : id ≠ id' := by
            rintro rfl
            rw [hFresh] at hRow
            cases hRow
          simp only [recordSessions, Function.update_of_ne hOther]
          exact ⟨row, hRow, Or.inl rfl, rfl, le_rfl, fun _ => rfl⟩
  | work e jobs hWork => exact kept_work hTimely hInvariant (Worker.step_cases hWork) hRow

theorem Kept.before {stamps stamps' : Stamps} (h : Kept row row' stamps stamps') (id : Uuid)
    (userSub : String) :
    Before (pollJob (some row) stamps id userSub) (pollJob (some row') stamps' id userSub) := by
  have hOwner : row'.requestedBy = row.requestedBy := by
    rcases h.advances with rfl | ⟨-, hFrame⟩
    · rfl
    · rw [hFrame]
  simp only [pollJob, hOwner]
  split_ifs
  · exact .same _
  refine .moves ⟨?_, h.created, h.updated, ?_, fun hEnd => ?_⟩
  · rcases h.advances with rfl | ⟨-, hFrame⟩
    · rfl
    · exact hFrame.id
  · rcases h.advances with rfl | ⟨hMoves, -⟩
    · exact .refl
    · exact .single hMoves
  · rw [h.final hEnd]
    rcases h.advances with rfl | ⟨hMoves, -⟩
    · rfl
    · exact absurd hMoves (not_moves_of_final hEnd _)

/-- A step of the gateway moves every answer on. -/
theorem before_step (run : (stamped D).Reaches System.anyRun p)
    (next : (stamped D).step p e = some q) (question : Uuid × String) :
    Before (pollView p question) (pollView q question) := by
  cases hRow : p.1.jobs.jobs question.1 with
  | none =>
      rw [pollView, hRow]
      exact .appears _ _
  | some row =>
      obtain ⟨row', hRow', hKept⟩ := kept_step run next hRow
      rw [pollView, pollView, hRow, hRow']
      exact hKept.before question.1 question.2

theorem sound_of_row (run : (stamped D).Reaches System.anyRun p)
    (hRow : p.1.jobs.jobs id = some row) : (statusResponse row (p.2.stamps id)).Sound id := by
  obtain ⟨calls, hInvariant⟩ := jobs_invariant run
  exact ⟨hInvariant.id id row hRow, ((timely_run run).dates id row hRow).1,
    hInvariant.wellFormed id row hRow⟩

theorem sound_of_found (run : (stamped D).Reaches System.anyRun p) (question : Uuid × String)
    {body : JobStatusResponse} (hFound : pollView p question = .found body) :
    body.Sound question.1 := by
  unfold pollView pollJob at hFound
  split at hFound
  · cases hFound
  case h_2 row hRow =>
    split_ifs at hFound
    cases hFound
    exact sound_of_row run hRow

end Answers

/-- Whatever callers are told about jobs while the gateway runs is in order: a job
does not disappear, it moves forward, its dates do not go back, and an answer with
an end is the last one. There is no result before the end, and no answer to a
caller turns from a refusal into a status or back. -/
theorem polls_in_order {D : Deployment}
    {p : (State × Sessions) × List ((Uuid × String) × PollAnswer)}
    (run : ((stamped D).observed pollView).Reaches (System.whenMoving System.anyRun) p) :
    (p.2.Pairwise fun later earlier => later.1 = earlier.1 → Before earlier.2 later.2) ∧
      ∀ o ∈ p.2, ∀ body, o.2 = .found body → body.Sound o.1.1 :=
  ⟨run.answers_in_order .same (fun _ _ _ => .trans)
      (fun _ _ _ prior _ next question => before_step prior next question),
    run.answers_sound (P := fun question answer =>
        ∀ body, answer = .found body → body.Sound question.1)
      (fun _ prior question _ hFound => sound_of_found prior question hFound)⟩

section Sample

/-- A caller who asks before, while and after a job is worked on, and another one. -/
def polledJob : List (Event ⊕ (Uuid × String)) :=
  .inr (Worker.otherId, "u") :: answeredJob.map .inl ++
    [.inr (Worker.otherId, "u"), .inr (Worker.otherId, "v"), .inl (.work .reply),
      .inr (Worker.otherId, "u")]

/-- The status of the job in an answer, or the code of a refusal. -/
def PollAnswer.brief : PollAnswer → Status ⊕ ℕ
  | .found body => .inl body.status
  | .httpException statusCode _ => .inr statusCode

def polled (answers : List (Status ⊕ ℕ))
    (p : (State × Sessions) × List ((Uuid × String) × PollAnswer)) : Bool :=
  decide (p.2.map (fun o => o.2.brief) = answers)

theorem polls_in_order_sample : ∃ p,
    ((stamped jobDeployment).observed pollView).Reaches (System.whenMoving System.anyRun) p ∧
      polled [.inl .completed, .inr 403, .inl .inProgress, .inr 404] p = true ∧
      (p.2.Pairwise fun later earlier => later.1 = earlier.1 → Before earlier.2 later.2) ∧
      ∀ o ∈ p.2, ∀ body, o.2 = .found body → body.Sound o.1.1 := by
  have hInit : ((stamped jobDeployment).observed pollView).init
      ((sampleStart, ⟨fun _ => 0, 0, fun _ => ⟨0, 0⟩⟩), []) :=
    ⟨⟨⟨Routes.init_sampleStart, Worker.init_sampleStart⟩, rfl⟩, rfl⟩
  obtain ⟨p, run, hPolled⟩ := (System.Reaches.init hInit).exec_any
    (by decide +kernel : (((stamped jobDeployment).observed pollView).exec
      (System.whenMoving System.anyRun) _ polledJob).any
        (polled [.inl .completed, .inr 403, .inl .inProgress, .inr 404]) = true)
  exact ⟨p, run, hPolled, polls_in_order run⟩

end Sample

/-- `poll_url` of a `JobCreatedResponse`. -/
def pollUrl (id : Uuid) : String := "/jobs/" ++ id.text

/-- `^/jobs/([^/]+)$` -/
def jobPattern : Pattern :=
  .seq .start (.seq (.lit "/jobs/".toList)
    (.seq (.group 1 (.plus Middleware.notSlash)) .stop))

/-- `GET` of a path, with the parser of the type of its parameter. -/
def getJob (parseUuid : String → Option Uuid) (p : State × Sessions) (path userSub : String) :
    Option PollAnswer := do
  let m ← jobPattern.match? path
  let text ← m.group 1
  let id ← parseUuid text
  some (pollView p (id, userSub))

section PollUrl

theorem notSlash_of_uuid (id : Uuid) : ∀ c ∈ id.text.toList, Middleware.notSlash c = true := by
  intro c hMem
  have hDigit := id.canonical.2 c hMem
  simp only [Middleware.notSlash, decide_eq_true_eq]
  rintro rfl
  exact absurd hDigit (by decide)

theorem first_jobPattern (id : Uuid) :
    ∃ m, First jobPattern 0 (pollUrl id).toList m ∧ m.groups = [(1, id.text.toList)] := by
  have hTaken : id.text.toList.takeWhile Middleware.notSlash = id.text.toList :=
    List.takeWhile_eq_self_iff.mpr (notSlash_of_uuid id)
  have hDropped : id.text.toList.dropWhile Middleware.notSlash = [] :=
    List.dropWhile_eq_nil_iff.mpr (notSlash_of_uuid id)
  have hNe : id.text.toList.takeWhile Middleware.notSlash ≠ [] := by
    rw [hTaken, ← List.length_pos_iff, id.canonical.1]
    decide
  have hPlus (position : ℕ) : First (.plus Middleware.notSlash) position id.text.toList
      ⟨id.text.toList, [], []⟩ := by
    have hFirst := @first_plus _ position _ hNe
    rwa [hTaken, hDropped] at hFirst
  rw [pollUrl, String.toList_append]
  exact ⟨_, first_start.seq (first_lit.seq ((hPlus _).group.seq (first_stop (Or.inl rfl)))), rfl⟩

/-- The path that the gateway hands out leads to the job. -/
theorem getJob_pollUrl {parseUuid : String → Option Uuid}
    (hParse : ∀ id : Uuid, parseUuid id.text = some id) (p : State × Sessions) (id : Uuid)
    (userSub : String) :
    getJob parseUuid p (pollUrl id) userSub = some (pollView p (id, userSub)) := by
  obtain ⟨m, hFirst, hGroups⟩ := first_jobPattern id
  have hMatch : jobPattern.match? (pollUrl id) = some m := hFirst
  have hGroup : m.group 1 = some id.text := by
    rw [Match.group, hGroups]
    exact congrArg some String.ofList_toList
  simp [getJob, hMatch, hGroup, hParse]

end PollUrl

/-- The jobs that requests were told about are theirs, and nobody else's. -/
structure Accepted (s : State) : Prop where
  owned : ∀ r request id, s.routes.procs r = .finished request (.jobAccepted id) →
    ∃ row, s.jobs.jobs id = some row ∧ row.requestedBy = request.userSub ∧
      row.requestPayload = Jsonb.store request.requestPayload
  once : ∀ r r' request request' id, s.routes.procs r = .finished request (.jobAccepted id) →
    s.routes.procs r' = .finished request' (.jobAccepted id) → r' = r
  direct : ∀ r ctx id, s.routes.procs r ≠ .running ctx (.releaseLock (.jobAccepted id))

section Acceptance

variable {D : Deployment} {s : State} {σ τ : Routes.State} {e : Routes.Event} {r : ℕ} {id : Uuid}
  {request : Inbound}

theorem accepted_of_move {redis redis' : RedisServer} {now : ℚ} {input : Input}
    (hDirect : ∀ ctx, σ.procs r ≠ .running ctx (.releaseLock (.jobAccepted id)))
    (hMove : Move D now r redis (σ.procs r) input redis' (.finished request (.jobAccepted id))) :
    ∃ ctx, σ.procs r = .running ctx .createJob ∧ input = .jobStored id ∧ request = ctx.request := by
  cases hBefore : σ.procs r with
  | idle =>
      rw [hBefore] at hMove
      rcases error_of_arrive hMove with h | ⟨_, _, h⟩ <;> cases h
  | finished request' outcome' =>
      rw [hBefore] at hMove
      cases hMove
  | running ctx pc =>
      rw [hBefore] at hMove
      obtain ⟨rfl, hFinish⟩ := finish_of_move hMove
      cases hFinish with
      | accepted => exact ⟨ctx, rfl, rfl, rfl⟩
      | released => exact absurd hBefore (hDirect ctx)

/-- A request is told about a job when the job is stored. -/
theorem accepted_of_step
    (hDirect : ∀ ctx, σ.procs r ≠ .running ctx (.releaseLock (.jobAccepted id)))
    (next : D.machine.step σ e = some τ)
    (hFinished : τ.procs r = .finished request (.jobAccepted id)) :
    σ.procs r = .finished request (.jobAccepted id) ∨
      ∃ ctx, σ.procs r = .running ctx .createJob ∧ e = .deliver r (.jobStored id) ∧
        request = ctx.request := by
  rcases Routes.step_cases next with ⟨_, -, -, rfl⟩ | ⟨w, input, redis, p', rfl, hMove, rfl⟩
  · exact Or.inl hFinished
  · by_cases hw : r = w
    · subst hw
      simp only [Function.update_self] at hFinished
      subst hFinished
      obtain ⟨ctx, hProc, rfl, hRequest⟩ := accepted_of_move hDirect hMove
      exact Or.inr ⟨ctx, hProc, rfl, hRequest⟩
    · simp only [Function.update_of_ne hw] at hFinished
      exact Or.inl hFinished

theorem direct_of_step (hDirect : ∀ ctx, σ.procs r ≠ .running ctx (.releaseLock (.jobAccepted id)))
    (next : D.machine.step σ e = some τ) (ctx : Ctx) :
    τ.procs r ≠ .running ctx (.releaseLock (.jobAccepted id)) := by
  intro hRunning
  rcases Routes.step_cases next with ⟨_, -, -, rfl⟩ | ⟨w, input, redis, p', rfl, hMove, rfl⟩
  · exact hDirect ctx hRunning
  · by_cases hw : r = w
    · subst hw
      simp only [Function.update_self] at hRunning
      subst hRunning
      rcases start_cases hMove with ⟨-, -, -, -, hPc⟩ | ⟨_, _, -, hFlow⟩
      · cases hPc
      · cases hFlow
    · simp only [Function.update_of_ne hw] at hRunning
      exact hDirect ctx hRunning

theorem accepted_route {routes : Routes.State} (h : Accepted s)
    (hReceives : receivesJob e = false) (next : D.machine.step s.routes e = some routes) :
    Accepted ⟨routes, s.jobs⟩ := by
  have hOld {r : ℕ} {request : Inbound} {id : Uuid}
      (hFinished : routes.procs r = .finished request (.jobAccepted id)) :
      s.routes.procs r = .finished request (.jobAccepted id) := by
    rcases accepted_of_step (fun ctx => h.direct r ctx id) next hFinished with
      hBefore | ⟨_, _, rfl, _⟩
    · exact hBefore
    · cases hReceives
  exact ⟨fun r request id hFinished => h.owned r request id (hOld hFinished),
    fun r r' request request' id hFinished hFinished' =>
      h.once r r' request request' id (hOld hFinished) (hOld hFinished'),
    fun r ctx id => direct_of_step (fun ctx => h.direct r ctx id) next ctx⟩

theorem request_of_jobRequest {turn : Turn} {job : JobRequest} (h : jobRequest turn = some job) :
    job.requestedBy = turn.ctx.request.userSub ∧
      job.requestPayload = turn.ctx.request.requestPayload := by
  unfold jobRequest at h
  split at h
  · obtain rfl := Option.some.inj h
    exact ⟨rfl, rfl⟩
  · cases h

theorem requestPayload_of_createJob {vendorId endpointId : Uuid} {requestedBy : String}
    {payload : Jsonb.Object} {job : Job}
    (h : createJob vendorId endpointId requestedBy (some payload) = some job) :
    job.requestedBy = requestedBy ∧ job.requestPayload = Jsonb.store payload := by
  unfold createJob at h
  split_ifs at h
  obtain ⟨stored, hStored, rfl⟩ := Option.map_eq_some_iff.mp h
  exact ⟨rfl, hStored.symm⟩

theorem accepted_store {routes : Routes.State} {jobs : Worker.State} {r : ℕ} {refreshed : Bool}
    {turn : Turn} {job : JobRequest} (h : Accepted s) (hTurn : s.routes.turn r = some turn)
    (hJob : jobRequest turn = some job) (hCreate : Worker.step s.jobs (job.create id) = some jobs)
    (next : D.machine.step s.routes (.deliver r (stored id refreshed)) = some routes) :
    Accepted ⟨routes, jobs⟩ := by
  obtain ⟨-, hProc⟩ := turn_eq_some.mp hTurn
  obtain ⟨hOwner, hPayload⟩ := request_of_jobRequest hJob
  have hStep : Worker.Step s.jobs (job.create id) jobs := Worker.step_cases hCreate
  unfold JobRequest.create at hStep
  cases hStep with
  | created _ _ _ _ _ new hFresh hCreated =>
      obtain ⟨hOwner', hPayload'⟩ := requestPayload_of_createJob hCreated
      have hNew {w : ℕ} {request : Inbound} {id' : Uuid}
          (hFinished : routes.procs w = .finished request (.jobAccepted id')) :
          s.routes.procs w = .finished request (.jobAccepted id') ∧ id' ≠ id ∨
            w = r ∧ id' = id ∧ request = turn.ctx.request := by
        rcases accepted_of_step (fun ctx => h.direct w ctx id') next hFinished with
          hBefore | ⟨ctx, hRunning, hEvent, rfl⟩
        · refine Or.inl ⟨hBefore, ?_⟩
          rintro rfl
          obtain ⟨row, hRow, -⟩ := h.owned w request id' hBefore
          rw [hFresh] at hRow
          cases hRow
        · obtain ⟨rfl, hInput⟩ := Routes.Event.deliver.inj hEvent
          obtain ⟨rfl, -⟩ := Proc.running.inj (hProc.symm.trans hRunning)
          refine Or.inr ⟨rfl, ?_, rfl⟩
          cases refreshed with
          | true => exact (Input.jobStored.inj hInput).symm
          | false => cases hInput
      refine ⟨fun w request id' hFinished => ?_,
        fun w w' request request' id' hFinished hFinished' => ?_,
        fun w ctx id' => direct_of_step (fun ctx => h.direct w ctx id') next ctx⟩
      · rcases hNew hFinished with ⟨hBefore, -⟩ | ⟨rfl, rfl, rfl⟩
        · obtain ⟨row, hRow, hRest⟩ := h.owned w request id' hBefore
          exact ⟨row, Worker.update_of_fresh hFresh hRow, hRest⟩
        · exact ⟨_, Function.update_self .., hOwner'.trans hOwner,
            hPayload'.trans (congrArg Jsonb.store hPayload)⟩
      · rcases hNew hFinished with ⟨hBefore, hOther⟩ | ⟨rfl, hSame, -⟩
        · rcases hNew hFinished' with ⟨hBefore', -⟩ | ⟨-, hSame, -⟩
          · exact h.once w w' request request' id' hBefore hBefore'
          · exact absurd hSame hOther
        · rcases hNew hFinished' with ⟨-, hOther⟩ | ⟨rfl, -⟩
          · exact absurd hSame hOther
          · rfl

theorem accepted_work {jobs : Worker.State} {e : Worker.Event} {calls : List Uuid}
    (h : Accepted s) (hInvariant : Worker.Invariant (s.jobs, calls))
    (hStep : Worker.Step s.jobs e jobs) : Accepted ⟨s.routes, jobs⟩ := by
  refine ⟨fun r request id hFinished => ?_, h.once, h.direct⟩
  obtain ⟨row, hRow, hOwner, hPayload⟩ := h.owned r request id hFinished
  obtain ⟨row', hRow', hAdvances⟩ := Worker.advances_step hInvariant hStep hRow
  refine ⟨row', hRow', ?_⟩
  rcases hAdvances with rfl | ⟨-, hFrame⟩
  · exact ⟨hOwner, hPayload⟩
  · rw [hFrame]
    exact ⟨hOwner, hPayload⟩

theorem accepted_run {p : State × Sessions} (run : (stamped D).Reaches System.anyRun p) :
    Accepted p.1 := by
  induction run with
  | init hInit =>
      have hIdle := hInit.1.1.2.2
      refine ⟨fun r request id hFinished => ?_, fun r r' request request' id hFinished => ?_,
        fun r ctx id hRunning => ?_⟩
      · rw [hIdle r] at hFinished
        cases hFinished
      · rw [hIdle r] at hFinished
        cases hFinished
      · rw [hIdle r] at hRunning
        cases hRunning
  | @step p q e prior _ next ih =>
      obtain ⟨calls, hInvariant⟩ := jobs_invariant prior
      obtain ⟨hStep, -⟩ := System.withHistory_step next
      generalize q.1 = t at hStep
      cases step_cases hStep with
      | route e routes hRoute =>
          refine accepted_route ih ?_ hRoute
          cases hReceives : receivesJob e with
          | false => rfl
          | true => simp [machine, hReceives] at hStep
      | store r id refreshed turn job jobs routes hTurn hJob hCreate hRoute =>
          exact accepted_store ih hTurn hJob hCreate hRoute
      | work e jobs hWork => exact accepted_work ih hInvariant (Worker.step_cases hWork)

end Acceptance

/-- Whoever was told that a job is accepted finds it under the path in that answer
from then on, with what was asked of it; any other caller is refused. No two
requests are told about the same job. -/
theorem accepted_job_pollable {D : Deployment} {parseUuid : String → Option Uuid}
    (hParse : ∀ id : Uuid, parseUuid id.text = some id) {p : State × Sessions}
    (run : (stamped D).Reaches System.anyRun p) {r : ℕ} {request : Inbound} {id : Uuid}
    (hAccepted : p.1.routes.procs r = .finished request (.jobAccepted id)) :
    (∃ row, p.1.jobs.jobs id = some row ∧
        row.requestPayload = Jsonb.store request.requestPayload ∧
        getJob parseUuid p (pollUrl id) request.userSub =
          some (.found (statusResponse row (p.2.stamps id))) ∧
        (statusResponse row (p.2.stamps id)).Sound id) ∧
      (∀ userSub, userSub ≠ request.userSub →
        getJob parseUuid p (pollUrl id) userSub = some (.httpException 403 "Access denied")) ∧
      ∀ r' request', p.1.routes.procs r' = .finished request' (.jobAccepted id) → r' = r := by
  have hRun := accepted_run run
  obtain ⟨row, hRow, hOwner, hPayload⟩ := hRun.owned r request id hAccepted
  refine ⟨⟨row, hRow, hPayload, ?_, sound_of_row run hRow⟩, fun userSub hOther => ?_,
    fun r' request' hAccepted' => hRun.once r r' request request' id hAccepted hAccepted'⟩
  · simp [getJob_pollUrl hParse, pollView, hRow, pollJob, hOwner]
  · simp [getJob_pollUrl hParse, pollView, hRow, pollJob, hOwner, hOther.symm]

section Sample

/-- A parser for the form in which UUIDs are written. -/
def parseCanonical (text : String) : Option Uuid :=
  if h : text.toList.length = 36 ∧ text.toList.all "0123456789abcdef-".toList.contains = true then
    some ⟨text, h.1, fun c hMem => List.contains_iff_mem.mp (List.all_eq_true.mp h.2 c hMem)⟩
  else none

theorem parseCanonical_text (id : Uuid) : parseCanonical id.text = some id := by
  obtain ⟨hLength, hDigits⟩ := id.canonical
  exact dif_pos ⟨hLength, List.all_eq_true.mpr fun c hMem =>
    List.contains_iff_mem.mpr (hDigits c hMem)⟩

def accepts (r : ℕ) (id : Uuid) (p : State × Sessions) : Bool :=
  match p.1.routes.procs r with
  | .finished _ (.jobAccepted id') => decide (id' = id)
  | _ => false

theorem accepted_job_pollable_sample : ∃ p, ∃ request,
    (stamped jobDeployment).Reaches System.anyRun p ∧
      p.1.routes.procs 0 = .finished request (.jobAccepted Worker.otherId) ∧
      ∃ row, getJob parseCanonical p (pollUrl Worker.otherId) request.userSub =
        some (.found (statusResponse row (p.2.stamps Worker.otherId))) := by
  have hInit : (stamped jobDeployment).init (sampleStart, ⟨fun _ => 0, 0, fun _ => ⟨0, 0⟩⟩) :=
    ⟨⟨Routes.init_sampleStart, Worker.init_sampleStart⟩, rfl⟩
  obtain ⟨p, run, hAccepts⟩ := (System.Reaches.init hInit).exec_any
    (by decide +kernel : ((stamped jobDeployment).exec System.anyRun _ answeredJob).any
      (accepts 0 Worker.otherId) = true)
  unfold accepts at hAccepts
  split at hAccepts
  case h_1 request id hProc =>
    obtain rfl := of_decide_eq_true hAccepts
    obtain ⟨⟨row, -, -, hFound, -⟩, -⟩ := accepted_job_pollable parseCanonical_text run hProc
    exact ⟨p, request, run, hProc, row, hFound⟩
  case h_2 => cases hAccepts

end Sample

end Gateway.Served
