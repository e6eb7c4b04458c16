import Gateway.Routes.Flow

/-! The dedup lock as a lease. The lock value does not name its holder and the
release deletes whatever is there, so what a release deletes depends on whether
the lease of the leaving request is still running. -/
namespace Gateway.Routes

open Transition Gateway.Cache

/-- The awaits inside an acquired block of `dedup_context`. -/
def Pc.inBlock : Pc → Bool
  | .callVendor | .setCached _ | .setResult _ | .publish _ | .incrQuota _ _
  | .expireQuota _ _ _ | .releaseLock _ => true
  | _ => false

/-- The request is inside a block that it acquired under this lock. -/
def Proc.InBlock (D : Deployment) (k : String) : Proc → Prop
  | .running ctx pc => pc.inBlock = true ∧ ctx.dedupKey D = k
  | _ => False

instance (D : Deployment) (k : String) (p : Proc) : Decidable (p.InBlock D k) :=
  match p with
  | .running _ _ => instDecidableAnd
  | .idle => isFalse id
  | .finished _ _ => isFalse id

def Pc.releases : Pc → Bool
  | .releaseLock _ => true
  | _ => false

/-- The request whose release of the lock Redis executes in an event. -/
def State.releasing (s : State) (e : Event) : Option Turn :=
  (s.executes e).filter fun turn => turn.pc.releases

theorem releasing_eq_some {s : State} {e : Event} {turn : Turn} :
    s.releasing e = some turn ↔
      (e = .deliver turn.client .reply ∨ e = .deliver turn.client (.raised true)) ∧
        s.procs turn.client = .running turn.ctx turn.pc ∧
          ∃ outcome, turn.pc = .releaseLock outcome := by
  have hReleases : turn.pc.releases = true ↔ ∃ outcome, turn.pc = .releaseLock outcome := by
    cases turn.pc <;> simp [Pc.releases]
  rw [State.releasing, Option.filter_eq_some_iff, executes_eq_some, hReleases, and_assoc]

def Pc.acquires : Pc → Bool
  | .acquireLock => true
  | _ => false

/-- The request whose SET NX succeeds in an event. -/
def State.acquiring (D : Deployment) (s : State) (e : Event) : Option Turn :=
  (s.executes e).filter fun turn =>
    turn.pc.acquires && (s.redis.lookup s.now (turn.ctx.dedupKey D)).isNone

theorem acquiring_eq_some {D : Deployment} {s : State} {e : Event} {turn : Turn} :
    s.acquiring D e = some turn ↔
      (e = .deliver turn.client .reply ∨ e = .deliver turn.client (.raised true)) ∧
        s.procs turn.client = .running turn.ctx turn.pc ∧ turn.pc = .acquireLock ∧
        s.redis.lookup s.now (turn.ctx.dedupKey D) = none := by
  have hAcquires : turn.pc.acquires = true ↔ turn.pc = .acquireLock := by
    cases turn.pc <;> simp [Pc.acquires]
  rw [State.acquiring, Option.filter_eq_some_iff, executes_eq_some, Bool.and_eq_true, hAcquires,
    Option.isNone_iff_eq_none, and_assoc]

theorem releasing_of_input {s : State} {r : ℕ} {input : Input} {ctx : Ctx} {outcome : Outcome}
    (hInput : input = .reply ∨ input = .raised true)
    (hProc : s.procs r = .running ctx (.releaseLock outcome)) :
    s.releasing (.deliver r input) = some ⟨r, ctx, .releaseLock outcome⟩ :=
  Option.filter_eq_some_iff.mpr ⟨executes_of_input hInput hProc, rfl⟩

theorem acquiring_of_input {D : Deployment} {s : State} {r : ℕ} {input : Input} {ctx : Ctx}
    (hInput : input = .reply ∨ input = .raised true)
    (hProc : s.procs r = .running ctx .acquireLock)
    (hAbsent : s.redis.lookup s.now (ctx.dedupKey D) = none) :
    s.acquiring D (.deliver r input) = some ⟨r, ctx, .acquireLock⟩ :=
  Option.filter_eq_some_iff.mpr ⟨executes_of_input hInput hProc, by simp [Pc.acquires, hAbsent]⟩

section Block

variable {D : Deployment} {now : ℚ} {r : ℕ} {s s' : RedisServer} {p p' : Proc} {input : Input}

theorem reply_acquire {ctx : Ctx} (h : D.reply now r ctx s .acquireLock = some (s', p')) :
    (∃ e, s.lookup now (ctx.dedupKey D) = some e ∧ s' = s ∧ p' = .running ctx .subscribe) ∨
      (s.lookup now (ctx.dedupKey D) = none ∧
        s' = s.set (ctx.dedupKey D) (.int 1) (some (now + lockTtlSeconds)) r ∧
        p' = .running ctx .callVendor) := by
  cases hLookup : s.lookup now (ctx.dedupKey D) with
  | none =>
      rw [Deployment.reply, Redis.Server.setNx_of_none hLookup] at h
      cases h
      exact Or.inr ⟨rfl, rfl, rfl⟩
  | some e =>
      rw [Deployment.reply, Redis.Server.setNx_of_some hLookup] at h
      cases h
      exact Or.inl ⟨e, rfl, rfl, rfl⟩

theorem Flow.inBlock {ctx ctx' : Ctx} {pc pc' : Pc} (h : Flow now ctx pc input ctx' pc')
    (hBlock : pc'.inBlock = true) : pc.inBlock = true ∨ pc = .acquireLock ∧ pc' = .callVendor := by
  cases h with
  | acquired => exact Or.inr ⟨rfl, rfl⟩
  | _ => first | exact Or.inl rfl | cases hBlock

/-- A request comes to be inside a block only by a successful SET NX. -/
theorem inBlock_of_move {k : String} (h : Move D now r s p input s' p')
    (hIn : p'.InBlock D k) :
    p.InBlock D k ∨ ∃ ctx, p = .running ctx .acquireLock ∧ input = .reply ∧
      ctx.dedupKey D = k ∧ s.lookup now k = none ∧
      s' = s.set k (.int 1) (some (now + lockTtlSeconds)) r ∧ p' = .running ctx .callVendor := by
  cases p' with
  | idle => exact hIn.elim
  | finished request outcome => exact hIn.elim
  | running ctx' pc' =>
      obtain ⟨hBlock, rfl⟩ := hIn
      rcases start_cases h with ⟨_, _, _, _, rfl⟩ | ⟨ctx, pc, rfl, hFlow⟩
      · cases hBlock
      · have hKey : ctx'.dedupKey D = ctx.dedupKey D :=
          congrArg (Inbound.dedupKey D) hFlow.same.1
        rcases hFlow.inBlock hBlock with hBefore | ⟨rfl, rfl⟩
        · exact Or.inl ⟨hBefore, hKey.symm⟩
        · cases h with
          | reply _ _ hReply =>
            rcases reply_acquire hReply with ⟨_, _, _, hAfter⟩ | ⟨hLookup, hServer, hAfter⟩
            · cases hAfter
            · cases hAfter
              exact Or.inr ⟨_, rfl, rfl, rfl, hLookup, hServer, rfl⟩
          | raised _ _ _ hRaise => cases hRaise

/-- The lock changes by a SET NX that finds it absent, or by a release. -/
theorem lock_cases (X : Ctx) (h : Move D now r s p input s' p') :
    s'.entries (X.dedupKey D) = s.entries (X.dedupKey D) ∨
      (∃ ctx, p = .running ctx .acquireLock ∧ (input = .reply ∨ input = .raised true) ∧
        ctx.dedupKey D = X.dedupKey D ∧ s.lookup now (X.dedupKey D) = none ∧
        s'.entries (X.dedupKey D) = some ⟨.int 1, some (now + lockTtlSeconds), r⟩) ∨
      ∃ ctx outcome, p = .running ctx (.releaseLock outcome) ∧
        (input = .reply ∨ input = .raised true) ∧ ctx.dedupKey D = X.dedupKey D ∧
        s'.entries (X.dedupKey D) = none ∧ ∃ outcome', p' = .finished ctx.request outcome' := by
  by_cases hWrites : p.writes D = some (X.dedupKey D)
  · rcases move_server h with rfl | ⟨ctx, pc, p'', rfl, hInput, hReply⟩
    · exact Or.inl rfl
    · obtain ⟨hKey, rfl | ⟨outcome, rfl⟩⟩ := writes_lock hWrites
      · rcases reply_acquire hReply with ⟨_, _, rfl, _⟩ | ⟨hLookup, rfl, _⟩
        · exact Or.inl rfl
        · refine Or.inr (Or.inl ⟨ctx, rfl, hInput.imp And.left id, hKey, hKey ▸ hLookup, ?_⟩)
          rw [hKey, Redis.Server.set_entries_self]
      · refine Or.inr (Or.inr ⟨ctx, outcome, rfl, hInput.imp And.left id, hKey, ?_, ?_⟩)
        · obtain ⟨rfl, _⟩ := Prod.mk.inj (Option.some.inj hReply)
          rw [hKey, Redis.Server.del_entries_self]
        · cases h with
          | reply _ _ hAfter =>
              obtain ⟨_, rfl⟩ := Prod.mk.inj (Option.some.inj hAfter)
              exact ⟨outcome, rfl⟩
          | raised _ _ _ hRaise => exact ⟨.unhandled, (Option.some.inj hRaise).symm⟩
  · exact Or.inl (move_entries_of_ne h hWrites)

end Block

/-- History: when each request acquired its lock. -/
abbrev LockTimes := ℕ → ℚ

def recordLock (s : State) (e : Event) (lockedAt : LockTimes) : LockTimes := fun r =>
  match e, s.procs r with
  | .deliver r' .reply, .running _ .acquireLock => if r' = r then s.now else lockedAt r
  | _, _ => lockedAt r

def leased (D : Deployment) : System (State × LockTimes) Event :=
  D.machine.withHistory (fun _ => 0) recordLock

/-- A request leaves its block within its own lease, or when no lock is left. -/
def TimelyRelease (D : Deployment) (p : State × LockTimes) (e : Event) : Prop :=
  ∀ turn ∈ p.1.releasing e, p.1.now < p.2 turn.client + lockTtlSeconds ∨
    p.1.redis.lookup p.1.now (turn.ctx.dedupKey D) = none

instance (D : Deployment) (p : State × LockTimes) (e : Event) :
    Decidable (TimelyRelease D p e) :=
  inferInstanceAs (Decidable (∀ turn ∈ p.1.releasing e, _))

/-- Nothing but the own lock is deleted on leaving a block. -/
def DeletesOwnLock (D : Deployment) (s : State) (e : Event) : Prop :=
  ∀ turn ∈ s.releasing e, ∀ entry ∈ s.redis.lookup s.now (turn.ctx.dedupKey D),
    entry.writer = turn.client

instance (D : Deployment) (s : State) (e : Event) : Decidable (DeletesOwnLock D s e) :=
  inferInstanceAs (Decidable (∀ turn ∈ s.releasing e, ∀ entry ∈ _, _))

/-- At most one request is inside a block with its lease still running. -/
def Exclusive (D : Deployment) (p : State × LockTimes) : Prop :=
  ∀ k r r', (p.1.procs r).InBlock D k → (p.1.procs r').InBlock D k →
    p.1.now < p.2 r + lockTtlSeconds → p.1.now < p.2 r' + lockTtlSeconds → r = r'

/-- While its lease runs, a request inside a block finds its own lock in Redis. -/
def Leased (D : Deployment) (p : State × LockTimes) : Prop :=
  ∀ k r, (p.1.procs r).InBlock D k → p.1.now < p.2 r + lockTtlSeconds →
    p.1.redis.entries k = some ⟨.int 1, some (p.2 r + lockTtlSeconds), r⟩

/-- A lock in Redis expires with the lease of the request that wrote it. -/
def Dated (D : Deployment) (p : State × LockTimes) : Prop :=
  ∀ k r e, (p.1.procs r).InBlock D k → p.1.redis.entries k = some e → e.writer = r →
    e.expiresAt = some (p.2 r + lockTtlSeconds)

section Invariants

variable {D : Deployment} {s : State} {lockedAt : LockTimes} {p q : State × LockTimes} {e : Event}
  {k : String} {r : ℕ}

theorem InBlock.key {proc : Proc} (h : proc.InBlock D k) : ∃ X : Ctx, X.dedupKey D = k := by
  cases proc with
  | running ctx pc => exact ⟨ctx, h.2⟩
  | _ => exact h.elim

theorem recordLock_acquire {ctx : Ctx} (h : s.procs r = .running ctx .acquireLock) :
    recordLock s (.deliver r .reply) lockedAt r = s.now := by
  simp [recordLock, h]

theorem recordLock_of_not_acquire (h : ∀ ctx, s.procs r ≠ .running ctx .acquireLock) :
    recordLock s e lockedAt r = lockedAt r := by
  unfold recordLock
  split
  case h_1 hProc => exact absurd hProc (h _)
  case h_2 => rfl

theorem recordLock_of_inBlock (h : (s.procs r).InBlock D k) :
    recordLock s e lockedAt r = lockedAt r :=
  recordLock_of_not_acquire fun ctx hProc => by
    rw [hProc] at h
    cases h.1

theorem recordLock_of_ne {r' : ℕ} {input : Input} (h : r ≠ r') :
    recordLock s (.deliver r' input) lockedAt r = lockedAt r := by
  unfold recordLock
  split
  case h_1 hEvent _ =>
    obtain ⟨rfl, _⟩ := Event.deliver.inj hEvent
    exact if_neg h.symm
  case h_2 => rfl

/-- Inside a block with its lease running, a request finds its lock unexpired. -/
theorem Leased.lookup (hLeased : Leased D (s, lockedAt)) (hIn : (s.procs r).InBlock D k)
    (hLease : s.now < lockedAt r + lockTtlSeconds) :
    s.redis.lookup s.now k = some ⟨.int 1, some (lockedAt r + lockTtlSeconds), r⟩ :=
  Redis.Server.lookup_eq_some.mpr
    ⟨hLeased k r hIn hLease, by simpa [Redis.Entry.live] using hLease⟩

/-- No release hits the lock of another request whose lease is running. -/
def Spares (D : Deployment) (p : State × LockTimes) (e : Event) : Prop :=
  ∀ turn ∈ p.1.releasing e, ∀ r, (p.1.procs r).InBlock D (turn.ctx.dedupKey D) →
    p.1.now < p.2 r + lockTtlSeconds → r = turn.client

theorem inBlock_of_releasing {turn : Turn} (h : s.releasing e = some turn) :
    (s.procs turn.client).InBlock D (turn.ctx.dedupKey D) := by
  obtain ⟨_, hProc, outcome, hPc⟩ := releasing_eq_some.mp h
  rw [hProc, hPc]
  exact ⟨rfl, rfl⟩

theorem spares_of_timely (hLeased : Leased D p) (hTimely : TimelyRelease D p e) :
    Spares D p e := by
  intro turn hRelease r hIn hLease
  rcases hTimely turn hRelease with hIntime | hAbsent
  · have hOwn := hLeased _ r hIn hLease
    have hReleaser := hLeased _ turn.client (inBlock_of_releasing hRelease) hIntime
    rw [hOwn] at hReleaser
    exact congrArg Redis.Entry.writer (Option.some.inj hReleaser)
  · rw [hLeased.lookup hIn hLease] at hAbsent
    cases hAbsent

section Move

variable {r' : ℕ} {input : Input} {redis : RedisServer} {proc : Proc} {X : Ctx}

/-- A move of another request leaves a running lease alone. -/
theorem leased_other (hLeased : Leased D (s, lockedAt))
    (hSpares : Spares D (s, lockedAt) (.deliver r' input))
    (hMove : Move D s.now r' s.redis (s.procs r') input redis proc) (hNe : r ≠ r')
    (hIn : (s.procs r).InBlock D (X.dedupKey D)) (hLease : s.now < lockedAt r + lockTtlSeconds) :
    redis.entries (X.dedupKey D) = some ⟨.int 1, some (lockedAt r + lockTtlSeconds), r⟩ := by
  rcases lock_cases X hMove with hSame | ⟨_, _, _, _, hAbsent, _⟩ |
    ⟨ctx, outcome, hProc, hInput, hKey, _, _⟩
  · rw [hSame, hLeased _ r hIn hLease]
  · rw [hLeased.lookup hIn hLease] at hAbsent
    cases hAbsent
  · have hRelease := releasing_of_input hInput hProc
    exact absurd (hSpares _ hRelease r (by rw [hKey]; exact hIn) hLease) hNe

theorem leased_move (hLeased : Leased D (s, lockedAt))
    (hSpares : Spares D (s, lockedAt) (.deliver r' input))
    (hMove : Move D s.now r' s.redis (s.procs r') input redis proc) :
    Leased D (⟨s.now, redis, Function.update s.procs r' proc⟩,
      recordLock s (.deliver r' input) lockedAt) := by
  intro k r hIn hLease
  obtain ⟨X, rfl⟩ := InBlock.key hIn
  by_cases hr : r = r'
  · subst hr
    simp only [Function.update_self] at hIn
    rcases inBlock_of_move hMove hIn with hBefore | ⟨ctx, hProc, rfl, _, _, hServer, _⟩
    · simp only [recordLock_of_inBlock hBefore] at hLease ⊢
      rcases lock_cases X hMove with hSame | ⟨_, hProc, _⟩ | ⟨_, _, _, _, _, _, _, hAfter⟩
      · exact hSame.trans (hLeased _ r hBefore hLease)
      · rw [hProc] at hBefore
        cases hBefore.1
      · rw [hAfter] at hIn
        exact hIn.elim
    · simp only [recordLock_acquire hProc, hServer, Redis.Server.set_entries_self]
  · simp only [Function.update_of_ne hr] at hIn
    simp only [recordLock_of_ne hr] at hLease ⊢
    exact leased_other hLeased hSpares hMove hr hIn hLease

end Move

theorem leased_elapse {dt : ℚ} (hdt : 0 ≤ dt) (hLeased : Leased D (s, lockedAt)) :
    Leased D ({ s with now := s.now + dt }, lockedAt) := by
  intro k r hIn hLease
  have hBefore : s.now < lockedAt r + lockTtlSeconds :=
    lt_of_le_of_lt (le_add_of_nonneg_right hdt) hLease
  exact hLeased k r hIn hBefore

theorem leased_step (hLeased : Leased D p) (hTimely : TimelyRelease D p e)
    (next : (leased D).step p e = some q) : Leased D q := by
  have hSpares := spares_of_timely hLeased hTimely
  obtain ⟨s, lockedAt⟩ := p
  rcases recorded_cases next with ⟨dt, rfl, hdt, rfl⟩ | ⟨r', input, redis, proc, rfl, hMove, rfl⟩
  · exact leased_elapse hdt hLeased
  · exact leased_move hLeased hSpares hMove

theorem leased_run (run : (leased D).Reaches (TimelyRelease D) p) : Leased D p := by
  refine run.invariant (fun s hInit k r hIn => ?_) fun p q e _ ih hTimely next =>
    leased_step ih hTimely next
  rw [hInit.1.2.2 r] at hIn
  exact hIn.elim

theorem dated_step (hDated : Dated D p) (next : (leased D).step p e = some q) : Dated D q := by
  obtain ⟨s, lockedAt⟩ := p
  rcases recorded_cases next with ⟨dt, rfl, hdt, rfl⟩ | ⟨r', input, redis, proc, rfl, hMove, rfl⟩
  · exact hDated
  · intro k r e hIn hEntry hWriter
    obtain ⟨X, rfl⟩ := InBlock.key hIn
    simp only at hEntry
    by_cases hr : r = r'
    · subst hr
      simp only [Function.update_self] at hIn
      rcases inBlock_of_move hMove hIn with hBefore | ⟨ctx, hProc, rfl, _, _, hServer, _⟩
      · simp only [recordLock_of_inBlock hBefore]
        rcases lock_cases X hMove with hSame | ⟨_, hProc, _⟩ | ⟨_, _, _, _, _, _, _, hAfter⟩
        · exact hDated _ r e hBefore (hSame ▸ hEntry) hWriter
        · rw [hProc] at hBefore
          cases hBefore.1
        · rw [hAfter] at hIn
          exact hIn.elim
      · rw [hServer, Redis.Server.set_entries_self] at hEntry
        obtain rfl := Option.some.inj hEntry
        simp only [recordLock_acquire hProc]
    · simp only [Function.update_of_ne hr] at hIn
      simp only [recordLock_of_ne hr]
      rcases lock_cases X hMove with hSame | ⟨_, _, _, _, _, hNew⟩ | ⟨_, _, _, _, _, hGone, _⟩
      · exact hDated _ r e hIn (hSame ▸ hEntry) hWriter
      · rw [hNew] at hEntry
        obtain rfl := Option.some.inj hEntry
        exact absurd hWriter.symm hr
      · rw [hGone] at hEntry
        cases hEntry

theorem dated_run {allowed} (run : (leased D).Reaches allowed p) : Dated D p := by
  refine run.invariant (fun s hInit k r e hIn => ?_) fun p q e _ ih _ next => dated_step ih next
  rw [hInit.1.2.2 r] at hIn
  exact hIn.elim

/-- Two running leases on one key would both be the lock in Redis. -/
theorem exclusive_of_leased (h : Leased D p) : Exclusive D p := by
  intro k r r' hIn hIn' hLease hLease'
  have hSame := (h k r hIn hLease).symm.trans (h k r' hIn' hLease')
  exact congrArg Redis.Entry.writer (Option.some.inj hSame)

end Invariants

/-- In every run whose releases are timely the dedup lock is a sound lease: at
most one request is inside a block with its lease running, and no release
deletes the lock of another request. In such a run the first release that is not
timely deletes the lock of another request, so the condition is exact. -/
theorem lock_is_lease (D : Deployment) (p : State × LockTimes)
    (run : (leased D).Reaches (TimelyRelease D) p) :
    Exclusive D p ∧ ∀ e, DeletesOwnLock D p.1 e ↔ TimelyRelease D p e := by
  have hLeased := leased_run run
  refine ⟨exclusive_of_leased hLeased, fun e => ⟨fun hOwn turn hRelease => ?_,
    fun hTimely turn hRelease entry hLookup => ?_⟩⟩
  · cases hLookup : p.1.redis.lookup p.1.now (turn.ctx.dedupKey D) with
    | none => exact Or.inr rfl
    | some entry =>
        obtain ⟨hEntry, hLive⟩ := Redis.Server.lookup_eq_some.mp hLookup
        have hExpires := dated_run run _ turn.client entry (inBlock_of_releasing hRelease) hEntry
          (hOwn turn hRelease entry hLookup)
        exact Or.inl (by simpa [Redis.Entry.live, hExpires] using hLive)
  · rcases hTimely turn hRelease with hLease | hAbsent
    · obtain ⟨hEntry, _⟩ := Redis.Server.lookup_eq_some.mp hLookup
      have hOwn := hLeased _ turn.client (inBlock_of_releasing hRelease) hLease
      rw [hEntry] at hOwn
      exact congrArg Redis.Entry.writer (Option.some.inj hOwn)
    · rw [Option.mem_def, hAbsent] at hLookup
      cases hLookup

section Traces

/-- Lock, error answer of the vendor after some time, release. -/
def failedCall (r : ℕ) (seconds : ℚ) : List Event :=
  [.deliver r .reply, .elapse seconds, .deliver r (.vendor (.response ⟨500, [], []⟩)),
    .deliver r .reply]

theorem init_leased {D : Deployment} : (leased D).init (sampleStart, fun _ => 0) :=
  ⟨init_sampleStart, rfl⟩

def sampleLock : String := (sampleCtx 60 (sampleRequest .get "p")).dedupKey (sampleDeployment 60)

/-- Two requests one after the other, the first within its lease. -/
theorem lock_is_lease_in_turn :
    ∃ p, (leased (sampleDeployment 60)).Reaches (TimelyRelease (sampleDeployment 60)) p ∧
      (p.1.procs 1).InBlock (sampleDeployment 60) sampleLock ∧
      Exclusive (sampleDeployment 60) p := by
  have hDone : ((leased (sampleDeployment 60)).exec (TimelyRelease (sampleDeployment 60))
      (sampleStart, fun _ => 0)
      (upToLock 0 (sampleRequest .get "p") ++ failedCall 0 29 ++
        upToLock 1 (sampleRequest .get "p") ++ [.deliver 1 .reply])).any
      (fun p => decide ((p.1.procs 1).InBlock (sampleDeployment 60) sampleLock)) = true := by
    decide +kernel
  obtain ⟨p, run, hCheck⟩ := System.Reaches.exec_any (.init init_leased) hDone
  exact ⟨p, run, of_decide_eq_true hCheck, (lock_is_lease _ p run).1⟩

/-- The vendor call of request 0 takes 31 seconds, after 30 of them request 1
takes the lock over, request 0 deletes it, and request 2 enters its block while
request 1 is still inside with its lease running. -/
def lateRelease : List Event :=
  upToLock 0 (sampleRequest .get "p") ++ upToLock 1 (sampleRequest .get "p") ++
    upToLock 2 (sampleRequest .get "p") ++ [.deliver 0 .reply, .elapse 31, .deliver 1 .reply,
      .deliver 0 (.vendor (.response ⟨500, [], []⟩))]

theorem lock_not_lease :
    (∃ p, (leased (sampleDeployment 60)).Reaches System.anyRun p ∧
      ¬DeletesOwnLock (sampleDeployment 60) p.1 (.deliver 0 .reply)) ∧
    ∃ p, (leased (sampleDeployment 60)).Reaches System.anyRun p ∧
      ¬Exclusive (sampleDeployment 60) p := by
  have hDelete : ((leased (sampleDeployment 60)).exec System.anyRun (sampleStart, fun _ => 0)
      lateRelease).any (fun p =>
        !decide (DeletesOwnLock (sampleDeployment 60) p.1 (.deliver 0 .reply))) = true := by
    decide +kernel
  have hBoth : ((leased (sampleDeployment 60)).exec System.anyRun (sampleStart, fun _ => 0)
      (lateRelease ++ [.deliver 0 .reply, .deliver 2 .reply])).any (fun p =>
        decide (((p.1.procs 1).InBlock (sampleDeployment 60) sampleLock ∧
          (p.1.procs 2).InBlock (sampleDeployment 60) sampleLock) ∧
          p.1.now < p.2 1 + lockTtlSeconds ∧ p.1.now < p.2 2 + lockTtlSeconds)) = true := by
    decide +kernel
  refine ⟨?_, ?_⟩
  · obtain ⟨p, run, hCheck⟩ := System.Reaches.exec_any (.init init_leased) hDelete
    exact ⟨p, run, by simpa using hCheck⟩
  · obtain ⟨p, run, hCheck⟩ := System.Reaches.exec_any (.init init_leased) hBoth
    obtain ⟨⟨hFirst, hSecond⟩, hLease, hLease'⟩ := of_decide_eq_true hCheck
    refine ⟨p, run, fun hExclusive => ?_⟩
    have hSame := hExclusive _ 1 2 hFirst hSecond hLease hLease'
    cases hSame

end Traces

end Gateway.Routes
