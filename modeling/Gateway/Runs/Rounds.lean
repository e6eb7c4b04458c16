import Gateway.Runs.Lease

/-! Successive rounds of lock, store, publish and release on one dedup key. The
stored result outlives the round that stored it, and nothing clears it when the
next round starts. -/
namespace Gateway.Routes

open Transition Gateway.Cache

section Wait

variable {D : Deployment} {now : ℚ} {r : ℕ} {s s' : RedisServer} {p p' : Proc} {input : Input}
  {ctx : Ctx}

/-- A stored result changes only by a SET of `dedup_publish`. -/
theorem result_cases (X : Ctx) (h : Move D now r s p input s' p') :
    s'.entries (resultKey (X.dedupKey D)) = s.entries (resultKey (X.dedupKey D)) ∨
      ∃ ctx f, p = .running ctx (.setResult f) ∧ (input = .reply ∨ input = .raised true) ∧
        ctx.dedupKey D = X.dedupKey D ∧ s' = s.set (resultKey (X.dedupKey D))
          (.text f.cached) (some (now + resultTtlSeconds)) r := by
  by_cases hWrites : p.writes D = some (resultKey (X.dedupKey D))
  · rcases move_server h with rfl | ⟨ctx, pc, p'', rfl, hInput, hReply⟩
    · exact Or.inl rfl
    · obtain ⟨hKey, f, rfl⟩ := writes_result hWrites
      obtain ⟨rfl, _⟩ := Prod.mk.inj (Option.some.inj hReply)
      exact Or.inr ⟨ctx, f, rfl, hInput.imp And.left id, hKey, by rw [hKey]⟩
  · exact Or.inl (move_entries_of_ne h hWrites)

theorem found_of_getResult {c : CachedResponse}
    (h : D.reply now r ctx s .getResult = some (s', .running ctx (.unsubscribe (.found c)))) :
    ∃ e, s.lookup now (resultKey (ctx.dedupKey D)) = some e ∧ e.value = .text c := by
  have hAfter := congrArg Prod.snd (Option.some.inj h)
  simp only [afterGetResult] at hAfter
  split at hAfter
  case h_1 => cases hAfter
  case h_2 hGet =>
    cases hAfter
    exact Redis.Server.get_eq_some.mp hGet
  case h_3 => cases hAfter

theorem found_of_getMessage {deadline : ℚ} {c : CachedResponse}
    (h : D.reply now r ctx s (.getMessage deadline) =
      some (s', .running ctx (.unsubscribe (.found c)))) :
    ∃ publisher, (s.poll r).2 = some (.message c publisher) := by
  have hAfter := congrArg Prod.snd (Option.some.inj h)
  simp only [afterGetMessage] at hAfter
  split at hAfter
  case h_1 publisher hPoll =>
    cases hAfter
    exact ⟨publisher, hPoll⟩
  case h_2 => cases hAfter
  case h_3 => cases hAfter

/-- A message that is unread after a move was unread before it, or has just been
published by the request that moves. -/
theorem unread_of_move {w x : ℕ} {c : CachedResponse} (h : Move D now r s p input s' p')
    (hUnread : s'.Unread w (.message c x)) :
    s.Unread w (.message c x) ∨ ∃ ctx f, p = .running ctx (.publish f) ∧ c = f.cached ∧ x = r ∧
      (input = .reply ∨ input = .raised true) ∧ ∃ sub, s.subscriptions w = some sub ∧ sub.channel = ctx.dedupKey D := by
  rcases move_server h with rfl | ⟨ctx, pc, p'', rfl, hInput, hReply⟩
  · exact Or.inl hUnread
  · rcases reply_subscriptions hReply with hSame | ⟨_, rfl⟩ | ⟨_, _, rfl⟩ | ⟨_, _, rfl⟩ |
      ⟨f, rfl, rfl⟩
    · obtain ⟨sub, hSub, hMem⟩ := hUnread
      exact Or.inl ⟨sub, hSame ▸ hSub, hMem⟩
    · exact Or.inl hUnread.of_subscribe
    · exact Or.inl hUnread.of_poll
    · exact Or.inl hUnread.of_unsubscribe
    · exact hUnread.of_publish.imp_right fun ⟨hc, hx, hSub⟩ =>
        ⟨ctx, f, rfl, hc, hx, hInput.imp And.left id, hSub⟩

/-- A move of one request does not open a connection for another. -/
theorem subscriptions_none_of_move {w : ℕ} (h : Move D now r s p input s' p') (hw : w ≠ r)
    (hNone : s.subscriptions w = none) : s'.subscriptions w = none := by
  rcases move_server h with rfl | ⟨ctx, pc, p'', rfl, hInput, hReply⟩
  · exact hNone
  · rcases reply_subscriptions hReply with hSame | ⟨_, rfl⟩ | ⟨_, _, rfl⟩ | ⟨_, _, rfl⟩ |
      ⟨f, rfl, rfl⟩
    · rw [hSame, hNone]
    · simp [Redis.Server.subscribe, hw, hNone]
    · rw [Redis.Server.poll_subscriptions_of_ne s hw, hNone]
    · simp [Redis.Server.unsubscribe, hw, hNone]
    · simp [Redis.Server.publish, hNone]

/-- A connection keeps its channel; a new one listens on the dedup key. -/
theorem channel_of_move {w : ℕ} {sub : Redis.Subscription String CachedResponse ℕ}
    (h : Move D now r s p input s' p') (hSub : s'.subscriptions w = some sub) :
    (∃ before, s.subscriptions w = some before ∧ before.channel = sub.channel) ∨
      w = r ∧ ∃ ctx, p = .running ctx .subscribe ∧ sub.channel = ctx.dedupKey D := by
  rcases move_server h with rfl | ⟨ctx, pc, p'', rfl, _, hReply⟩
  · exact Or.inl ⟨sub, hSub, rfl⟩
  · rcases reply_subscriptions hReply with hSame | ⟨rfl, rfl⟩ | ⟨_, rfl, rfl⟩ | ⟨_, rfl, rfl⟩ |
      ⟨f, rfl, rfl⟩
    · exact Or.inl ⟨sub, hSame ▸ hSub, rfl⟩
    · by_cases hw : w = r
      · subst hw
        have hNew : (⟨ctx.dedupKey D, [.subscribe]⟩ : Redis.Subscription _ _ _) = sub := by
          simpa [Redis.Server.subscribe] using hSub
        exact Or.inr ⟨rfl, ctx, rfl, hNew ▸ rfl⟩
      · exact Or.inl ⟨sub, by simpa [Redis.Server.subscribe, hw] using hSub, rfl⟩
    · by_cases hw : w = r
      · subst hw
        unfold Redis.Server.poll at hSub
        split at hSub
        case h_1 channel frame rest hBefore =>
          have hNew : (⟨channel, rest⟩ : Redis.Subscription _ _ _) = sub := by simpa using hSub
          exact Or.inl ⟨_, hBefore, hNew ▸ rfl⟩
        case h_2 => exact Or.inl ⟨sub, hSub, rfl⟩
      · exact Or.inl ⟨sub, (Redis.Server.poll_subscriptions_of_ne s hw) ▸ hSub, rfl⟩
    · by_cases hw : w = r
      · simp [Redis.Server.unsubscribe, hw] at hSub
      · exact Or.inl ⟨sub, by simpa [Redis.Server.unsubscribe, hw] using hSub, rfl⟩
    · obtain ⟨before, hBefore, rfl⟩ := Option.map_eq_some_iff.mp hSub
      refine Or.inl ⟨before, hBefore, ?_⟩
      split_ifs <;> rfl

end Wait

/-- History: whose lock has been in place since a request arrived, and since it was
told to wait, and whose response it got as the answer of its wait. -/
structure Rounds where
  met : ℕ → ℕ → Bool
  awaited : ℕ → ℕ → Bool
  source : ℕ → Option ℕ

/-- Who holds the lock of a request: the lock is in Redis and its lease is running. -/
def State.holder (D : Deployment) (s : State) (ctx : Ctx) : Option ℕ :=
  (s.redis.lookup s.now (ctx.dedupKey D)).map Redis.Entry.writer

/-- The awaits of a request that has been told to wait. -/
def Pc.waits : Pc → Bool
  | .subscribe | .getResult | .sleep _ | .getMessage _ | .unsubscribe _ => true
  | _ => false

/-- The request has been told to wait, or is told so in this event if its lock is taken. -/
def Turn.waits (turn : Turn) : Event → Bool
  | .deliver r .reply => turn.pc.waits || turn.pc.acquires && r == turn.client
  | _ => turn.pc.waits

/-- Whose response a waiting request reads in this step. -/
def State.source (D : Deployment) (s : State) (turn : Turn) : Option ℕ :=
  match turn.pc with
  | .getResult =>
      (s.redis.lookup s.now (resultKey (turn.ctx.dedupKey D))).map Redis.Entry.writer
  | .getMessage _ =>
      match (s.redis.poll turn.client).2 with
      | some (.message _ publisher) => some publisher
      | _ => none
  | _ => none

def recordRounds (D : Deployment) (s : State) (e : Event) (h : Rounds) : Rounds where
  met w x := h.met w x || (s.turn w).any fun turn => s.holder D turn.ctx == some x
  awaited w x := h.awaited w x ||
    (s.turn w).any fun turn => turn.waits e && s.holder D turn.ctx == some x
  source w :=
    match e with
    | .deliver w' .reply => if w' = w then ((s.turn w).bind (s.source D)).or (h.source w)
        else h.source w
    | _ => h.source w

def Rounds.start : Rounds := ⟨fun _ _ => false, fun _ _ => false, fun _ => none⟩

def rounds (D : Deployment) : System (State × Rounds) Event :=
  D.machine.withHistory .start (recordRounds D)

section Record

variable {D : Deployment} {s : State} {e : Event} {h : Rounds} {w x : ℕ}

theorem awaited_mono (hAwaited : h.awaited w x = true) :
    (recordRounds D s e h).awaited w x = true := by
  simp [recordRounds, hAwaited]

theorem awaited_of_holder {ctx : Ctx} {pc : Pc} (hProc : s.procs w = .running ctx pc)
    (hWaits : (Turn.mk w ctx pc).waits e = true) (hHolder : s.holder D ctx = some x) :
    (recordRounds D s e h).awaited w x = true := by
  have hTurn : s.turn w = some ⟨w, ctx, pc⟩ := turn_eq_some.mpr ⟨rfl, hProc⟩
  simp [recordRounds, hTurn, hWaits, hHolder]

/-- Whose lock is met while a request waits is met while it lives. -/
theorem met_record (hBefore : h.awaited w x = true → h.met w x = true)
    (hAwaited : (recordRounds D s e h).awaited w x = true) :
    (recordRounds D s e h).met w x = true := by
  rcases Bool.or_eq_true_iff.mp hAwaited with hOld | hNow
  · simp [recordRounds, hBefore hOld]
  · obtain ⟨turn, hTurn, hHolder⟩ := (Option.any_eq_true _ _).mp hNow
    have hSame := (Bool.and_eq_true_iff.mp hHolder).2
    simp only [recordRounds, hTurn, Option.any_some, hSame, Bool.or_true]

theorem Pc.waits_turn {pc : Pc} {ctx : Ctx} (h : pc.waits = true) :
    (Turn.mk w ctx pc).waits e = true := by
  unfold Turn.waits
  split <;> simp [h]

theorem source_record (hSource : (recordRounds D s e h).source w = some x) :
    h.source w = some x ∨ e = .deliver w .reply ∧
      ∃ turn, s.turn w = some turn ∧ s.source D turn = some x := by
  simp only [recordRounds] at hSource
  split at hSource
  case h_1 w' =>
    split_ifs at hSource with hSame
    · rcases Option.or_eq_some_iff.mp hSource with hNow | ⟨_, hBefore⟩
      · obtain ⟨turn, hTurn, hRead⟩ := Option.bind_eq_some_iff.mp hNow
        exact Or.inr ⟨by rw [hSame], turn, hTurn, hRead⟩
      · exact Or.inl hBefore
    · exact Or.inl hSource
  case h_2 => exact Or.inl hSource

end Record

/-- What is true of the connections and of the history in any run. -/
structure Chronicle (D : Deployment) (p : State × Rounds) : Prop where
  idle : ∀ w, p.1.procs w = .idle → p.1.redis.subscriptions w = none
  /-- Only a request that waits has a connection, on the channel of its key. -/
  tuned : ∀ w ctx pc sub, p.1.procs w = .running ctx pc →
    p.1.redis.subscriptions w = some sub → pc.waits = true ∧ sub.channel = ctx.dedupKey D
  met : ∀ w x, p.2.awaited w x = true → p.2.met w x = true

section Chronicle

variable {D : Deployment} {s : State} {h : Rounds} {r : ℕ} {input : Input} {redis : RedisServer}
  {proc : Proc} {allowed : State × Rounds → Event → Prop} {p q : State × Rounds} {e : Event}

/-- A request that waits goes on waiting until it is done. -/
theorem Flow.waits {now : ℚ} {ctx ctx' : Ctx} {pc pc' : Pc} (hFlow : Flow now ctx pc input ctx' pc')
    (hWaits : pc.waits = true) : pc'.waits = true := by
  cases hFlow with
  | subscribed => rfl
  | stored => rfl
  | notStored => rfl
  | expired => rfl
  | polling => rfl
  | notified => rfl
  | notNotified => rfl
  | resultRaised => rfl
  | messageRaised => rfl
  | _ => cases hWaits

theorem tuned_move (hChronicle : Chronicle D (s, h))
    (hMove : Move D s.now r s.redis (s.procs r) input redis proc) (w : ℕ) (ctx : Ctx) (pc : Pc)
    (sub : Redis.Subscription String CachedResponse ℕ)
    (hProc : Function.update s.procs r proc w = .running ctx pc)
    (hSub : redis.subscriptions w = some sub) :
    pc.waits = true ∧ sub.channel = ctx.dedupKey D := by
  rcases procs_cases hProc with ⟨rfl, rfl⟩ | ⟨hw, hOld⟩
  · have hAfter := channel_of_move hMove hSub
    rcases start_cases hMove with ⟨hIdle, _⟩ | ⟨ctx₀, pc₀, hBefore, hFlow⟩
    · rcases hAfter with ⟨before, hOld, _⟩ | ⟨_, ctx', hSubscribe, _⟩
      · rw [hChronicle.idle w hIdle] at hOld
        cases hOld
      · rw [hIdle] at hSubscribe
        cases hSubscribe
    · have hKey : ctx₀.dedupKey D = ctx.dedupKey D :=
        congrArg (Inbound.dedupKey D) hFlow.same.1.symm
      rcases hAfter with ⟨before, hOld, hChannel⟩ | ⟨_, ctx', hSubscribe, hNew⟩
      · obtain ⟨hWaits, hTuned⟩ := hChronicle.tuned w ctx₀ pc₀ before hBefore hOld
        exact ⟨hFlow.waits hWaits, by rw [← hChannel, hTuned, hKey]⟩
      · rw [hBefore] at hSubscribe
        cases hSubscribe
        exact ⟨hFlow.waits rfl, hNew.trans hKey⟩
  · rcases channel_of_move hMove hSub with ⟨before, hBefore, hChannel⟩ | ⟨rfl, _⟩
    · obtain ⟨hWaits, hTuned⟩ := hChronicle.tuned w ctx pc before hOld hBefore
      exact ⟨hWaits, hChannel ▸ hTuned⟩
    · exact absurd rfl hw

theorem chronicle_step (hChronicle : Chronicle D p) (next : (rounds D).step p e = some q) :
    Chronicle D q := by
  obtain ⟨s, h⟩ := p
  rcases recorded_cases next with ⟨dt, rfl, hdt, rfl⟩ | ⟨r, input, redis, proc, rfl, hMove, rfl⟩
  · exact ⟨hChronicle.idle, hChronicle.tuned, fun w x => met_record (hChronicle.met w x)⟩
  · refine ⟨fun w hIdle => ?_, tuned_move hChronicle hMove,
      fun w x => met_record (hChronicle.met w x)⟩
    rcases procs_cases hIdle with ⟨rfl, rfl⟩ | ⟨hw, hOld⟩
    · exact absurd rfl (not_idle_of_move hMove)
    · exact subscriptions_none_of_move hMove hw (hChronicle.idle w hOld)

theorem chronicle_run (run : (rounds D).Reaches allowed p) : Chronicle D p := by
  refine run.invariant (fun p hInit => ?_) fun p q e _ ih _ next => chronicle_step ih next
  obtain ⟨s, h⟩ := p
  obtain ⟨⟨_, hRedis, hIdle⟩, rfl⟩ := hInit
  simp only at hRedis hIdle
  refine ⟨fun w _ => ?_, fun w ctx pc sub hProc => ?_, fun w x hAwaited => (by cases hAwaited)⟩
  · rw [hRedis]
    rfl
  · rw [hIdle w] at hProc
    cases hProc

end Chronicle

def Pc.readsResult : Pc → Bool
  | .getResult => true
  | _ => false

/-- The request whose GET of the stored result is answered in an event. -/
def State.reading (s : State) : Event → Option Turn
  | .deliver r .reply => (s.turn r).filter fun turn => turn.pc.readsResult
  | _ => none

/-- A new round starts only when the stored result of earlier ones is gone. -/
def FreshRound (D : Deployment) (p : State × Rounds) (e : Event) : Prop :=
  ∀ turn ∈ p.1.acquiring D e,
    p.1.redis.lookup p.1.now (resultKey (turn.ctx.dedupKey D)) = none

instance (D : Deployment) (p : State × Rounds) (e : Event) : Decidable (FreshRound D p e) :=
  inferInstanceAs (Decidable (∀ turn ∈ p.1.acquiring D e, _))

/-- The commands by which a response is shared. -/
def Pc.shares : Pc → Bool
  | .setResult _ | .publish _ => true
  | _ => false

/-- The request whose SET of the result or PUBLISH Redis executes in an event. -/
def State.sharing (s : State) (e : Event) : Option Turn :=
  (s.executes e).filter fun turn => turn.pc.shares

/-- A response is shared only by a request whose lock is still in place: its lease is
running, and nobody else has deleted it. -/
def SharesLocked (D : Deployment) (p : State × Rounds) (e : Event) : Prop :=
  ∀ turn ∈ p.1.sharing e, p.1.holder D turn.ctx = some turn.client

instance (D : Deployment) (p : State × Rounds) (e : Event) : Decidable (SharesLocked D p e) :=
  inferInstanceAs (Decidable (∀ turn ∈ p.1.sharing e, _))

def Orderly (D : Deployment) (p : State × Rounds) (e : Event) : Prop :=
  FreshRound D p e ∧ SharesLocked D p e

instance (D : Deployment) (p : State × Rounds) (e : Event) : Decidable (Orderly D p e) :=
  inferInstanceAs (Decidable (_ ∧ _))

/-- The stored result that a waiting request reads, if any, is of a request whose lock
has been in place since the waiting one arrived. -/
def ReadsCurrent (D : Deployment) (p : State × Rounds) (e : Event) : Prop :=
  ∀ turn ∈ p.1.reading e,
    ∀ entry ∈ p.1.redis.lookup p.1.now (resultKey (turn.ctx.dedupKey D)),
      p.2.met turn.client entry.writer = true ∨ p.1.holder D turn.ctx = some entry.writer

/-- The wait of a request has returned this response. -/
def State.Returned (s : State) (w : ℕ) (c : CachedResponse) : Prop :=
  (∃ ctx, s.procs w = .running ctx (.unsubscribe (.found c))) ∨
    ∃ request, s.procs w = .finished request (.fromDedup c)

/-- Every response that a wait has returned was published by a request whose lock has
been in place at a moment since the waiting request arrived. -/
structure NoReplay (p : State × Rounds) : Prop where
  sourced : ∀ w c, p.1.Returned w c → ∃ x, p.2.source w = some x
  overlaps : ∀ w x, p.2.source w = some x → p.2.met w x = true

/-- Every response that a wait has returned is that of the request it was told to wait
for, or of one that had the lock later. -/
def Awaits (p : State × Rounds) : Prop :=
  ∀ w x, p.2.source w = some x → p.2.awaited w x = true

section Rounds

variable {D : Deployment} {s : State} {h : Rounds} {r : ℕ} {input : Input} {redis : RedisServer}
  {proc : Proc} {allowed : State × Rounds → Event → Prop} {p q : State × Rounds} {e : Event}

theorem reading_eq_some {turn : Turn} :
    s.reading e = some turn ↔ e = .deliver turn.client .reply ∧ turn.pc = .getResult ∧
      s.procs turn.client = .running turn.ctx .getResult := by
  have hReads : turn.pc.readsResult = true ↔ turn.pc = .getResult := by
    cases turn.pc <;> simp [Pc.readsResult]
  refine ⟨fun hTurn => ?_, ?_⟩
  · unfold State.reading at hTurn
    split at hTurn
    · obtain ⟨hSome, hPc⟩ := Option.filter_eq_some_iff.mp hTurn
      obtain ⟨rfl, hProc⟩ := turn_eq_some.mp hSome
      rw [hReads.mp hPc] at hProc
      exact ⟨rfl, hReads.mp hPc, hProc⟩
    · cases hTurn
  · rintro ⟨rfl, hPc, hProc⟩
    exact Option.filter_eq_some_iff.mpr ⟨turn_eq_some.mpr ⟨rfl, hPc ▸ hProc⟩, hReads.mpr hPc⟩

theorem sharing_of_input {ctx : Ctx} {pc : Pc} (hInput : input = .reply ∨ input = .raised true)
    (hProc : s.procs r = .running ctx pc) (hShares : pc.shares = true) :
    s.sharing (.deliver r input) = some ⟨r, ctx, pc⟩ :=
  Option.filter_eq_some_iff.mpr ⟨executes_of_input hInput hProc, hShares⟩

/-- The awaits of a waiting request before it has read the stored result. -/
def Pc.joins : Pc → Bool
  | .subscribe | .getResult => true
  | _ => false

/-- What is unread by a waiting request is of one whose lock it has met while it waits. -/
def Heard (p : State × Rounds) : Prop :=
  ∀ w ctx pc c x, p.1.procs w = .running ctx pc → p.1.redis.Unread w (.message c x) →
    p.2.awaited w x = true

/-- What a run of fresh rounds keeps. -/
structure Fresh (D : Deployment) (p : State × Rounds) : Prop where
  /-- As long as a lock is held the stored result is the holder's. -/
  current : ∀ (X : Ctx) lock entry, p.1.redis.lookup p.1.now (X.dedupKey D) = some lock →
    p.1.redis.lookup p.1.now (resultKey (X.dedupKey D)) = some entry → entry.writer = lock.writer
  joining : ∀ w ctx pc entry, p.1.procs w = .running ctx pc → pc.joins = true →
    p.1.redis.lookup p.1.now (resultKey (ctx.dedupKey D)) = some entry →
      p.2.awaited w entry.writer = true
  source : Awaits p

theorem Pc.waits_of_joins {pc : Pc} (hJoins : pc.joins = true) : pc.waits = true := by
  cases pc with
  | subscribe => rfl
  | getResult => rfl
  | _ => cases hJoins

/-- A step of the request that it moves to or keeps before its read. -/
theorem Flow.joins {now : ℚ} {ctx ctx' : Ctx} {pc pc' : Pc}
    (hFlow : Flow now ctx pc input ctx' pc') (hJoins : pc'.joins = true) :
    ctx' = ctx ∧ (pc = .acquireLock ∧ pc' = .subscribe ∨ pc = .subscribe ∧ pc' = .getResult) := by
  cases hFlow with
  | refused => exact ⟨rfl, Or.inl ⟨rfl, rfl⟩⟩
  | subscribed => exact ⟨rfl, Or.inr ⟨rfl, rfl⟩⟩
  | _ => cases hJoins

/-- The lock of a request that shares a response is its own, before and after. -/
theorem holder_of_shares {ctx X : Ctx} {pc : Pc} (hShares : pc.shares = true)
    (hLocked : SharesLocked D (s, h) (.deliver r input))
    (hMove : Move D s.now r s.redis (s.procs r) input redis proc)
    (hInput : input = .reply ∨ input = .raised true) (hProc : s.procs r = .running ctx pc)
    (hKey : ctx.dedupKey D = X.dedupKey D) :
    s.holder D X = some r ∧
      redis.entries (X.dedupKey D) = s.redis.entries (X.dedupKey D) := by
  have hHolder : s.holder D ctx = some r :=
    hLocked ⟨r, ctx, pc⟩ (sharing_of_input hInput hProc hShares)
  have hSame : s.holder D X = s.holder D ctx := by simp only [State.holder, hKey]
  refine ⟨hSame.trans hHolder, ?_⟩
  rcases lock_cases X hMove with hSame | ⟨_, hAcquire, _⟩ | ⟨_, _, hRelease, _⟩
  · exact hSame
  · rw [hProc] at hAcquire
    cases hAcquire
    cases hShares
  · rw [hProc] at hRelease
    cases hRelease
    cases hShares

theorem fresh_current (hFresh : Fresh D (s, h)) (hOrderly : Orderly D (s, h) (.deliver r input))
    (hMove : Move D s.now r s.redis (s.procs r) input redis proc) (X : Ctx)
    (lock entry : Redis.Entry ℚ CachedResponse ℕ)
    (hLock : redis.lookup s.now (X.dedupKey D) = some lock)
    (hEntry : redis.lookup s.now (resultKey (X.dedupKey D)) = some entry) :
    entry.writer = lock.writer := by
  obtain ⟨hRound, hLocked⟩ := hOrderly
  rcases result_cases X hMove with hSame | ⟨ctx, f, hProc, hInput, hKey, hSet⟩
  · rw [Redis.Server.lookup_congr hSame] at hEntry
    rcases lock_cases X hMove with hLockSame | ⟨ctx, hProc, hInput, hKey, hAbsent, hNew⟩ |
      ⟨_, _, _, _, _, hGone, _⟩
    · rw [Redis.Server.lookup_congr hLockSame] at hLock
      exact hFresh.current X lock entry hLock hEntry
    · have hGone := hRound _ (acquiring_of_input hInput hProc (hKey ▸ hAbsent))
      simp only [hKey, hEntry] at hGone
      cases hGone
    · have hPresent := (Redis.Server.lookup_eq_some.mp hLock).1
      rw [hGone] at hPresent
      cases hPresent
  · obtain ⟨hHolder, hLockSame⟩ := holder_of_shares rfl hLocked hMove hInput hProc hKey
    rw [Redis.Server.lookup_congr hLockSame] at hLock
    rw [State.holder, hLock] at hHolder
    rw [hSet] at hEntry
    obtain rfl := Redis.Server.eq_of_lookup_set hEntry
    exact (Option.some.inj hHolder).symm

theorem fresh_joining (hFresh : Fresh D (s, h)) (hLocked : SharesLocked D (s, h) (.deliver r input))
    (hMove : Move D s.now r s.redis (s.procs r) input redis proc) (w : ℕ) (ctx : Ctx) (pc : Pc)
    (entry : Redis.Entry ℚ CachedResponse ℕ)
    (hProc : Function.update s.procs r proc w = .running ctx pc) (hJoins : pc.joins = true)
    (hEntry : redis.lookup s.now (resultKey (ctx.dedupKey D)) = some entry) :
    (recordRounds D s (.deliver r input) h).awaited w entry.writer = true := by
  rcases procs_cases hProc with ⟨rfl, rfl⟩ | ⟨hw, hOld⟩
  · rcases start_cases hMove with ⟨_, _, _, _, rfl⟩ | ⟨ctx₀, pc₀, hBefore, hFlow⟩
    · cases hJoins
    · obtain ⟨rfl, ⟨rfl, rfl⟩ | ⟨rfl, rfl⟩⟩ := hFlow.joins hJoins
      · -- it is told to wait for the holder, whose result is stored
        generalize hIdle : s.procs w = before at hMove
        rw [hBefore] at hIdle
        subst hIdle
        cases hMove with
        | reply _ _ hReply =>
          rcases reply_acquire hReply with ⟨lock, hLock, rfl, _⟩ | ⟨_, _, hAfter⟩
          · rw [hFresh.current ctx lock entry hLock hEntry]
            exact awaited_of_holder hBefore (by simp [Turn.waits, Pc.acquires])
              (by rw [State.holder, hLock]; rfl)
          · cases hAfter
        | raised _ _ _ hRaise => cases hRaise
      · refine awaited_mono (hFresh.joining w ctx _ entry hBefore rfl ?_)
        rw [hBefore] at hMove
        cases hMove with
        | reply _ _ hReply =>
            obtain ⟨rfl, _⟩ := Prod.mk.inj (Option.some.inj hReply)
            exact hEntry
        | raised _ _ _ hRaise => cases hRaise
  · rcases result_cases ctx hMove with hSame | ⟨ctx', f, hWriter, hInput, hKey, hSet⟩
    · rw [Redis.Server.lookup_congr hSame] at hEntry
      exact awaited_mono (hFresh.joining w ctx pc entry hOld hJoins hEntry)
    · rw [hSet] at hEntry
      obtain rfl := Redis.Server.eq_of_lookup_set hEntry
      exact awaited_of_holder hOld (Pc.waits_turn (Pc.waits_of_joins hJoins))
        (holder_of_shares rfl hLocked hMove hInput hWriter hKey).1

/-- A message comes from the request that has the lock while it is published. -/
theorem heard_step (hChronicle : Chronicle D p) (hHeard : Heard p) (hLocked : SharesLocked D p e)
    (next : (rounds D).step p e = some q) : Heard q := by
  obtain ⟨s, h⟩ := p
  rcases recorded_cases next with ⟨dt, rfl, hdt, rfl⟩ | ⟨r, input, redis, proc, rfl, hMove, rfl⟩
  · exact fun w ctx pc c x hProc hUnread => awaited_mono (hHeard w ctx pc c x hProc hUnread)
  · intro w ctx pc c x hProc hUnread
    rcases unread_of_move hMove hUnread with hOld | ⟨ctx', f, hPublish, _, rfl, hInput, sub, hSub,
      hChannel⟩
    · cases hBefore : s.procs w with
      | idle =>
          obtain ⟨sub, hSub, _⟩ := hOld
          rw [hChronicle.idle w hBefore] at hSub
          cases hSub
      | running ctx₀ pc₀ => exact awaited_mono (hHeard w ctx₀ pc₀ c x hBefore hOld)
      | finished request outcome =>
          rcases procs_cases hProc with ⟨rfl, rfl⟩ | ⟨_, hSame⟩
          · rw [hBefore] at hMove
            cases hMove
          · rw [hBefore] at hSame
            cases hSame
    · rcases procs_cases hProc with ⟨rfl, rfl⟩ | ⟨_, hBefore⟩
      · cases (hChronicle.tuned w ctx' _ sub hPublish hSub).1
      · obtain ⟨hWaits, hTuned⟩ := hChronicle.tuned w ctx pc sub hBefore hSub
        exact awaited_of_holder hBefore (Pc.waits_turn hWaits)
          (holder_of_shares rfl hLocked hMove hInput hPublish (hChannel.symm.trans hTuned)).1

theorem heard_run (run : (rounds D).Reaches (SharesLocked D) p) : Heard p := by
  refine run.invariant (fun p hInit => ?_) fun p q e prior ih hLocked next =>
    heard_step (chronicle_run prior) ih hLocked next
  intro w ctx pc c x hProc
  rw [hInit.1.2.2 w] at hProc
  cases hProc

/-- A response gets its source at the GET or from an unread message. -/
theorem source_cases {w x : ℕ} (hEvent : e = .deliver w .reply)
    (hRead : ∃ turn, s.turn w = some turn ∧ s.source D turn = some x) :
    (∃ turn entry, s.reading e = some turn ∧ turn.client = w ∧ entry.writer = x ∧
      s.redis.lookup s.now (resultKey (turn.ctx.dedupKey D)) = some entry) ∨
      (∃ ctx deadline, s.procs w = .running ctx (.getMessage deadline)) ∧
        ∃ c, s.redis.Unread w (.message c x) := by
  obtain ⟨⟨client, ctx, pc⟩, hTurn, hSource⟩ := hRead
  obtain ⟨rfl, hProc⟩ := turn_eq_some.mp hTurn
  unfold State.source at hSource
  simp only at hSource hProc
  split at hSource
  case h_1 =>
    obtain ⟨entry, hLookup, hWriter⟩ := Option.map_eq_some_iff.mp hSource
    exact Or.inl ⟨_, entry, reading_eq_some.mpr ⟨hEvent, rfl, hProc⟩, rfl, hWriter, hLookup⟩
  case h_2 deadline =>
    split at hSource
    case h_1 c publisher hPoll =>
      obtain rfl := Option.some.inj hSource
      exact Or.inr ⟨⟨ctx, deadline, hProc⟩, c, Redis.Server.unread_of_poll hPoll⟩
    case h_2 => cases hSource
  case h_3 => cases hSource

/-- What is told of the sources stays so, if it holds of what is read in the step. -/
theorem source_step {known : ℕ → ℕ → Prop} (next : (rounds D).step p e = some q)
    (hBefore : ∀ w x, p.2.source w = some x → known w x)
    (hGet : ∀ turn ∈ p.1.reading e,
      ∀ entry ∈ p.1.redis.lookup p.1.now (resultKey (turn.ctx.dedupKey D)),
        known turn.client entry.writer)
    (hMessage : ∀ w ctx pc c x, p.1.procs w = .running ctx pc →
      p.1.redis.Unread w (.message c x) → known w x) (w x : ℕ)
    (hSource : q.2.source w = some x) : known w x := by
  obtain ⟨s, h⟩ := p
  have hRecord : (recordRounds D s e h).source w = some x := by
    rcases recorded_cases next with ⟨_, rfl, _, rfl⟩ | ⟨_, _, _, _, rfl, _, rfl⟩ <;> exact hSource
  rcases source_record hRecord with hOld | ⟨hEvent, hRead⟩
  · exact hBefore w x hOld
  · rcases source_cases hEvent hRead with ⟨turn, entry, hTurn, rfl, rfl, hLookup⟩ |
      ⟨⟨ctx, deadline, hProc⟩, c, hUnread⟩
    · exact hGet turn hTurn entry hLookup
    · exact hMessage w ctx _ c x hProc hUnread

theorem fresh_step (hHeard : Heard p) (hFresh : Fresh D p) (hOrderly : Orderly D p e)
    (next : (rounds D).step p e = some q) : Fresh D q := by
  have hSource : ∀ w x, q.2.source w = some x → p.2.awaited w x = true :=
    source_step next hFresh.source (fun turn hTurn entry hLookup => by
      obtain ⟨_, _, hProc⟩ := reading_eq_some.mp hTurn
      exact hFresh.joining turn.client turn.ctx _ entry hProc rfl hLookup) hHeard
  obtain ⟨s, h⟩ := p
  rcases recorded_cases next with ⟨dt, rfl, hdt, rfl⟩ | ⟨r, input, redis, proc, rfl, hMove, rfl⟩
  · have hLater : s.now ≤ s.now + dt := le_add_of_nonneg_right hdt
    refine ⟨fun X lock entry hLock hEntry => ?_, fun w ctx pc entry hProc hJoins hEntry => ?_,
      fun w x hRead => awaited_mono (hSource w x hRead)⟩
    · exact hFresh.current X lock entry (Redis.Server.lookup_anti hLater hLock)
        (Redis.Server.lookup_anti hLater hEntry)
    · exact awaited_mono
        (hFresh.joining w ctx pc entry hProc hJoins (Redis.Server.lookup_anti hLater hEntry))
  · exact ⟨fresh_current (s := s) hFresh hOrderly hMove, fresh_joining hFresh hOrderly.2 hMove,
      fun w x hRead => awaited_mono (hSource w x hRead)⟩

theorem fresh_run (run : (rounds D).Reaches (Orderly D) p) : Fresh D p := by
  refine run.invariant (fun p hInit => ?_) fun p q e prior ih hOrderly next =>
    fresh_step (heard_run (prior.mono fun _ _ h => h.2)) ih hOrderly next
  obtain ⟨s, h⟩ := p
  obtain ⟨⟨_, hRedis, hIdle⟩, rfl⟩ := hInit
  simp only at hRedis hIdle
  refine ⟨fun X lock entry hLock => ?_, fun w ctx pc entry hProc => ?_,
    fun w x hSource => (by cases hSource)⟩
  · rw [hRedis] at hLock
    cases hLock
  · rw [hIdle w] at hProc
    cases hProc

/-- What a waiting request takes with it is the live dedup result or a message
on its connection, and the history notes whose response it is. -/
theorem found_cases {ctx : Ctx} {c : CachedResponse}
    (hMove : Move D s.now r s.redis (s.procs r) input redis
      (.running ctx (.unsubscribe (.found c)))) :
    input = .reply ∧ ∃ pc x, s.procs r = .running ctx pc ∧ s.source D ⟨r, ctx, pc⟩ = some x ∧
      ((pc = .getResult ∧ ∃ entry, s.redis.lookup s.now (resultKey (ctx.dedupKey D)) = some entry ∧
          entry.value = .text c ∧ entry.writer = x) ∨
        (∃ deadline, pc = .getMessage deadline) ∧ s.redis.Unread r (.message c x)) := by
  rcases start_cases hMove with ⟨_, _, _, _, hPc⟩ | ⟨ctx₀, pc₀, hBefore, hFlow⟩
  · cases hPc
  · rw [hBefore] at hMove
    cases hFlow with
    | stored =>
        cases hMove with
        | reply _ _ hReply =>
          obtain ⟨entry, hLookup, hText⟩ := found_of_getResult hReply
          refine ⟨rfl, _, entry.writer, hBefore, by simp [State.source, hLookup], Or.inl ⟨rfl, ?_⟩⟩
          exact ⟨entry, hLookup, hText, rfl⟩
    | notified deadline =>
        cases hMove with
        | reply _ _ hReply =>
          obtain ⟨publisher, hPoll⟩ := found_of_getMessage hReply
          refine ⟨rfl, _, publisher, hBefore, by simp [State.source, hPoll], Or.inr ⟨⟨_, rfl⟩, ?_⟩⟩
          exact Redis.Server.unread_of_poll hPoll

/-- A returned response has a source. -/
structure Sourced (p : State × Rounds) : Prop where
  returned : ∀ w c, p.1.Returned w c → ∃ x, p.2.source w = some x
  relayed : ∀ w ctx c, p.1.procs w ≠ .running ctx (.releaseLock (.fromDedup c))

theorem source_of_turn {w x : ℕ} {turn : Turn} (hTurn : s.turn w = some turn)
    (hRead : s.source D turn = some x) :
    (recordRounds D s (.deliver w .reply) h).source w = some x := by
  simp [recordRounds, hTurn, hRead]

theorem source_stays {w x : ℕ} (hSource : h.source w = some x) :
    ∃ y, (recordRounds D s e h).source w = some y := by
  simp only [recordRounds]
  split
  · split_ifs
    · rw [hSource]
      cases (s.turn w).bind (s.source D) with
      | none => exact ⟨x, rfl⟩
      | some y => exact ⟨y, rfl⟩
    · exact ⟨x, hSource⟩
  · exact ⟨x, hSource⟩

theorem sourced_returned (hSourced : Sourced (s, h))
    (hMove : Move D s.now r s.redis (s.procs r) input redis proc) (c : CachedResponse)
    (hReturned : State.Returned ⟨s.now, redis, Function.update s.procs r proc⟩ r c) :
    ∃ x, (recordRounds D s (.deliver r input) h).source r = some x := by
  rcases hReturned with ⟨ctx, hProc⟩ | ⟨request, hProc⟩
  · simp only [Function.update_self] at hProc
    rw [hProc] at hMove
    obtain ⟨rfl, pc, x, hBefore, hRead, _⟩ := found_cases hMove
    exact ⟨x, source_of_turn (turn_eq_some.mpr ⟨rfl, hBefore⟩) hRead⟩
  · simp only [Function.update_self] at hProc
    cases hBefore : s.procs r with
    | idle =>
        rw [hBefore, hProc] at hMove
        rcases error_of_arrive hMove with hError | ⟨_, _, hError⟩ <;> cases hError
    | running ctx pc =>
        rw [hBefore, hProc] at hMove
        obtain ⟨_, hFinish⟩ := finish_of_move hMove
        cases hFinish with
        | deduplicated =>
            obtain ⟨x, hSource⟩ := hSourced.returned r c (Or.inl ⟨ctx, hBefore⟩)
            exact source_stays hSource
        | released => exact absurd hBefore (hSourced.relayed r ctx c)
    | finished =>
        rw [hBefore] at hMove
        cases hMove

theorem sourced_step (hSourced : Sourced p) (next : (rounds D).step p e = some q) :
    Sourced q := by
  obtain ⟨s, h⟩ := p
  rcases recorded_cases next with ⟨dt, rfl, hdt, rfl⟩ | ⟨r, input, redis, proc, rfl, hMove, rfl⟩
  · exact ⟨hSourced.returned, hSourced.relayed⟩
  · refine ⟨fun w c hReturned => ?_, fun w ctx c hProc => ?_⟩
    · by_cases hw : w = r
      · subst hw
        exact sourced_returned hSourced hMove c hReturned
      · have hBefore : s.Returned w c := by
          simpa [State.Returned, Function.update_of_ne hw] using hReturned
        obtain ⟨x, hSource⟩ := hSourced.returned w c hBefore
        exact source_stays hSource
    · by_cases hw : w = r
      · subst hw
        simp only [Function.update_self] at hProc
        rw [hProc] at hMove
        rcases start_cases hMove with ⟨_, _, _, _, hPc⟩ | ⟨_, _, _, hFlow⟩
        · cases hPc
        · cases hFlow
      · exact hSourced.relayed w ctx c (by simpa [Function.update_of_ne hw] using hProc)

theorem sourced_run (run : (rounds D).Reaches allowed p) : Sourced p := by
  refine run.invariant (fun p hInit => ⟨fun w c hReturned => ?_, fun w ctx c hProc => ?_⟩)
    fun p q e _ ih _ next => sourced_step ih next
  · rcases hReturned with ⟨_, hProc⟩ | ⟨_, hProc⟩ <;>
    · rw [hInit.1.2.2 w] at hProc
      cases hProc
  · rw [hInit.1.2.2 w] at hProc
    cases hProc

/-- What a GET of a stored result reads becomes a source. -/
theorem readsCurrent_of_overlaps (next : (rounds D).step p e = some q)
    (hOverlaps : ∀ w x, q.2.source w = some x → q.2.met w x = true) : ReadsCurrent D p e := by
  intro turn hTurn entry hLookup
  obtain ⟨s, h⟩ := p
  obtain ⟨rfl, hPc, hProc⟩ := reading_eq_some.mp hTurn
  rcases recorded_cases next with ⟨_, hEvent, _⟩ | ⟨r, input, redis, proc, hEvent, hMove, rfl⟩
  · cases hEvent
  · cases hEvent
    have hThis : s.turn turn.client = some turn := turn_eq_some.mpr ⟨rfl, hPc ▸ hProc⟩
    have hSource : (recordRounds D s (.deliver turn.client .reply) h).source turn.client =
        some entry.writer := by
      refine source_of_turn hThis ?_
      rw [State.source, hPc]
      exact Option.map_eq_some_iff.mpr ⟨entry, hLookup, rfl⟩
    have hMet := hOverlaps _ _ hSource
    simpa [recordRounds, hThis] using hMet

theorem met_of_readsCurrent (hReads : ReadsCurrent D p e) (turn : Turn)
    (hTurn : turn ∈ p.1.reading e) (entry : Redis.Entry ℚ CachedResponse ℕ)
    (hLookup : entry ∈ p.1.redis.lookup p.1.now (resultKey (turn.ctx.dedupKey D))) :
    (recordRounds D p.1 e p.2).met turn.client entry.writer = true := by
  obtain ⟨_, hPc, hProc⟩ := reading_eq_some.mp hTurn
  have hThis : p.1.turn turn.client = some turn := turn_eq_some.mpr ⟨rfl, hPc ▸ hProc⟩
  simpa [recordRounds, hThis] using hReads turn hTurn entry hLookup

end Rounds

/-- In every run whose rounds are fresh and whose responses are shared under the lock,
every response that a wait returns is of a request whose lock was in place while the
waiting one lived, and indeed while it waited. As long as responses are shared under the
lock, the first step that replays an old round is a GET of a stored result that is left
over from it; a published message never is. -/
theorem dedup_wait_current (D : Deployment) :
    (∀ p, (rounds D).Reaches (Orderly D) p → NoReplay p ∧ Awaits p) ∧
      ∀ p e q, (rounds D).Reaches (SharesLocked D) p → NoReplay p →
        (rounds D).step p e = some q → (NoReplay q ↔ ReadsCurrent D p e) := by
  refine ⟨fun p run => ?_, fun p e q run hNoReplay next =>
    ⟨fun hAfter => readsCurrent_of_overlaps next hAfter.overlaps, fun hReads => ?_⟩⟩
  · have hAwaits : Awaits p := (fresh_run run).source
    exact ⟨⟨(sourced_run run).returned, fun w x hSource =>
      (chronicle_run run).met w x (hAwaits w x hSource)⟩, hAwaits⟩
  · refine ⟨(sourced_step (sourced_run run) next).returned, ?_⟩
    have hMet : ∀ w x, q.2.source w = some x → (recordRounds D p.1 e p.2).met w x = true := by
      refine source_step next (fun w x hSource => ?_) (met_of_readsCurrent hReads)
        fun w ctx pc c x hProc hUnread => ?_
      · simp [recordRounds, hNoReplay.overlaps w x hSource]
      · have hAwaited := heard_run run w ctx pc c x hProc hUnread
        simp [recordRounds, (chronicle_run run).met w x hAwaited]
    obtain ⟨s, h⟩ := p
    rcases recorded_cases next with ⟨_, rfl, _, rfl⟩ | ⟨_, _, _, _, rfl, _, rfl⟩ <;> exact hMet

section Traces

/-- Vendor answer, SET of the result, PUBLISH and release, without caching. -/
def sharedCall (r : ℕ) : List Event :=
  [.deliver r (.vendor (.response ⟨200, [], []⟩)), .deliver r .reply, .deliver r .reply,
    .deliver r .reply]

theorem init_rounds {D : Deployment} : (rounds D).init (sampleStart, .start) :=
  ⟨init_sampleStart, rfl⟩

/-- Request 1 joins while request 0 calls the vendor, and gets its message. -/
def joinedRound : List Event :=
  upToLock 0 (sampleRequest .get "p") ++ .deliver 0 .reply ::
    upToLock 1 (sampleRequest .get "p") ++ [.deliver 1 .reply, .deliver 1 .reply,
      .deliver 1 .reply] ++ sharedCall 0 ++ [.deliver 1 .wake, .deliver 1 .reply,
      .deliver 1 .wake, .deliver 1 .reply]

def returnedFrom (x : ℕ) (p : State × Rounds) : Bool :=
  match p.1.procs 1 with
  | .running _ (.unsubscribe (.found _)) => p.2.source 1 == some x
  | _ => false

theorem dedup_wait_current_joined :
    ∃ p q, (rounds (sampleDeployment 0)).Reaches (Orderly (sampleDeployment 0)) p ∧
      returnedFrom 0 p = true ∧ (NoReplay p ∧ Awaits p) ∧
      (rounds (sampleDeployment 0)).step p (.elapse 1) = some q ∧
      (NoReplay q ↔ ReadsCurrent (sampleDeployment 0) p (.elapse 1)) := by
  have hDone : ((rounds (sampleDeployment 0)).exec (Orderly (sampleDeployment 0))
      (sampleStart, .start) joinedRound).any (returnedFrom 0) = true := by
    decide +kernel
  obtain ⟨p, run, hCheck⟩ := System.Reaches.exec_any (.init init_rounds) hDone
  have hNoReplay := (dedup_wait_current (sampleDeployment 0)).1 p run
  exact ⟨p, _, run, hCheck, hNoReplay, rfl, (dedup_wait_current (sampleDeployment 0)).2 p _ _
    (run.mono fun _ _ h => h.2) hNoReplay.1 rfl⟩

/-- Without caching: request 0 shares its result and is gone, ten seconds later
request 1 calls the vendor, and request 2, told to wait for it, is served the
response of request 0. -/
def replayedRound : List Event :=
  upToLock 0 (sampleRequest .get "p") ++ .deliver 0 .reply :: sharedCall 0 ++ .elapse 10 ::
    upToLock 1 (sampleRequest .get "p") ++ .deliver 1 .reply ::
    upToLock 2 (sampleRequest .get "p") ++ [.deliver 2 .reply, .deliver 2 .reply,
      .deliver 2 .reply]

/-- The lease of request 0 is over when request 1 takes the lock and request 2 is told to
wait for it; then the vendor answers request 0. -/
def lateRound : List Event :=
  upToLock 0 (sampleRequest .get "p") ++ .deliver 0 .reply :: .elapse 31 ::
    upToLock 1 (sampleRequest .get "p") ++ .deliver 1 .reply ::
    upToLock 2 (sampleRequest .get "p") ++ [.deliver 2 .reply, .deliver 2 .reply] ++
    sharedCall 0 ++ [.deliver 2 .reply]

/-- Request 2 is served the response of a request whose lock was gone when it arrived. -/
def replayed (p : State × Rounds) : Bool :=
  decide (p.2.source 2 = some 0 ∧ p.2.met 2 0 = false)

theorem not_noReplay {p : State × Rounds} (h : replayed p = true) : ¬NoReplay p := by
  obtain ⟨hSource, hNever⟩ := of_decide_eq_true h
  intro hNoReplay
  have hMet := hNoReplay.overlaps 2 0 hSource
  rw [hNever] at hMet
  cases hMet

/-- A round that is not fresh replays an old one, and so does a response that is shared
without the lock. -/
theorem dedup_wait_replays :
    (∃ p, (rounds (sampleDeployment 0)).Reaches (SharesLocked (sampleDeployment 0)) p ∧
      ¬NoReplay p) ∧
    ∃ p, (rounds (sampleDeployment 0)).Reaches (FreshRound (sampleDeployment 0)) p ∧
      ¬NoReplay p := by
  constructor
  · have hDone : ((rounds (sampleDeployment 0)).exec (SharesLocked (sampleDeployment 0))
        (sampleStart, .start) replayedRound).any replayed = true := by
      decide +kernel
    obtain ⟨p, run, hCheck⟩ := System.Reaches.exec_any (.init init_rounds) hDone
    exact ⟨p, run, not_noReplay hCheck⟩
  · have hDone : ((rounds (sampleDeployment 0)).exec (FreshRound (sampleDeployment 0))
        (sampleStart, .start) lateRound).any replayed = true := by
      decide +kernel
    obtain ⟨p, run, hCheck⟩ := System.Reaches.exec_any (.init init_rounds) hDone
    exact ⟨p, run, not_noReplay hCheck⟩

end Traces

end Gateway.Routes
