import Gateway.Auth.Revocation

/-! `PortalTokenValidator.validate` for any number of tokens at once. What the portal
answers about a token is kept in Redis under the digest of the token, and later calls
are answered from there. -/
namespace Gateway.Auth.PortalSessions

open Gateway.Cache Json Text Transition

/-- An answer of the portal to the POST of a call. -/
structure Answer where
  call : ℕ
  token : String
  time : ℚ
  content : HttpAnswer

/-- Where a call waits: for GET, for the portal or for SET. -/
inductive Pc where
  | getting
  | asking
  | storing (a : Answer) (data : Members) (ex : ℤ) (result : Validation)
  | ended (result : Validation)

structure Call where
  token : String
  beganAt : ℚ
  pc : Pc

structure State where
  now : ℚ
  redis : Redis.Server ℚ String Members ℕ
  calls : ℕ → Option Call

/-- Entries may be evicted. What a call waits for may raise, a SET also after Redis
has executed it, and the call may be cancelled there. -/
inductive Event where
  | elapse (dt : ℚ)
  | evict (k : String)
  | call (c : ℕ) (token : String)
  | get (c : ℕ)
  | answer (c : ℕ) (content : HttpAnswer)
  | set (c : ℕ)
  | raise (c : ℕ) (executed : Bool)

def afterGet : Option (Redis.Value Members) → Pc
  | some v => .ended (Revocation.Portal.onValue v)
  | none => .asking

def State.put (s : State) (c : ℕ) (call : Call) : State :=
  { s with calls := Function.update s.calls c (some call) }

section Machine

variable (sha256 : Sha256) (portalTokenCacheTtl : ℤ)

def afterAnswer (a : Answer) : Pc :=
  match onAnswer portalTokenCacheTtl a.content with
  | .finish result => .ended result
  | .store data ex result => .storing a data ex result

/-- `SET`, refused when the expiry is not positive. -/
def State.write (s : State) (c : ℕ) (token : String) (data : Members) (ex : ℤ) : State :=
  if 0 < ex then
    { s with redis := s.redis.set (portalCacheKey sha256 token) (.text data) (some (s.now + ex)) c }
  else s

def step (s : State) : Event → Option State
  | .elapse dt => if 0 ≤ dt then some { s with now := s.now + dt } else none
  | .evict k => some { s with redis := s.redis.del k }
  | .call c token =>
      match s.calls c with
      | none => some (s.put c ⟨token, s.now, .getting⟩)
      | some _ => none
  | .get c =>
      match s.calls c with
      | some ⟨token, beganAt, .getting⟩ =>
          some (s.put c ⟨token, beganAt,
            afterGet (s.redis.get s.now (portalCacheKey sha256 token))⟩)
      | _ => none
  | .answer c content =>
      match s.calls c with
      | some ⟨token, beganAt, .asking⟩ =>
          some (s.put c ⟨token, beganAt,
            afterAnswer portalTokenCacheTtl ⟨c, token, s.now, content⟩⟩)
      | _ => none
  | .set c =>
      match s.calls c with
      | some ⟨token, beganAt, .storing _ data ex result⟩ =>
          some ((s.write sha256 c token data ex).put c
            ⟨token, beganAt, .ended (Reaction.store data ex result).result⟩)
      | _ => none
  | .raise c executed =>
      match s.calls c with
      | some ⟨token, beganAt, .storing _ data ex _⟩ =>
          some ((if executed then s.write sha256 c token data ex else s).put c
            ⟨token, beganAt, .ended .raised⟩)
      | some ⟨_, _, .ended _⟩ | none => none
      | some ⟨token, beganAt, _⟩ => some (s.put c ⟨token, beganAt, .ended .raised⟩)

/-- Nothing is cached and nothing asked at the beginning. -/
def machine : System State Event where
  init s := s.redis = .empty ∧ ∀ c, s.calls c = none
  step := step sha256 portalTokenCacheTtl

/-- The answers of the portal, the last one first. -/
def record (s : State) (e : Event) (answers : List Answer) : List Answer :=
  match e with
  | .answer c content =>
      match s.calls c with
      | some call => ⟨c, call.token, s.now, content⟩ :: answers
      | none => answers
  | _ => answers

def recorded : System (State × List Answer) Event :=
  (machine sha256 portalTokenCacheTtl).withHistory [] record

end Machine

/-- Redis executes a SET at most `delay` after the answer that it keeps. -/
def Prompt (delay : ℚ) (s : State) : Event → Prop
  | .set c | .raise c true =>
      match s.calls c with
      | some ⟨_, _, .storing a _ _ _⟩ => s.now ≤ a.time + delay
      | _ => True
  | _ => True

instance (delay : ℚ) (s : State) (e : Event) : Decidable (Prompt delay s e) := by
  unfold Prompt
  split
  · split <;> infer_instance
  · split <;> infer_instance
  · infer_instance

section Alone

variable {sha256 : Sha256} {ttl : ℤ} {s : State} {c : ℕ} {token : String} {beganAt : ℚ}

theorem put_calls (s : State) (c : ℕ) (call : Call) : (s.put c call).calls c = some call := by
  simp [State.put]

/-- A call that nobody comes between ends as `validate` does with the entry and the
answer that it meets. -/
theorem validate_alone {cached : Option Members} (content : HttpAnswer)
    (hCall : s.calls c = some ⟨token, beganAt, .getting⟩)
    (hCached : s.redis.get s.now (portalCacheKey sha256 token) = cached.map .text) :
    ∃ t, ((machine sha256 ttl).startingAt s).Reaches System.anyRun t ∧
      t.calls c = some ⟨token, beganAt, .ended (validate ttl cached content)⟩ := by
  let asked := s.put c ⟨token, beganAt, afterGet (cached.map .text)⟩
  have hGet : PortalSessions.step sha256 ttl s (.get c) = some asked := by
    simp only [PortalSessions.step, hCall, hCached, asked]
  have run : ((machine sha256 ttl).startingAt s).Reaches System.anyRun asked :=
    .step (e := .get c) (.init rfl) trivial hGet
  cases cached with
  | some data => exact ⟨asked, run, put_calls _ _ _⟩
  | none =>
      let a : Answer := ⟨c, token, asked.now, content⟩
      let answered := asked.put c ⟨token, beganAt, afterAnswer ttl a⟩
      have hAsked : asked.calls c = some ⟨token, beganAt, .asking⟩ := put_calls _ _ _
      have hAnswer : PortalSessions.step sha256 ttl asked (.answer c content) = some answered := by
        simp only [PortalSessions.step, hAsked, answered, a]
      have run' : ((machine sha256 ttl).startingAt s).Reaches System.anyRun answered :=
        .step (e := .answer c content) run trivial hAnswer
      cases hReaction : onAnswer ttl content with
      | finish result =>
          refine ⟨answered, run', ?_⟩
          simp only [answered, put_calls, afterAnswer, a, validate, hReaction, Reaction.result]
      | store data ex result =>
          have hAnswered : answered.calls c = some ⟨token, beganAt, .storing a data ex result⟩ := by
            simp only [answered, put_calls, afterAnswer, a, hReaction]
          have hSet : PortalSessions.step sha256 ttl answered (.set c) =
              some ((answered.write sha256 c token data ex).put c
                ⟨token, beganAt, .ended (Reaction.store data ex result).result⟩) := by
            simp only [PortalSessions.step, hAnswered]
          refine ⟨_, .step (e := .set c) run' trivial hSet, ?_⟩
          simp only [put_calls, validate, hReaction]

end Alone

section Verdicts

/-- The portal vouches for the token with this payload. -/
def Accepts (data : Members) (content : HttpAnswer) : Prop :=
  ∃ statusCode, 200 ≤ statusCode ∧ statusCode < 300 ∧
    content = .response statusCode (some (.obj data)) ∧ valid data = true

def Rejects (content : HttpAnswer) : Prop :=
  ∃ statusCode data, 200 ≤ statusCode ∧ statusCode < 300 ∧
    content = .response statusCode (some (.obj data)) ∧ valid data = false

/-- An answer that `validate` takes for an error of the portal. -/
def Fails (content : HttpAnswer) : Prop :=
  ∀ statusCode body, content = .response statusCode body → ¬(200 ≤ statusCode ∧ statusCode < 300)

/-- It was given to this very call. -/
structure Answer.Own (a : Answer) (c : ℕ) (token : String) (beganAt : ℚ) : Prop where
  call : a.call = c
  token : a.token = token
  later : beganAt ≤ a.time

variable (sha256 : Sha256) (delay : ℚ)

/-- It was given to this call, or to one for a token with the same digest and so short
a time before that its entry may still live. -/
def Answer.Applies (lifetime : ℤ) (a : Answer) (c : ℕ) (token : String) (beganAt : ℚ) : Prop :=
  a.Own c token beganAt ∨
    (sha256.hexdigest (utf8 a.token) = sha256.hexdigest (utf8 token) ∧
      beganAt < a.time + delay + lifetime)

variable (portalTokenCacheTtl : ℤ) (answers : List Answer)

/-- What a call ends with, and the answer of the portal that makes it so. -/
inductive Verdict (c : ℕ) (token : String) (beganAt : ℚ) : Validation → Prop where
  | accepted {a : Answer} {data : Members} (given : a ∈ answers) (accepts : Accepts data a.content)
      (applies : a.Applies sha256 delay portalTokenCacheTtl c token beganAt) :
      Verdict c token beganAt (.payload data)
  | rejected {a : Answer} (given : a ∈ answers) (rejects : Rejects a.content)
      (applies : a.Applies sha256 delay (min portalTokenCacheTtl 10) c token beganAt) :
      Verdict c token beganAt .none
  | failed {a : Answer} (given : a ∈ answers) (fails : Fails a.content)
      (own : a.Own c token beganAt) : Verdict c token beganAt .none
  | raised : Verdict c token beganAt .raised

/-- What is known of a call, by where it waits. -/
def Justified (now : ℚ) (c : ℕ) (token : String) (beganAt : ℚ) : Pc → Prop
  | .getting | .asking => beganAt ≤ now
  | .storing a data ex result => a ∈ answers ∧ a.Own c token beganAt ∧
      onAnswer portalTokenCacheTtl a.content = .store data ex result
  | .ended result => Verdict sha256 delay portalTokenCacheTtl answers c token beganAt result

/-- An entry keeps an answer about a token that belongs to its key. -/
def Kept (k : String) (e : Redis.Entry ℚ Members ℕ) : Prop :=
  ∃ a ∈ answers, portalCacheKey sha256 a.token = k ∧
    ∃ data ex result, onAnswer portalTokenCacheTtl a.content = .store data ex result ∧
      e.value = .text data ∧ ∃ t, e.expiresAt = some t ∧ t ≤ a.time + delay + ex

structure Inv (p : State × List Answer) : Prop where
  entries : ∀ k e, p.1.redis.entries k = some e → Kept sha256 delay portalTokenCacheTtl p.2 k e
  calls : ∀ c token beganAt pc, p.1.calls c = some ⟨token, beganAt, pc⟩ →
    Justified sha256 delay portalTokenCacheTtl p.2 p.1.now c token beganAt pc

end Verdicts

section Reactions

variable {sha256 : Sha256} {delay : ℚ} {ttl ex : ℤ} {answers answers' : List Answer} {a : Answer}
  {data : Members} {result : Validation} {content : HttpAnswer} {c : ℕ} {token : String}
  {beganAt now : ℚ}

theorem portalCacheKey_digest {first second : String}
    (h : portalCacheKey sha256 first = portalCacheKey sha256 second) :
    sha256.hexdigest (utf8 first) = sha256.hexdigest (utf8 second) :=
  (String.append_right_inj _).mp h

/-- What is written is the payload that the portal vouches for, or the negative entry. -/
theorem store_cases (h : onAnswer ttl content = .store data ex result) :
    (Accepts data content ∧ ex = ttl ∧ result = .payload data) ∨
      (Rejects content ∧ data = negative ∧ ex = min ttl 10 ∧ result = .none) := by
  unfold onAnswer at h
  split at h
  · cases h
  · split_ifs at h with hStatus
    split at h
    · split_ifs at h with hValid <;> cases h
      · exact Or.inl ⟨⟨_, hStatus.1, hStatus.2, rfl, hValid⟩, rfl, rfl⟩
      · exact Or.inr ⟨⟨_, _, hStatus.1, hStatus.2, rfl, Bool.eq_false_iff.mpr hValid⟩, rfl, rfl, rfl⟩
    · cases h

theorem finish_cases (h : onAnswer ttl content = .finish result) :
    result = .raised ∨ (Fails content ∧ result = .none) := by
  unfold onAnswer at h
  split at h
  · cases h
    exact Or.inr ⟨nofun, rfl⟩
  · split_ifs at h with hStatus
    · split at h
      · split_ifs at h
      · cases h
        exact Or.inl rfl
    · cases h
      refine Or.inr ⟨fun statusCode body hContent => ?_, rfl⟩
      cases hContent
      exact hStatus

/-- A call that the portal has answered. -/
theorem justified_afterAnswer (given : a ∈ answers) (own : a.Own c token beganAt) :
    Justified sha256 delay ttl answers now c token beganAt (afterAnswer ttl a) := by
  unfold afterAnswer
  cases hAnswer : onAnswer ttl a.content with
  | finish result =>
      rcases finish_cases hAnswer with rfl | ⟨hFails, rfl⟩
      · exact .raised
      · exact .failed given hFails own
  | store data ex result => exact ⟨given, own, hAnswer⟩

/-- A call whose SET is answered. -/
theorem verdict_set (given : a ∈ answers) (own : a.Own c token beganAt)
    (hAnswer : onAnswer ttl a.content = .store data ex result) :
    Verdict sha256 delay ttl answers c token beganAt (Reaction.store data ex result).result := by
  simp only [Reaction.result]
  split_ifs
  · rcases store_cases hAnswer with ⟨hAccepts, -, rfl⟩ | ⟨hRejects, -, -, rfl⟩
    · exact .accepted given hAccepts (Or.inl own)
    · exact .rejected given hRejects (Or.inl own)
  · exact .raised

/-- A call that finds an entry, while the entry lives. -/
theorem verdict_get {e : Redis.Entry ℚ Members ℕ} (hBegan : beganAt ≤ now)
    (hKept : Kept sha256 delay ttl answers (portalCacheKey sha256 token) e)
    (hLive : e.live now = true) :
    Verdict sha256 delay ttl answers c token beganAt (Revocation.Portal.onValue e.value) := by
  obtain ⟨a, given, hKey, data, ex, result, hAnswer, hValue, t, hExpires, hUntil⟩ := hKept
  have hNow : now < t := by simpa [Redis.Entry.live, hExpires] using hLive
  have hShortly : beganAt < a.time + delay + ex := by linarith
  have hDigest := portalCacheKey_digest hKey
  rw [hValue]
  rcases store_cases hAnswer with ⟨hAccepts, rfl, -⟩ | ⟨hRejects, rfl, rfl, -⟩
  · have hValid : valid data = true := by
      obtain ⟨statusCode, -, -, -, hValid⟩ := hAccepts
      exact hValid
    have hHit : Revocation.Portal.onValue (.text data) = .payload data := by
      simp [Revocation.Portal.onValue, onHit, hValid]
    rw [hHit]
    exact .accepted given hAccepts (Or.inr ⟨hDigest, hShortly⟩)
  · have hHit : Revocation.Portal.onValue (.text negative) = .none := by
      simp [Revocation.Portal.onValue, onHit, valid_negative]
    rw [hHit]
    exact .rejected given hRejects (Or.inr ⟨hDigest, hShortly⟩)

theorem Verdict.more (h : Verdict sha256 delay ttl answers c token beganAt result)
    (hMore : answers ⊆ answers') : Verdict sha256 delay ttl answers' c token beganAt result := by
  cases h with
  | accepted given accepts applies => exact .accepted (hMore given) accepts applies
  | rejected given rejects applies => exact .rejected (hMore given) rejects applies
  | failed given fails own => exact .failed (hMore given) fails own
  | raised => exact .raised

theorem Justified.more {later : ℚ} {pc : Pc}
    (h : Justified sha256 delay ttl answers now c token beganAt pc) (hMore : answers ⊆ answers')
    (hLater : now ≤ later) : Justified sha256 delay ttl answers' later c token beganAt pc := by
  cases pc with
  | getting | asking => exact le_trans h hLater
  | storing a data ex result => exact ⟨hMore h.1, h.2⟩
  | ended result => exact Verdict.more h hMore

theorem Kept.more {k : String} {e : Redis.Entry ℚ Members ℕ}
    (h : Kept sha256 delay ttl answers k e) (hMore : answers ⊆ answers') :
    Kept sha256 delay ttl answers' k e := by
  obtain ⟨a, given, hRest⟩ := h
  exact ⟨a, hMore given, hRest⟩

end Reactions

section Runs

variable {sha256 : Sha256} {delay : ℚ} {ttl ex : ℤ} {answers : List Answer} {a : Answer}
  {data : Members} {result : Validation} {c : ℕ} {token : String} {beganAt : ℚ} {s t : State}

theorem write_now : (s.write sha256 c token data ex).now = s.now := by
  unfold State.write
  split_ifs <;> rfl

theorem write_calls : (s.write sha256 c token data ex).calls = s.calls := by
  unfold State.write
  split_ifs <;> rfl

/-- The call `c` is given its new place, and the others keep theirs. -/
theorem Inv.put {pc : Pc} (h : Inv sha256 delay ttl (s, answers))
    (hCall : Justified sha256 delay ttl answers s.now c token beganAt pc) :
    Inv sha256 delay ttl (s.put c ⟨token, beganAt, pc⟩, answers) := by
  refine ⟨h.entries, fun c' token' beganAt' pc' hc' => ?_⟩
  have hPut : (s.put c ⟨token, beganAt, pc⟩).calls =
      Function.update s.calls c (some ⟨token, beganAt, pc⟩) := rfl
  by_cases hc : c' = c
  · subst hc
    rw [hPut, Function.update_self] at hc'
    cases hc'
    exact hCall
  · rw [hPut, Function.update_of_ne hc] at hc'
    exact h.calls c' token' beganAt' pc' hc'

/-- A prompt SET keeps an answer no longer than its time to live. -/
theorem Inv.write (h : Inv sha256 delay ttl (s, answers))
    (hCall : s.calls c = some ⟨token, beganAt, .storing a data ex result⟩)
    (hPrompt : s.now ≤ a.time + delay) :
    Inv sha256 delay ttl (s.write sha256 c token data ex, answers) := by
  obtain ⟨given, own, hAnswer⟩ := h.calls c token beganAt _ hCall
  refine ⟨fun k e hEntry => ?_, fun c' token' beganAt' pc' hc' => ?_⟩
  · simp only [State.write] at hEntry
    split_ifs at hEntry with hEx
    · by_cases hk : k = portalCacheKey sha256 token
      · subst hk
        rw [Redis.Server.set_entries_self] at hEntry
        cases hEntry
        have hUntil : s.now + ex ≤ a.time + delay + ex := by linarith
        exact ⟨a, given, by rw [own.token], data, ex, result, hAnswer, rfl, _, rfl, hUntil⟩
      · rw [Redis.Server.set_entries_of_ne _ hk] at hEntry
        exact h.entries k e hEntry
    · exact h.entries k e hEntry
  · rw [write_calls] at hc'
    simpa only [write_now] using h.calls c' token' beganAt' pc' hc'

theorem Inv.step {e : Event} (h : Inv sha256 delay ttl (s, answers)) (hPrompt : Prompt delay s e)
    (next : PortalSessions.step sha256 ttl s e = some t) :
    Inv sha256 delay ttl (t, record s e answers) := by
  cases e with
  | elapse dt =>
      simp only [PortalSessions.step] at next
      split_ifs at next with hNonneg
      cases next
      have hLater : s.now ≤ s.now + dt := by linarith
      exact ⟨h.entries, fun c token beganAt pc hc =>
        Justified.more (h.calls c token beganAt pc hc) (List.Subset.refl _) hLater⟩
  | evict k =>
      cases next
      refine ⟨fun k' e hEntry => ?_, h.calls⟩
      by_cases hk : k' = k
      · subst hk
        rw [Redis.Server.del_entries_self] at hEntry
        cases hEntry
      · rw [Redis.Server.del_entries_of_ne _ hk] at hEntry
        exact h.entries k' e hEntry
  | call c token =>
      simp only [PortalSessions.step] at next
      split at next <;> cases next
      exact h.put le_rfl
  | get c =>
      simp only [PortalSessions.step] at next
      split at next
      next token beganAt hCall =>
        cases next
        have hBegan : beganAt ≤ s.now := h.calls c token beganAt _ hCall
        apply h.put
        cases hGet : s.redis.get s.now (portalCacheKey sha256 token) with
        | none => exact hBegan
        | some value =>
            obtain ⟨e, hLookup, rfl⟩ := Redis.Server.get_eq_some.mp hGet
            obtain ⟨hEntry, hLive⟩ := Redis.Server.lookup_eq_some.mp hLookup
            exact verdict_get hBegan (h.entries _ e hEntry) hLive
      next => cases next
  | answer c content =>
      simp only [PortalSessions.step] at next
      split at next
      next token beganAt hCall =>
        cases next
        have hBegan : beganAt ≤ s.now := h.calls c token beganAt _ hCall
        have hRecord : record s (.answer c content) answers = ⟨c, token, s.now, content⟩ :: answers := by
          simp only [record, hCall]
        rw [hRecord]
        have hMore : answers ⊆ ⟨c, token, s.now, content⟩ :: answers := List.subset_cons_self _ _
        have hInv : Inv sha256 delay ttl (s, ⟨c, token, s.now, content⟩ :: answers) :=
          ⟨fun k e hEntry => Kept.more (h.entries k e hEntry) hMore, fun c' token' beganAt' pc' hc' =>
            Justified.more (h.calls c' token' beganAt' pc' hc') hMore le_rfl⟩
        exact hInv.put (justified_afterAnswer List.mem_cons_self ⟨rfl, rfl, hBegan⟩)
      next => cases next
  | set c =>
      simp only [PortalSessions.step] at next
      split at next
      next token beganAt a data ex result hCall =>
        cases next
        simp only [Prompt, hCall] at hPrompt
        obtain ⟨given, own, hAnswer⟩ := h.calls c token beganAt _ hCall
        exact (h.write hCall hPrompt).put (verdict_set given own hAnswer)
      next => cases next
  | raise c executed =>
      simp only [PortalSessions.step] at next
      split at next
      next token beganAt a data ex result hCall =>
        cases next
        cases executed with
        | true =>
            simp only [Prompt, hCall] at hPrompt
            exact (h.write hCall hPrompt).put .raised
        | false => exact h.put .raised
      next => cases next
      next => cases next
      next =>
        cases next
        exact h.put .raised

theorem inv_run {p : State × List Answer}
    (run : (recorded sha256 ttl).Reaches (fun p e => Prompt delay p.1 e) p) :
    Inv sha256 delay ttl p := by
  refine System.Reaches.invariant_history ?_
    (fun s answers t e h hPrompt next => h.step hPrompt next) run
  rintro s ⟨hRedis, hNone⟩
  refine ⟨fun k e hEntry => ?_, fun c token beganAt pc hc => ?_⟩
  · rw [hRedis] at hEntry
    cases hEntry
  · rw [hNone c] at hc
    cases hc

/-- Whatever other calls do, for this token or for others, each call ends as the portal
has answered it, or has answered a call for a token with the same digest no longer ago
than an entry lives. -/
theorem verdicts_vouched {p : State × List Answer}
    (run : (recorded sha256 ttl).Reaches (fun p e => Prompt delay p.1 e) p)
    (hEnded : p.1.calls c = some ⟨token, beganAt, .ended result⟩) :
    Verdict sha256 delay ttl p.2 c token beganAt result :=
  (inv_run run).calls c token beganAt _ hEnded

end Runs

section Sample

/-- A call that the portal answers, and one that finds the entry half a minute later. -/
def twoCalls : List Event :=
  [.call 0 "tok_1", .get 0, .answer 0 Revocation.positiveAnswer, .elapse 1, .set 0, .elapse 30,
    .call 1 "tok_1", .get 1]

def sampleStart : State × List Answer := (⟨0, .empty, fun _ => none⟩, [])

/-- A call that began then has returned a payload. -/
def returned (c : ℕ) (token : String) (beganAt : ℚ) (p : State × List Answer) : Bool :=
  match p.1.calls c with
  | some ⟨token', beganAt', .ended (.payload _)⟩ => decide (token' = token ∧ beganAt' = beganAt)
  | _ => false

theorem of_returned {c : ℕ} {token : String} {beganAt : ℚ} {p : State × List Answer}
    (h : returned c token beganAt p = true) :
    ∃ data, p.1.calls c = some ⟨token, beganAt, .ended (.payload data)⟩ := by
  unfold returned at h
  split at h
  next token' beganAt' data hCall =>
    obtain ⟨rfl, rfl⟩ := of_decide_eq_true h
    exact ⟨data, hCall⟩
  next => cases h

theorem init_sampleStart : (recorded Revocation.samplePortal.sha256 60).init sampleStart :=
  ⟨⟨rfl, fun _ => rfl⟩, rfl⟩

theorem verdicts_vouched_cached : ∃ answers data,
    Verdict Revocation.samplePortal.sha256 1 60 answers 1 "tok_1" 31 (.payload data) := by
  have hDone : ((recorded Revocation.samplePortal.sha256 60).exec (fun p e => Prompt 1 p.1 e)
      sampleStart twoCalls).any (returned 1 "tok_1" 31) = true := by
    decide +kernel
  obtain ⟨p, run, hReturned⟩ := System.Reaches.exec_any (.init init_sampleStart) hDone
  obtain ⟨data, hEnded⟩ := of_returned hReturned
  exact ⟨p.2, data, verdicts_vouched run hEnded⟩

end Sample

end Gateway.Auth.PortalSessions
