import Gateway.Vendors.OAuth

/-! `refresh_credentials` next to `prepare_request` of one
`OAuth2ClientCredentialsAdapter`, with every way in which `_fetch_token` ends. It
assigns the token before it reads `expires_in`, so that an answer with a bad
`expires_in` leaves a new token with an old expiry. -/
namespace Gateway.Vendors.Refresh

open Transition Gateway.Vendors.OAuth

inductive Kind where
  | prepareRequest
  | refreshCredentials
  deriving DecidableEq

/-- Where a call is. -/
inductive Pc where
  | idle
  | waiting (kind : Kind) (beganAt : ℚ)
  | fetching (kind : Kind) (beganAt started : ℚ)
  | returned (accessToken : String) (time : ℚ)
  | refreshed (beganAt time : ℚ)
  | raised
  deriving DecidableEq

/-- The answer to a fetch: an exception before the token is assigned (of a secret, of
the request, of its status or body, or for want of "access_token"), or the token, which
may be null, and `expires_in` unless `int` raises on it. -/
inductive Reply where
  | failed
  | token (accessToken : Option String) (expiresIn : Option ℤ)

structure State where
  now : ℚ
  adapter : OAuth.Adapter
  calls : ℕ → Pc

inductive Event where
  | tick (later : ℚ)
  | call (c : ℕ) (kind : Kind)
  | acquire (c : ℕ)
  | reply (c : ℕ) (reply : Reply)
  | cancel (c : ℕ)

def State.goto (s : State) (c : ℕ) (pc : Pc) : State :=
  { s with calls := Function.update s.calls c pc }

def State.setLock (s : State) (lock : Option ℕ) : State :=
  { s with adapter := { s.adapter with lock := lock } }

/-- The end of `_ensure_token`; its `assert` fails without a token. -/
def ensured (adapter : OAuth.Adapter) (now : ℚ) : Pc :=
  match adapter.accessToken with
  | some accessToken => .returned accessToken now
  | none => .raised

/-- The assignments of `_fetch_token`, and whether it ends. -/
def assign (adapter : OAuth.Adapter) (now : ℚ) : Reply → OAuth.Adapter × Bool
  | .failed => (adapter, false)
  | .token accessToken none => ({ adapter with accessToken := accessToken }, false)
  | .token accessToken (some expiresIn) => (⟨accessToken, now + expiresIn, adapter.lock⟩, true)

/-- What a call does once `_fetch_token` has ended. -/
def afterFetch (kind : Kind) (beganAt : ℚ) (fetched : OAuth.Adapter × Bool) (now : ℚ) : Pc :=
  match fetched.2, kind with
  | false, _ => .raised
  | true, .prepareRequest => ensured fetched.1 now
  | true, .refreshCredentials => .refreshed beganAt now

def step (s : State) : Event → Option State
  | .tick later => if s.now ≤ later then some { s with now := later } else none
  | .call c kind =>
      match s.calls c with
      | .idle =>
          some (s.goto c
            (if kind = .refreshCredentials ∨ s.adapter.unusable s.now = true then .waiting kind s.now
            else ensured s.adapter s.now))
      | _ => none
  | .acquire c =>
      match s.calls c, s.adapter.lock with
      | .waiting kind beganAt, none =>
          if kind = .refreshCredentials ∨ s.adapter.unusable s.now = true then
            some ((s.setLock (some c)).goto c (.fetching kind beganAt s.now))
          else some (s.goto c (ensured s.adapter s.now))
      | _, _ => none
  | .reply c reply =>
      match s.calls c with
      | .fetching kind beganAt _ =>
          let fetched := assign s.adapter s.now reply
          some (({ s with adapter := fetched.1 }.setLock none).goto c
            (afterFetch kind beganAt fetched s.now))
      | _ => none
  | .cancel c =>
      match s.calls c with
      | .waiting _ _ => some (s.goto c .raised)
      | .fetching _ _ _ => some ((s.setLock none).goto c .raised)
      | _ => none

def machine : System State Event where
  init s := s.adapter = .new ∧ s.calls = fun _ => .idle
  step := step

/-- An answer that brought a token, and the call that fetched it. -/
structure Grant where
  caller : ℕ
  started : ℚ
  finished : ℚ
  accessToken : Option String
  expiresIn : Option ℤ

/-- The grants from the latest on, and those that there were when a call last moved. -/
structure Notes where
  grants : List Grant
  seen : ℕ → List Grant

def Notes.move (n : Notes) (c : ℕ) : Notes := { n with seen := Function.update n.seen c n.grants }

def record (s : State) (e : Event) (n : Notes) : Notes :=
  match e with
  | .tick _ => n
  | .call c _ | .acquire c | .cancel c => n.move c
  | .reply c reply =>
      match s.calls c, reply with
      | .fetching _ _ started, .token accessToken expiresIn =>
          Notes.move { n with grants := ⟨c, started, s.now, accessToken, expiresIn⟩ :: n.grants } c
      | _, _ => n.move c

def noted : System (State × Notes) Event := machine.withHistory ⟨[], fun _ => []⟩ record

def Grant.expiry (g : Grant) : Option ℚ := g.expiresIn.map fun expiresIn => g.finished + expiresIn

/-- The expiry of the last grant that has one. -/
def lastExpiry (grants : List Grant) : ℚ := (grants.findSome? Grant.expiry).getD 0

/-- The token of the last grant. -/
def lastToken (grants : List Grant) : Option String := grants.head?.bind Grant.accessToken

/-- What is known of the call `c`, given the grants when it last moved. -/
def Known (c : ℕ) (grants : List Grant) (now : ℚ) : Pc → Prop
  | .idle | .raised => True
  | .waiting _ beganAt => beganAt ≤ now
  | .fetching _ beganAt started => beganAt ≤ started ∧ started ≤ now ∧ ∀ g ∈ grants, g.finished ≤ started
  | .returned accessToken time =>
      time ≤ now ∧ lastToken grants = some accessToken ∧ time + expiryBuffer < lastExpiry grants ∨
      time ≤ now ∧ ∃ g earlier, grants = g :: earlier ∧ g.accessToken = some accessToken ∧
        g.caller = c ∧ g.finished = time ∧ g.expiresIn.isSome = true
  | .refreshed beganAt time =>
      time ≤ now ∧ ∃ g earlier, grants = g :: earlier ∧ g.finished = time ∧ beganAt ≤ g.started ∧
        g.expiresIn.isSome = true

/-- When a call has ended with an answer. -/
def Pc.time? : Pc → Option ℚ
  | .returned _ time | .refreshed _ time => some time
  | _ => none

def Pc.isFetching : Pc → Bool
  | .fetching _ _ _ => true
  | _ => false

structure Inv (p : State × Notes) : Prop where
  lock : ∀ c, (p.1.calls c).isFetching = true ↔ p.1.adapter.lock = some c
  token : p.1.adapter.accessToken = lastToken p.2.grants
  expires : p.1.adapter.expiresAt = lastExpiry p.2.grants
  ordered : p.2.grants.Pairwise fun later earlier => earlier.finished ≤ later.started
  past : ∀ g ∈ p.2.grants, g.started ≤ g.finished ∧ g.finished ≤ p.1.now
  known : ∀ c, Known c (p.2.seen c) p.1.now (p.1.calls c)
  flight : ∀ c, (p.1.calls c).isFetching = true → p.2.seen c = p.2.grants
  later : ∀ c, ∃ later, p.2.grants = later ++ p.2.seen c ∧
    ∀ time, (p.1.calls c).time? = some time → ∀ g ∈ later, time ≤ g.finished

section Steps

variable {s t : State} {n : Notes} {c : ℕ} {pc : Pc}

theorem Known.later {grants : List Grant} {now later : ℚ} (h : Known c grants now pc) (hLater : now ≤ later) :
    Known c grants later pc := by
  cases pc with
  | idle | raised => trivial
  | waiting kind beganAt => exact le_trans h hLater
  | fetching kind beganAt started => exact ⟨h.1, h.2.1.trans hLater, h.2.2⟩
  | returned accessToken time => exact h.imp (fun h => ⟨h.1.trans hLater, h.2⟩) fun h => ⟨h.1.trans hLater, h.2⟩
  | refreshed beganAt time => exact ⟨h.1.trans hLater, h.2⟩

theorem Known.time_le {grants : List Grant} {now time : ℚ} (h : Known c grants now pc)
    (hTime : pc.time? = some time) : time ≤ now := by
  cases pc with
  | returned accessToken time' =>
      cases hTime
      exact h.elim And.left And.left
  | refreshed beganAt time' =>
      cases hTime
      exact h.1
  | _ => cases hTime

/-- The call `c` moves, and what is granted stays. -/
theorem Inv.moved (h : Inv (s, n)) (lock : Option ℕ)
    (hLock : ∀ c', (Function.update s.calls c pc c').isFetching = true ↔ lock = some c')
    (hKnown : Known c n.grants s.now pc) : Inv ((s.setLock lock).goto c pc, n.move c) := by
  have hCalls (c' : ℕ) : ((s.setLock lock).goto c pc).calls c' = if c' = c then pc else s.calls c' := by
    simp only [State.goto, State.setLock, Function.update_apply]
  have hSeen (c' : ℕ) : (n.move c).seen c' = if c' = c then n.grants else n.seen c' := by
    simp only [Notes.move, Function.update_apply]
  refine ⟨hLock, h.token, h.expires, h.ordered, h.past, fun c' => ?_, fun c' hFetching => ?_, fun c' => ?_⟩
  · rw [hCalls, hSeen]
    split_ifs with hc
    · rw [hc]
      exact hKnown
    · exact h.known c'
  · rw [hCalls] at hFetching
    rw [hSeen]
    split_ifs at hFetching ⊢ with hc
    · rfl
    · exact h.flight c' hFetching
  · rw [hCalls, hSeen]
    split_ifs with hc
    · exact ⟨[], rfl, fun _ _ => nofun⟩
    · exact h.later c'

/-- A call that does not fetch moves to where it does not either. -/
theorem Inv.quiet (h : Inv (s, n)) (hBefore : (s.calls c).isFetching = false)
    (hAfter : pc.isFetching = false) (hKnown : Known c n.grants s.now pc) :
    Inv (s.goto c pc, n.move c) := by
  refine h.moved s.adapter.lock (fun c' => ?_) hKnown
  by_cases hc : c' = c
  · rw [hc, Function.update_self, hAfter, ← h.lock c, hBefore]
  · rw [Function.update_of_ne hc]
    exact h.lock c'

/-- The lock is free again. -/
theorem Inv.unlocked (h : Inv (s, n)) (hBefore : (s.calls c).isFetching = true)
    (hAfter : pc.isFetching = false) (hKnown : Known c n.grants s.now pc) :
    Inv ((s.setLock none).goto c pc, n.move c) := by
  refine h.moved none (fun c' => ?_) hKnown
  by_cases hc : c' = c
  · rw [hc, Function.update_self, hAfter]
    simp
  · rw [Function.update_of_ne hc, h.lock c', (h.lock c).mp hBefore]
    simpa using Ne.symm hc

theorem known_ensured (h : Inv (s, n)) (hUsable : s.adapter.unusable s.now = false) :
    Known c n.grants s.now (ensured s.adapter s.now) := by
  obtain ⟨-, hExpired⟩ := Bool.or_eq_false_iff.mp hUsable
  have hBuffer : s.now < s.adapter.expiresAt - expiryBuffer := not_le.mp (of_decide_eq_false hExpired)
  unfold ensured
  cases hToken : s.adapter.accessToken with
  | none => trivial
  | some accessToken =>
      refine Or.inl ⟨le_rfl, h.token.symm.trans hToken, ?_⟩
      rw [← h.expires]
      exact lt_sub_iff_add_lt.mp hBuffer

theorem ensured_quiet (adapter : OAuth.Adapter) (now : ℚ) : (ensured adapter now).isFetching = false := by
  unfold ensured
  split <;> rfl

/-- The adapter takes the values of a new grant, while no call fetches. -/
theorem Inv.grant (h : Inv (s, n)) (hFree : s.adapter.lock = none) {g : Grant}
    (hStarted : ∀ earlier ∈ n.grants, earlier.finished ≤ g.started) (hFinished : g.started ≤ g.finished)
    (hNow : g.finished = s.now) :
    Inv ({ s with adapter := ⟨g.accessToken, lastExpiry (g :: n.grants), none⟩ },
      { n with grants := g :: n.grants }) := by
  have hNone (c : ℕ) : ¬(s.calls c).isFetching = true := by
    rw [h.lock c, hFree]
    exact nofun
  refine ⟨fun c => ?_, rfl, rfl, List.pairwise_cons.mpr ⟨hStarted, h.ordered⟩, fun g' hg' => ?_, h.known,
    fun c hFetching => absurd hFetching (hNone c), fun c => ?_⟩
  · exact ⟨fun hFetching => absurd hFetching (hNone c), nofun⟩
  · rcases List.mem_cons.mp hg' with rfl | hg'
    · exact ⟨hFinished, hNow.le⟩
    · exact h.past g' hg'
  · obtain ⟨later, hSplit, hLater⟩ := h.later c
    refine ⟨g :: later, congrArg (g :: ·) hSplit, fun time hTime g' hg' => ?_⟩
    rcases List.mem_cons.mp hg' with rfl | hg'
    · rw [hNow]
      exact (h.known c).time_le hTime
    · exact hLater time hTime g' hg'

/-- What a complete answer lets its call end with. -/
theorem known_afterFetch {kind : Kind} {beganAt now : ℚ} {g : Grant} {lock : Option ℕ} {expiresAt : ℚ}
    (grants : List Grant) (hCaller : g.caller = c) (hBegan : beganAt ≤ g.started)
    (hNow : g.finished = now) {ends : Bool} (hEnds : ends = g.expiresIn.isSome) :
    Known c (g :: grants) now (afterFetch kind beganAt (⟨g.accessToken, expiresAt, lock⟩, ends) now) := by
  unfold afterFetch
  cases hComplete : g.expiresIn.isSome with
  | false =>
      rw [hEnds, hComplete]
      trivial
  | true =>
      rw [hEnds, hComplete]
      cases kind with
      | prepareRequest =>
          simp only [ensured]
          cases hToken : g.accessToken with
          | none => trivial
          | some accessToken => exact Or.inr ⟨le_rfl, g, grants, rfl, hToken, hCaller, hNow, hComplete⟩
      | refreshCredentials => exact ⟨le_rfl, g, grants, rfl, hNow, hBegan, hComplete⟩

theorem afterFetch_quiet (kind : Kind) (beganAt : ℚ) (fetched : OAuth.Adapter × Bool) (now : ℚ) :
    (afterFetch kind beganAt fetched now).isFetching = false := by
  unfold afterFetch
  split
  · rfl
  · exact ensured_quiet _ _
  · rfl

/-- A fetch brings a token. -/
theorem Inv.granted (h : Inv (s, n)) {kind : Kind} {beganAt started : ℚ} {accessToken : Option String}
    {expiresIn : Option ℤ} (hCall : s.calls c = .fetching kind beganAt started) :
    let fetched := assign s.adapter s.now (.token accessToken expiresIn)
    Inv (({ s with adapter := fetched.1 }.setLock none).goto c (afterFetch kind beganAt fetched s.now),
      Notes.move { n with grants := ⟨c, started, s.now, accessToken, expiresIn⟩ :: n.grants } c) := by
  let g : Grant := ⟨c, started, s.now, accessToken, expiresIn⟩
  have hFetching : (s.calls c).isFetching = true := by rw [hCall]; rfl
  have hKnown := h.known c
  rw [hCall, h.flight c hFetching] at hKnown
  obtain ⟨hBegan, hStarted, hOrdered⟩ := hKnown
  -- the call lets go of the lock, the grant is made, and the call ends
  have hFreed : Inv ((s.setLock none).goto c .raised, n.move c) := h.unlocked hFetching rfl trivial
  have hGrant := hFreed.grant rfl (g := g) hOrdered hStarted rfl
  have hQuiet : (((s.setLock none).goto c .raised).calls c).isFetching = false := by
    simp [State.goto, Pc.isFetching]
  have hExpiry : lastExpiry (g :: n.grants) = (assign s.adapter s.now (.token accessToken expiresIn)).1.expiresAt := by
    cases expiresIn with
    | none => exact h.expires.symm
    | some expiresIn => rfl
  let fetched : OAuth.Adapter × Bool :=
    (⟨g.accessToken, lastExpiry (g :: n.grants), s.adapter.lock⟩, g.expiresIn.isSome)
  have hFetched : assign s.adapter s.now (.token accessToken expiresIn) = fetched := by
    simp only [fetched, hExpiry]
    cases expiresIn <;> rfl
  have hEnd := @Inv.quiet _ _ c (afterFetch kind beganAt fetched s.now) hGrant hQuiet
    (afterFetch_quiet kind beganAt fetched s.now) (known_afterFetch n.grants rfl hBegan rfl rfl)
  simp only [State.goto, State.setLock, Notes.move, Function.update_idem] at hEnd
  rw [hFetched]
  exact hEnd

theorem Inv.step {e : Event} (h : Inv (s, n)) (next : Refresh.step s e = some t) :
    Inv (t, record s e n) := by
  cases e with
  | tick later =>
      simp only [Refresh.step] at next
      split_ifs at next with hLater
      cases next
      exact ⟨h.lock, h.token, h.expires, h.ordered,
        fun g hg => ⟨(h.past g hg).1, (h.past g hg).2.trans hLater⟩,
        fun c => (h.known c).later hLater, h.flight, h.later⟩
  | call c kind =>
      simp only [Refresh.step] at next
      split at next <;> cases next
      next hIdle =>
        have hBefore : (s.calls c).isFetching = false := by rw [hIdle]; rfl
        split_ifs with hWaits
        · exact h.quiet hBefore rfl (le_refl s.now)
        · have hUsable : s.adapter.unusable s.now = false := Bool.eq_false_iff.mpr fun hNot => hWaits (Or.inr hNot)
          exact h.quiet hBefore (ensured_quiet _ _) (known_ensured h hUsable)
  | acquire c =>
      simp only [Refresh.step] at next
      split at next
      next kind beganAt hWaiting hFree =>
        have hBefore : (s.calls c).isFetching = false := by rw [hWaiting]; rfl
        have hKnown := h.known c
        rw [hWaiting] at hKnown
        split_ifs at next with hFetches <;> cases next
        · refine h.moved (some c) (fun c' => ?_) ⟨hKnown, le_rfl, fun g hg => (h.past g hg).2⟩
          by_cases hc : c' = c
          · simp [hc, Pc.isFetching]
          · rw [Function.update_of_ne hc, h.lock c', hFree]
            simpa using Ne.symm hc
        · have hUsable : s.adapter.unusable s.now = false :=
            Bool.eq_false_iff.mpr fun hNot => hFetches (Or.inr hNot)
          exact h.quiet hBefore (ensured_quiet _ _) (known_ensured h hUsable)
      next => cases next
  | reply c reply =>
      simp only [Refresh.step] at next
      split at next
      next kind beganAt started hFetching =>
        cases next
        cases reply with
        | failed =>
            simp only [record, hFetching]
            exact h.unlocked (by rw [hFetching]; rfl) rfl trivial
        | token accessToken expiresIn =>
            simp only [record, hFetching]
            exact h.granted hFetching
      next => cases next
  | cancel c =>
      simp only [Refresh.step] at next
      split at next
      next kind beganAt hWaiting =>
        cases next
        exact h.quiet (by rw [hWaiting]; rfl) rfl trivial
      next kind beganAt started hFetching =>
        cases next
        exact h.unlocked (by rw [hFetching]; rfl) rfl trivial
      next => cases next

end Steps

theorem inv_run {p : State × Notes} (run : noted.Reaches System.anyRun p) : Inv p := by
  refine System.Reaches.invariant_history ?_ (fun s n t e h _ next => h.step next) run
  rintro s ⟨hAdapter, hCalls⟩
  have hIdle (c : ℕ) : s.calls c = .idle := congrFun hCalls c
  refine ⟨fun c => ?_, ?_, ?_, List.Pairwise.nil, nofun, fun c => ?_, fun c h => ?_,
    fun c => ⟨[], rfl, fun _ _ => nofun⟩⟩
  · show (s.calls c).isFetching = true ↔ s.adapter.lock = some c
    rw [hIdle, hAdapter]
    exact ⟨nofun, nofun⟩
  · exact congrArg OAuth.Adapter.accessToken hAdapter
  · exact congrArg OAuth.Adapter.expiresAt hAdapter
  · show Known c [] s.now (s.calls c)
    rw [hIdle]
    trivial
  · rfl

/-- Whatever fails and whoever refreshes: at most one fetch is on the way, and a request
carries the token of the last grant before it, which its call has fetched itself or
which the last known expiry allows for longer than the buffer. -/
theorem tokens_current {p : State × Notes} (run : noted.Reaches System.anyRun p) :
    (∀ c c', (p.1.calls c).isFetching = true → (p.1.calls c').isFetching = true → c = c') ∧
    ∀ c accessToken time, p.1.calls c = .returned accessToken time →
      ∃ later earlier, p.2.grants = later ++ earlier ∧ (∀ g ∈ later, time ≤ g.finished) ∧
        lastToken earlier = some accessToken ∧
        (time + expiryBuffer < lastExpiry earlier ∨
          ∃ g ∈ earlier.head?, g.caller = c ∧ g.finished = time) := by
  have h := inv_run run
  refine ⟨fun c c' hc hc' => ?_, fun c accessToken time hCall => ?_⟩
  · exact Option.some.inj (((h.lock c).mp hc).symm.trans ((h.lock c').mp hc'))
  · obtain ⟨later, hSplit, hLater⟩ := h.later c
    have hKnown := h.known c
    rw [hCall] at hKnown
    refine ⟨later, p.2.seen c, hSplit, hLater time (by rw [hCall]; rfl), ?_⟩
    rcases hKnown with ⟨-, hToken, hExpiry⟩ | ⟨-, g, earlier, hSeen, hToken, hCaller, hTime, -⟩
    · exact ⟨hToken, Or.inl hExpiry⟩
    · rw [hSeen]
      exact ⟨hToken, Or.inr ⟨g, rfl, hCaller, hTime⟩⟩

/-- A forced refresh that returned is not lost on those that come after it: what they
carry was fetched after it had been asked for. -/
theorem refresh_takes_effect {p : State × Notes} (run : noted.Reaches System.anyRun p) {r c : ℕ}
    {beganAt refreshedAt time : ℚ} {accessToken : String}
    (hRefresh : p.1.calls r = .refreshed beganAt refreshedAt)
    (hReturned : p.1.calls c = .returned accessToken time) (hAfter : refreshedAt < time) :
    ∃ g ∈ p.2.grants, g.accessToken = some accessToken ∧ beganAt ≤ g.started := by
  have h := inv_run run
  obtain ⟨-, granted, before, hGranted, hFinished, hBegan, -⟩ : Known r (p.2.seen r) p.1.now
      (.refreshed beganAt refreshedAt) := hRefresh ▸ h.known r
  obtain ⟨g, rest, hSeen, hToken⟩ : ∃ g rest, p.2.seen c = g :: rest ∧ g.accessToken = some accessToken := by
    have hKnown := h.known c
    rw [hReturned] at hKnown
    rcases hKnown with ⟨-, hToken, -⟩ | ⟨-, g, rest, hSeen, hToken, -⟩
    · obtain ⟨g, hHead, hToken⟩ := Option.bind_eq_some_iff.mp hToken
      obtain ⟨rest, hSeen⟩ := List.head?_eq_some_iff.mp hHead
      exact ⟨g, rest, hSeen, hToken⟩
    · exact ⟨g, rest, hSeen, hToken⟩
  obtain ⟨laterR, hSplitR, -⟩ := h.later r
  obtain ⟨later, hSplit, hLater⟩ := h.later c
  have hGrant : granted ∈ later ++ g :: rest := by
    rw [← hSeen, ← hSplit, hSplitR, hGranted]
    exact List.mem_append_right _ List.mem_cons_self
  have hMem : g ∈ p.2.grants := by
    rw [hSplit, hSeen]
    exact List.mem_append_right _ List.mem_cons_self
  refine ⟨g, hMem, hToken, ?_⟩
  rcases List.mem_append.mp hGrant with hIn | hIn
  · -- what came later finished after the request had its token
    have hTime := hLater time (by rw [hReturned]; rfl) granted hIn
    rw [hFinished] at hTime
    exact absurd hAfter (not_lt.mpr hTime)
  · rcases List.mem_cons.mp hIn with rfl | hEarlier
    · exact hBegan
    · have hOrdered := h.ordered
      rw [hSplit, hSeen] at hOrdered
      have hNext := List.rel_of_pairwise_cons (List.pairwise_append.mp hOrdered).2.1 hEarlier
      have hPast : granted ∈ p.2.grants := by
        rw [hSplit, hSeen]
        exact List.mem_append_right _ hIn
      exact hBegan.trans ((h.past granted hPast).1.trans hNext)

/-- A request fetches, a refresh succeeds, another one gets a bad `expires_in`, and a
request carries the token of the latter. -/
def sampleCalls : List Event :=
  [.call 0 .prepareRequest, .acquire 0, .reply 0 (.token (some "a") (some 3600)), .tick 110,
    .call 1 .refreshCredentials, .acquire 1, .reply 1 (.token (some "b") (some 3600)), .tick 120,
    .call 2 .refreshCredentials, .acquire 2, .reply 2 (.token (some "c") none), .tick 130,
    .call 3 .prepareRequest]

theorem sample_run : ∃ p, noted.Reaches System.anyRun p ∧ p.1.calls 1 = .refreshed 110 110 ∧
    p.1.calls 3 = .returned "c" 130 := by
  have start : noted.Reaches System.anyRun (⟨100, .new, fun _ => .idle⟩, ⟨[], fun _ => []⟩) :=
    .init ⟨⟨rfl, rfl⟩, rfl⟩
  have hExec : (noted.exec System.anyRun (⟨100, .new, fun _ => .idle⟩, ⟨[], fun _ => []⟩)
      sampleCalls).any (fun p => decide (p.1.calls 1 = .refreshed 110 110 ∧
        p.1.calls 3 = .returned "c" 130)) = true := by
    decide +kernel
  obtain ⟨p, run, hEnd⟩ := start.exec_any hExec
  exact ⟨p, run, of_decide_eq_true hEnd⟩

theorem tokens_current_sample : ∃ p : State × Notes, p.1.calls 3 = .returned "c" 130 ∧
    ∃ later earlier, p.2.grants = later ++ earlier ∧ (∀ g ∈ later, 130 ≤ g.finished) ∧
      lastToken earlier = some "c" ∧
      (130 + expiryBuffer < lastExpiry earlier ∨
        ∃ g ∈ earlier.head?, g.caller = 3 ∧ g.finished = 130) := by
  obtain ⟨p, run, -, hReturned⟩ := sample_run
  exact ⟨p, hReturned, (tokens_current run).2 3 "c" 130 hReturned⟩

theorem refresh_takes_effect_sample : ∃ p : State × Notes, p.1.calls 3 = .returned "c" 130 ∧
    ∃ g ∈ p.2.grants, g.accessToken = some "c" ∧ 110 ≤ g.started := by
  obtain ⟨p, run, hRefreshed, hReturned⟩ := sample_run
  exact ⟨p, hReturned, refresh_takes_effect run hRefreshed hReturned (by norm_num)⟩

end Gateway.Vendors.Refresh
