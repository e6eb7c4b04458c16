import Gateway.Semantics.Transition
import Mathlib.Algebra.Order.Ring.Rat
import Mathlib.Tactic.Linarith

/-! `OAuth2ClientCredentialsAdapter` behind the registry: requests to one oauth2
vendor whose row does not change. A reload empties `_adapters`, so the next
request builds a new adapter, while requests in progress keep theirs. -/
namespace Gateway.Vendors.OAuth

open Transition

/-- The fields of an adapter that change, and the request that holds its lock. -/
structure Adapter where
  accessToken : Option String
  expiresAt : ℚ
  lock : Option ℕ

/-- A new adapter. -/
def Adapter.new : Adapter := ⟨none, 0, none⟩

/-- `_EXPIRY_BUFFER_SECONDS` -/
def expiryBuffer : ℚ := 30

/-- `_access_token is None or _is_expired()` -/
def Adapter.unusable (a : Adapter) (now : ℚ) : Bool :=
  a.accessToken.isNone || decide (a.expiresAt - expiryBuffer ≤ now)

/-- Where a request is: it has its adapter, it waits for the lock of the adapter,
it has asked the token endpoint, it has its token or has failed. -/
inductive Pc where
  | idle
  | resolved (a : ℕ)
  | waiting (a : ℕ)
  | fetching (a : ℕ) (started : ℚ)
  | done

/-- A fetch that brought a token. -/
structure Fetch where
  adapter : ℕ
  started : ℚ
  finished : ℚ

/-- `cached` is the entry of `_adapters` for the vendor. Adapters are numbered as
they are built; `fetches` lists the latest fetch first, and no step reads it. -/
structure State where
  now : ℚ
  cached : Option ℕ
  built : ℕ
  adapters : ℕ → Adapter
  requests : ℕ → Pc
  fetches : List Fetch

inductive Event where
  | tick (later : ℚ)
  | reload
  | getAdapter (c : ℕ)
  | ensureToken (c : ℕ)
  | acquire (c : ℕ)
  | token (c : ℕ) (accessToken : String)
  | raise (c : ℕ)

def goto (s : State) (c : ℕ) (pc : Pc) : State :=
  { s with requests := Function.update s.requests c pc }

def setAdapter (s : State) (a : ℕ) (adapter : Adapter) : State :=
  { s with adapters := Function.update s.adapters a adapter }

section Machine

variable (expiresIn : ℤ)

def step (s : State) : Event → Option State
  | .tick later => if s.now ≤ later then some { s with now := later } else none
  | .reload => some { s with cached := none }
  | .getAdapter c =>
      match s.requests c, s.cached with
      | .idle, some a => some (goto s c (.resolved a))
      | .idle, none => some { goto s c (.resolved s.built) with
          cached := some s.built
          built := s.built + 1 }
      | _, _ => none
  | .ensureToken c =>
      match s.requests c with
      | .resolved a =>
          some (goto s c (if (s.adapters a).unusable s.now then .waiting a else .done))
      | _ => none
  | .acquire c =>
      match s.requests c with
      | .waiting a =>
          if (s.adapters a).lock.isNone then
            -- the token is looked at again under the lock
            if (s.adapters a).unusable s.now then
              some (setAdapter (goto s c (.fetching a s.now)) a
                { s.adapters a with lock := some c })
            else some (goto s c .done)
          else none
      | _ => none
  | .token c accessToken =>
      match s.requests c with
      | .fetching a started =>
          some { setAdapter (goto s c .done) a ⟨some accessToken, s.now + expiresIn, none⟩ with
            fetches := ⟨a, started, s.now⟩ :: s.fetches }
      | _ => none
  | .raise c =>
      match s.requests c with
      | .waiting _ => some (goto s c .done)
      | .fetching a _ => some (setAdapter (goto s c .done) a { s.adapters a with lock := none })
      | _ => none

def machine : System State Event where
  init s := s.cached = none ∧ s.built = 0 ∧ s.adapters = (fun _ => .new) ∧
    s.requests = (fun _ => .idle) ∧ s.fetches = []
  step := step expiresIn

/-- Any two fetches start at least the lifetime of a token apart, less the buffer. -/
def Spaced (s : State) : Prop :=
  s.fetches.Pairwise fun later earlier => earlier.started + (expiresIn - expiryBuffer) ≤ later.started

/-- A request asks for a token only while no other adapter that was built for the
vendor has a usable one or asks for one. -/
def alone (s : State) (e : Event) : Prop :=
  match e with
  | .acquire c =>
      match s.requests c with
      | .waiting a =>
          (s.adapters a).unusable s.now = true →
            ∀ b < s.built, b ≠ a →
              (s.adapters b).unusable s.now = true ∧ (s.adapters b).lock = none
      | _ => True
  | _ => True

/-- The adapter that a request works with. -/
def Pc.adapter? : Pc → Option ℕ
  | .resolved a | .waiting a | .fetching a _ => some a
  | _ => none

/-- At most one fetch is in progress, under the lock of its adapter; it started
when every token fetched before had become unusable. -/
structure Invariant (s : State) : Prop where
  cached : ∀ a, s.cached = some a → a < s.built
  working : ∀ c a, (s.requests c).adapter? = some a → a < s.built
  fetched : ∀ f ∈ s.fetches, f.adapter < s.built ∧ f.started ≤ f.finished ∧ f.finished ≤ s.now ∧
    (s.adapters f.adapter).accessToken.isSome ∧
      f.finished + expiresIn ≤ (s.adapters f.adapter).expiresAt
  locked : ∀ c a started, s.requests c = .fetching a started →
    (s.adapters a).lock = some c ∧ started ≤ s.now ∧
      ∀ f ∈ s.fetches, f.finished + (expiresIn - expiryBuffer) ≤ started
  single : ∀ c a started c' a' started', s.requests c = .fetching a started →
    s.requests c' = .fetching a' started' → c = c'
  spaced : s.fetches.Pairwise fun later earlier =>
    earlier.finished + (expiresIn - expiryBuffer) ≤ later.started

variable {expiresIn}

/-- A token that is unusable was fetched long enough ago. -/
theorem fetched_before {s : State} (h : Invariant expiresIn s) {f : Fetch} (hf : f ∈ s.fetches)
    (hUnusable : (s.adapters f.adapter).unusable s.now = true) :
    f.finished + (expiresIn - expiryBuffer) ≤ s.now := by
  obtain ⟨-, -, -, hToken, hExpires⟩ := h.fetched f hf
  have hBuffer : (s.adapters f.adapter).expiresAt - expiryBuffer ≤ s.now := by
    simpa [Adapter.unusable, Option.isSome_iff_ne_none.mp hToken] using hUnusable
  linarith

/-- A request moves on without fetching. -/
theorem Invariant.moved {s : State} (h : Invariant expiresIn s) (c : ℕ) (pc : Pc)
    (hBuilt : ∀ a, pc.adapter? = some a → a < s.built) (hIdle : ∀ a started, pc ≠ .fetching a started) :
    Invariant expiresIn (goto s c pc) := by
  have hOther : ∀ c' a started, (goto s c pc).requests c' = .fetching a started →
      s.requests c' = .fetching a started := by
    intro c' a started hPc
    by_cases hc : c' = c
    · subst hc
      exact absurd (by simpa [goto] using hPc) (hIdle a started)
    · simpa [goto, hc] using hPc
  refine ⟨h.cached, ?_, h.fetched, ?_, ?_, h.spaced⟩
  · intro c' a hPc
    by_cases hc : c' = c
    · subst hc
      exact hBuilt a (by simpa [goto] using hPc)
    · exact h.working c' a (by simpa [goto, hc] using hPc)
  · intro c' a started hPc
    exact h.locked c' a started (hOther c' a started hPc)
  · intro c' a started c'' a' started' hPc hPc'
    exact h.single c' a started c'' a' started' (hOther _ _ _ hPc) (hOther _ _ _ hPc')

/-- A request ends that was not fetching, or found a token under the lock. -/
theorem Invariant.finished {s : State} (h : Invariant expiresIn s) (c : ℕ) :
    Invariant expiresIn (goto s c .done) := by
  apply h.moved
  · intro a hSome
    cases hSome
  · intro a started hPc
    cases hPc

/-- A request starts to fetch, alone. -/
theorem Invariant.fetching {s : State} (h : Invariant expiresIn s) {c a : ℕ}
    (hPc : s.requests c = .waiting a) (hFree : (s.adapters a).lock = none)
    (hUnusable : (s.adapters a).unusable s.now = true)
    (hAlone : ∀ b < s.built, b ≠ a →
      (s.adapters b).unusable s.now = true ∧ (s.adapters b).lock = none) :
    Invariant expiresIn (setAdapter (goto s c (.fetching a s.now)) a
      { s.adapters a with lock := some c }) := by
  have hBuilt : a < s.built := h.working c a (by simp [hPc, Pc.adapter?])
  have hNone : ∀ c' a' started, s.requests c' ≠ .fetching a' started := by
    intro c' a' started hPc'
    have hLock := (h.locked c' a' started hPc').1
    by_cases ha : a' = a
    · subst ha
      rw [hFree] at hLock
      cases hLock
    · have hBuilt' : a' < s.built := h.working c' a' (by simp [hPc', Pc.adapter?])
      rw [(hAlone a' hBuilt' ha).2] at hLock
      cases hLock
  have hSelf : ∀ c' a' started,
      (setAdapter (goto s c (.fetching a s.now)) a { s.adapters a with lock := some c }).requests c' =
        .fetching a' started → c' = c ∧ a' = a ∧ started = s.now := by
    intro c' a' started hPc'
    by_cases hc : c' = c
    · subst hc
      have hSame : Pc.fetching a s.now = .fetching a' started := by
        simpa [setAdapter, goto] using hPc'
      cases hSame
      exact ⟨rfl, rfl, rfl⟩
    · exact absurd (by simpa [setAdapter, goto, hc] using hPc') (hNone c' a' started)
  have hToken : ∀ b, (Function.update s.adapters a { s.adapters a with lock := some c } b).accessToken =
      (s.adapters b).accessToken ∧
        (Function.update s.adapters a { s.adapters a with lock := some c } b).expiresAt =
          (s.adapters b).expiresAt := by
    intro b
    by_cases hb : b = a
    · subst hb
      simp
    · simp [hb]
  refine ⟨h.cached, ?_, ?_, ?_, ?_, h.spaced⟩
  · intro c' a' hPc'
    by_cases hc : c' = c
    · subst hc
      obtain rfl : a = a' := by simpa [setAdapter, goto, Pc.adapter?] using hPc'
      exact hBuilt
    · exact h.working c' a' (by simpa [setAdapter, goto, hc] using hPc')
  · intro f hf
    have hOld := h.fetched f hf
    rw [← (hToken f.adapter).1, ← (hToken f.adapter).2] at hOld
    exact hOld
  · intro c' a' started hPc'
    obtain ⟨rfl, rfl, rfl⟩ := hSelf c' a' started hPc'
    refine ⟨by simp [setAdapter], le_rfl, ?_⟩
    intro f hf
    apply fetched_before h hf
    by_cases hOwn : f.adapter = a'
    · rw [hOwn]
      exact hUnusable
    · exact (hAlone f.adapter (h.fetched f hf).1 hOwn).1
  · intro c' a' started c'' a'' started' hPc' hPc''
    rw [(hSelf c' a' started hPc').1, (hSelf c'' a'' started' hPc'').1]

/-- The only fetch in progress ends: its adapter has the lock back, and a token
or the one that it had. -/
theorem Invariant.ended {s : State} (h : Invariant expiresIn s) {c a : ℕ} {started : ℚ}
    (hPc : s.requests c = .fetching a started) (adapter : Adapter) (fetches : List Fetch)
    (hFetched : ∀ f ∈ fetches, f.adapter < s.built ∧ f.started ≤ f.finished ∧ f.finished ≤ s.now ∧
      (Function.update s.adapters a adapter f.adapter).accessToken.isSome ∧
        f.finished + expiresIn ≤ (Function.update s.adapters a adapter f.adapter).expiresAt)
    (hSpaced : fetches.Pairwise fun later earlier =>
      earlier.finished + (expiresIn - expiryBuffer) ≤ later.started) :
    Invariant expiresIn { setAdapter (goto s c .done) a adapter with fetches := fetches } := by
  have hNone : ∀ c' a' started', (goto s c .done).requests c' ≠ .fetching a' started' := by
    intro c' a' started' hPc'
    by_cases hc : c' = c
    · subst hc
      simp [goto] at hPc'
    · have hOld : s.requests c' = .fetching a' started' := by
        simpa [goto, hc] using hPc'
      exact hc (h.single _ _ _ _ _ _ hOld hPc)
  refine ⟨h.cached, ?_, hFetched, ?_, ?_, hSpaced⟩
  · intro c' a' hPc'
    by_cases hc : c' = c
    · subst hc
      simp [setAdapter, goto, Pc.adapter?] at hPc'
    · exact h.working c' a' (by simpa [setAdapter, goto, hc] using hPc')
  · intro c' a' started' hPc'
    exact absurd hPc' (hNone c' a' started')
  · intro c' a' started' c'' a'' started'' hPc'
    exact absurd hPc' (hNone c' a' started')

theorem Invariant.token {s : State} (h : Invariant expiresIn s) {c a : ℕ} {started : ℚ}
    (hPc : s.requests c = .fetching a started) (accessToken : String) :
    Invariant expiresIn { setAdapter (goto s c .done) a
        ⟨some accessToken, s.now + expiresIn, none⟩ with
      fetches := ⟨a, started, s.now⟩ :: s.fetches } := by
  obtain ⟨-, hStarted, hBefore⟩ := h.locked c a started hPc
  have hBuilt : a < s.built := h.working c a (by simp [hPc, Pc.adapter?])
  apply h.ended hPc
  · intro f hf
    cases hf with
    | head => simp [hBuilt, hStarted]
    | tail _ hOld =>
        obtain ⟨hAdapter, hOrder, hPast, hToken, hExpires⟩ := h.fetched f hOld
        refine ⟨hAdapter, hOrder, hPast, ?_⟩
        by_cases hOwn : f.adapter = a
        · rw [hOwn, Function.update_self]
          refine ⟨rfl, ?_⟩
          change f.finished + expiresIn ≤ s.now + expiresIn
          linarith
        · rw [Function.update_of_ne hOwn]
          exact ⟨hToken, hExpires⟩
  · exact List.pairwise_cons.mpr ⟨hBefore, h.spaced⟩

theorem Invariant.raise {s : State} (h : Invariant expiresIn s) {c a : ℕ} {started : ℚ}
    (hPc : s.requests c = .fetching a started) :
    Invariant expiresIn (setAdapter (goto s c .done) a { s.adapters a with lock := none }) := by
  apply h.ended hPc
  · intro f hf
    obtain ⟨hAdapter, hOrder, hPast, hToken, hExpires⟩ := h.fetched f hf
    refine ⟨hAdapter, hOrder, hPast, ?_⟩
    by_cases hOwn : f.adapter = a
    · rw [hOwn] at hToken hExpires
      rw [hOwn, Function.update_self]
      exact ⟨hToken, hExpires⟩
    · rw [Function.update_of_ne hOwn]
      exact ⟨hToken, hExpires⟩
  · exact h.spaced

/-- A request gets the cached adapter or a new one. -/
theorem Invariant.built {s : State} (h : Invariant expiresIn s) (c : ℕ) :
    Invariant expiresIn { goto s c (.resolved s.built) with
      cached := some s.built
      built := s.built + 1 } := by
  have hMore : Invariant expiresIn { s with cached := some s.built, built := s.built + 1 } := by
    refine ⟨?_, ?_, ?_, h.locked, h.single, h.spaced⟩
    · intro a hSome
      cases hSome
      exact Nat.lt_succ_self _
    · intro c' a hPc
      exact (h.working c' a hPc).trans (Nat.lt_succ_self _)
    · intro f hf
      exact ⟨(h.fetched f hf).1.trans (Nat.lt_succ_self _), (h.fetched f hf).2⟩
  apply hMore.moved c (.resolved s.built)
  · intro a hSome
    obtain rfl : s.built = a := by simpa [Pc.adapter?] using hSome
    exact Nat.lt_succ_self _
  · intro a started hPc
    cases hPc

theorem Invariant.step {s t : State} {e : Event} (h : Invariant expiresIn s) (hAlone : alone s e)
    (next : (machine expiresIn).step s e = some t) : Invariant expiresIn t := by
  cases e with
  | tick later =>
      simp only [machine, OAuth.step] at next
      split_ifs at next with hLater
      cases next
      refine ⟨h.cached, h.working, ?_, ?_, h.single, h.spaced⟩
      · intro f hf
        obtain ⟨hAdapter, hOrder, hPast, hRest⟩ := h.fetched f hf
        exact ⟨hAdapter, hOrder, hPast.trans hLater, hRest⟩
      · intro c a started hPc
        obtain ⟨hLock, hStarted, hBefore⟩ := h.locked c a started hPc
        exact ⟨hLock, hStarted.trans hLater, hBefore⟩
  | reload =>
      cases next
      refine ⟨?_, h.working, h.fetched, h.locked, h.single, h.spaced⟩
      intro a hSome
      cases hSome
  | getAdapter c =>
      simp only [machine, OAuth.step] at next
      split at next
      · rename_i a _ hCached
        cases next
        apply h.moved
        · intro a' hSome
          obtain rfl : a = a' := by simpa [Pc.adapter?] using hSome
          exact h.cached a hCached
        · intro a' started hPc
          cases hPc
      · cases next
        exact h.built c
      · cases next
  | ensureToken c =>
      simp only [machine, OAuth.step] at next
      split at next
      · rename_i a hPc
        cases next
        have hBuilt := h.working c a (by simp [hPc, Pc.adapter?])
        apply h.moved
        · intro a' hSome
          split_ifs at hSome
          · obtain rfl : a = a' := by simpa [Pc.adapter?] using hSome
            exact hBuilt
          · cases hSome
        · intro a' started hPc'
          split_ifs at hPc'
      · cases next
  | acquire c =>
      simp only [machine, OAuth.step] at next
      split at next
      · rename_i a hPc
        split_ifs at next with hFree hUnusable
        · cases next
          simp only [alone, hPc] at hAlone
          exact h.fetching hPc (Option.isNone_iff_eq_none.mp hFree) hUnusable (hAlone hUnusable)
        · cases next
          exact h.finished c
      · cases next
  | token c accessToken =>
      simp only [machine, OAuth.step] at next
      split at next
      · rename_i a started hPc
        cases next
        exact h.token hPc accessToken
      · cases next
  | raise c =>
      simp only [machine, OAuth.step] at next
      split at next
      · cases next
        exact h.finished c
      · rename_i a started hPc
        cases next
        exact h.raise hPc
      · cases next

/-- Fetches are a token lifetime apart, less the buffer, in every run in which
no dropped adapter has a usable token when another one asks for a token. -/
theorem fetches_spaced {s : State} (run : (machine expiresIn).Reaches alone s) :
    Spaced expiresIn s := by
  have hInv : Invariant expiresIn s := by
    apply run.invariant
    · rintro s ⟨hCached, hBuilt, hAdapters, hRequests, hFetches⟩
      refine ⟨?_, ?_, ?_, ?_, ?_, ?_⟩
      · intro a hSome
        rw [hCached] at hSome
        cases hSome
      · intro c a hPc
        rw [hRequests] at hPc
        cases hPc
      · intro f hf
        rw [hFetches] at hf
        cases hf
      · intro c a started hPc
        rw [hRequests] at hPc
        cases hPc
      · intro c a started c' a' started' hPc
        rw [hRequests] at hPc
        cases hPc
      · rw [hFetches]
        exact .nil
    · intro s t e _ hInv hAlone next
      exact hInv.step hAlone next
  apply hInv.spaced.imp_of_mem
  intro later earlier _ hEarlier hGap
  have hOrder := (hInv.fetched earlier hEarlier).2.1
  linarith

end Machine

section Sample

def sampleStart : State := ⟨0, none, 0, fun _ => .new, fun _ => .idle, []⟩

theorem init_sampleStart (expiresIn : ℤ) : (machine expiresIn).init sampleStart :=
  ⟨rfl, rfl, rfl, rfl, rfl⟩

/-- A request from its adapter to its token. -/
def fetch (c : ℕ) : List Event := [.getAdapter c, .ensureToken c, .acquire c, .token c "t"]

/-- When the tokens were asked for, the latest first. -/
def starts (s : State) : List ℚ := s.fetches.map Fetch.started

/-- Tokens of an hour, and a reload after a minute: the next request asks again. -/
theorem fetches_not_spaced : ∃ s, (machine 3600).Reaches System.anyRun s ∧
    starts s = [61, 0] ∧ ¬Spaced 3600 s := by
  obtain ⟨s, run, hStarts⟩ : ∃ s, (machine 3600).Reaches System.anyRun s ∧
      decide (starts s = [61, 0]) = true :=
    System.Reaches.exec_any (.init (init_sampleStart 3600))
      (by decide +kernel : ((machine 3600).exec System.anyRun sampleStart
        (fetch 0 ++ [.tick 61, .reload] ++ fetch 1)).any (fun s => decide (starts s = [61, 0])) = true)
  have hStarts : starts s = [61, 0] := of_decide_eq_true hStarts
  refine ⟨s, run, hStarts, ?_⟩
  intro hSpaced
  have hGap : (starts s).Pairwise fun later earlier => earlier + (3600 - 30) ≤ later :=
    List.pairwise_map.mpr hSpaced
  rw [hStarts] at hGap
  norm_num at hGap

instance (s : State) (e : Event) : Decidable (alone s e) := by
  unfold alone
  split
  · split <;> infer_instance
  · infer_instance

/-- A reload once the token is due: the new adapter fetches in its turn. -/
theorem fetches_spaced_due : ∃ s, starts s = [3571, 0] ∧ Spaced 3600 s := by
  obtain ⟨s, run, hStarts⟩ : ∃ s, (machine 3600).Reaches alone s ∧
      decide (starts s = [3571, 0]) = true :=
    System.Reaches.exec_any (.init (init_sampleStart 3600))
      (by decide +kernel : ((machine 3600).exec alone sampleStart
        (fetch 0 ++ [.tick 61, .getAdapter 1, .ensureToken 1, .tick 3571, .reload] ++ fetch 2)).any
          (fun s => decide (starts s = [3571, 0])) = true)
  exact ⟨s, of_decide_eq_true hStarts, fetches_spaced run⟩

end Sample

end Gateway.Vendors.OAuth
