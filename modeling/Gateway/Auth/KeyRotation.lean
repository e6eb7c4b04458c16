import Gateway.Auth.SigningKeys

/-! `verify_token` for any number of tokens at once. The calls share the cache of
signing keys: while one of them waits for the key endpoint, others verify tokens
with the cached keys or install a key set of their own. -/
namespace Gateway.Auth.KeyRotation

open Transition

/-- An answer of the key endpoint, the call that it is given to and the time of it. -/
structure Answer (Material : Type*) where
  caller : ℕ
  time : ℚ
  document : Option (List (KeyData Material))

/-- Which of its two refreshes a call of `get_signing_key` is in. -/
inductive Purpose where
  | stale (kid : Kid)
  | unknown (kid : String)

/-- Where a call waits. -/
inductive Pc (Material Claims : Type*) where
  | fetching (purpose : Purpose)
  | answered (purpose : Purpose) (answer : Answer Material)
  | ended (result : Except Failure Claims)

structure Call (Token Material Claims : Type*) where
  token : Token
  beganAt : ℚ
  pc : Pc Material Claims

structure State (Token Material Key Claims : Type*) where
  clock : ℚ
  cache : JWKSCache Key
  calls : ℕ → Option (Call Token Material Claims)

/-- The endpoint answers at one moment; a call reads the answer at another. No
document stands for an answer that `_fetch_jwks` raises on. -/
inductive Event (Token Material : Type*) where
  | elapse (dt : ℚ)
  | call (c : ℕ) (token : Token)
  | answer (c : ℕ) (document : Option (List (KeyData Material)))
  | resume (c : ℕ)

section Machine

variable {Token Material Key Claims : Type*} (jose : Jose Token Material Key Claims)
  (settings : Settings)

/-- The end of `verify_token`. -/
def decoded (token : Token) (key : Key) : Except Failure Claims :=
  match jose.decode token key settings.jwtAlgorithms (decodeOptions settings) none none with
  | .ok claims => .ok claims
  | .error .expiredSignature => .error (.auth .expired)
  | .error (.claims reason) => .error (.auth (.invalidClaims reason))
  | .error (.other reason) => .error (.auth (.notVerified reason))
  | .error .raised => .error .escaped

/-- `get_signing_key` after its first refresh, up to the next await. -/
def lookup (cache : JWKSCache Key) (token : Token) (kid : Kid) : Pc Material Claims :=
  match cache.keys.items, kid with
  | [], _ => .ended (.error (.auth .noKeys))
  | (_, key) :: _, .absent => .ended (decoded jose settings token key)
  | _, .unhashable => .ended (.error .escaped)
  | _, .key kid =>
      match cache.keys.get? kid with
      | some key => .ended (decoded jose settings token key)
      | none => .fetching (.unknown kid)

/-- `get_signing_key` after its forced refresh. -/
def lookupAgain (cache : JWKSCache Key) (token : Token) (kid : String) : Pc Material Claims :=
  match cache.keys.get? kid with
  | some key => .ended (decoded jose settings token key)
  | none => .ended (.error (.auth (.unknownKey kid)))

/-- `verify_token` up to its first await. -/
def begin (s : State Token Material Key Claims) (token : Token) : Pc Material Claims :=
  match jose.getUnverifiedHeader token with
  | .error reason => .ended (.error (.auth (.malformedHeader reason)))
  | .ok kid =>
      if s.cache.isStale settings s.clock then .fetching (.stale kid)
      else lookup jose settings s.cache token kid

/-- What a call does once `update` has returned. -/
def proceed (cache : JWKSCache Key) (token : Token) : Purpose → Pc Material Claims
  | .stale kid => lookup jose settings cache token kid
  | .unknown kid => lookupAgain jose settings cache token kid

def afterRefresh (refreshed : JWKSCache Key × Bool) (token : Token) (purpose : Purpose) :
    Pc Material Claims :=
  if refreshed.2 then proceed jose settings refreshed.1 token purpose
  else .ended (.error .escaped)

def State.set (s : State Token Material Key Claims) (c : ℕ) (call : Call Token Material Claims) :
    State Token Material Key Claims :=
  { s with calls := Function.update s.calls c (some call) }

def step (s : State Token Material Key Claims) :
    Event Token Material → Option (State Token Material Key Claims)
  | .elapse dt => if 0 ≤ dt then some { s with clock := s.clock + dt } else none
  | .call c token =>
      match s.calls c with
      | none => some (s.set c ⟨token, s.clock, begin jose settings s token⟩)
      | some _ => none
  | .answer c document =>
      match s.calls c with
      | some ⟨token, beganAt, .fetching purpose⟩ =>
          some (s.set c ⟨token, beganAt, .answered purpose ⟨c, s.clock, document⟩⟩)
      | _ => none
  | .resume c =>
      match s.calls c with
      | some ⟨token, beganAt, .answered purpose a⟩ =>
          let refreshed := s.cache.refresh jose ⟨a.document, s.clock⟩
          some ({ s with cache := refreshed.1 }.set c
            ⟨token, beganAt, afterRefresh jose settings refreshed token purpose⟩)
      | _ => none

/-- A process from its start. -/
def machine : System (State Token Material Key Claims) (Event Token Material) where
  init s := 0 ≤ s.clock ∧ s.cache = ⟨Dict.empty, 0⟩ ∧ ∀ c, s.calls c = none
  step := step jose settings

/-- The answers of the endpoint, the last one first. -/
def record (s : State Token Material Key Claims) (e : Event Token Material)
    (answers : List (Answer Material)) : List (Answer Material) :=
  match e with
  | .answer c document => ⟨c, s.clock, document⟩ :: answers
  | .elapse _ | .call _ _ | .resume _ => answers

def recorded : System (State Token Material Key Claims × List (Answer Material))
    (Event Token Material) :=
  (machine jose settings).withHistory [] record

end Machine

section Causes

variable {Token Material Key Claims : Type*} (jose : Jose Token Material Key Claims)
  (settings : Settings) (delay : ℚ) (answers : List (Answer Material))

/-- An answer is read at most `delay` after it was given. -/
def Prompt (delay : ℚ) (s : State Token Material Key Claims) : Event Token Material → Prop
  | .resume c =>
      match s.calls c with
      | some ⟨_, _, .answered _ a⟩ => s.clock ≤ a.time + delay
      | _ => True
  | _ => True

instance (s : State Token Material Key Claims) (e : Event Token Material) :
    Decidable (Prompt delay s e) := by
  unfold Prompt
  split
  · split <;> infer_instance
  · infer_instance

/-- The answer has an entry for this key; a token without `kid` takes any. -/
def Answer.Offers (a : Answer Material) (kid : Kid) (key : Key) : Prop :=
  ∃ entries, a.document = some entries ∧ ∃ entry ∈ entries, ∃ name, entry.name = some name ∧
    (∀ k, kid = .key k → name = k) ∧ jose.construct entry = some key

/-- The answer counts for a call that began then: it was given later, or so short a
time before that the cache was not stale. -/
def Answer.Counts (a : Answer Material) (beganAt : ℚ) : Prop :=
  beganAt ≤ a.time ∨ beganAt ≤ a.time + delay + settings.jwksCacheTtlSeconds

/-- What the verification of a call ends with, and why. A forced refresh, and one that
raises, is the call's own. -/
inductive Explained (c : ℕ) (token : Token) (beganAt : ℚ) : Except Failure Claims → Prop where
  | malformed {reason : String} (header : jose.getUnverifiedHeader token = .error reason) :
      Explained c token beganAt (.error (.auth (.malformedHeader reason)))
  | decoded {kid : Kid} {key : Key} {a : Answer Material}
      (header : jose.getUnverifiedHeader token = .ok kid) (given : a ∈ answers)
      (counts : a.Counts settings delay beganAt) (offers : a.Offers jose kid key) :
      Explained c token beganAt (KeyRotation.decoded jose settings token key)
  | young (header : ∃ kid, jose.getUnverifiedHeader token = .ok kid)
      (early : beganAt ≤ settings.jwksCacheTtlSeconds) :
      Explained c token beganAt (.error (.auth .noKeys))
  | noKeys {a : Answer Material} {entries : List (KeyData Material)}
      (header : ∃ kid, jose.getUnverifiedHeader token = .ok kid) (given : a ∈ answers)
      (counts : a.Counts settings delay beganAt) (document : a.document = some entries)
      (empty : (keysBeforeRejected jose entries).items = []) :
      Explained c token beganAt (.error (.auth .noKeys))
  | unknownKey {kid : String} {a : Answer Material} {entries : List (KeyData Material)}
      (header : jose.getUnverifiedHeader token = .ok (.key kid)) (given : a ∈ answers)
      (own : a.caller = c) (later : beganAt ≤ a.time) (document : a.document = some entries)
      (absent : ∀ entry ∈ entries, entry.name ≠ some kid) :
      Explained c token beganAt (.error (.auth (.unknownKey kid)))
  | unhashable {a : Answer Material} {entries : List (KeyData Material)}
      (header : jose.getUnverifiedHeader token = .ok .unhashable) (given : a ∈ answers)
      (counts : a.Counts settings delay beganAt) (document : a.document = some entries)
      (some : (keysBeforeRejected jose entries).items ≠ []) :
      Explained c token beganAt (.error .escaped)
  | escaped {a : Answer Material} (given : a ∈ answers) (own : a.caller = c)
      (later : beganAt ≤ a.time)
      (broken : ∀ entries, a.document = some entries → ∃ entry ∈ entries, accepted jose entry = false) :
      Explained c token beganAt (.error .escaped)

end Causes

section Sources

variable {Token Material Key Claims : Type*} {jose : Jose Token Material Key Claims}
  {settings : Settings} {delay : ℚ} {answers : List (Answer Material)}
  {entries : List (KeyData Material)} {cache : JWKSCache Key} {a : Answer Material}
  {c : ℕ} {token : Token} {beganAt : ℚ} {kid : Kid}

/-- Every key of a key set comes from one of its entries. -/
theorem mem_keysBeforeRejected {name : String} {key : Key}
    (h : (keysBeforeRejected jose entries).get? name = some key) :
    ∃ entry ∈ entries, entry.name = some name ∧ jose.construct entry = some key := by
  have hMem := Dict.of_mem_ofList (Dict.get?_eq_some.mp h)
  obtain ⟨entry, hEntry, hKey⟩ := List.mem_filterMap.mp hMem
  obtain ⟨name', hName, hMade⟩ := Option.bind_eq_some_iff.mp hKey
  obtain ⟨made, hConstruct, hPair⟩ := Option.map_eq_some_iff.mp hMade
  cases hPair
  exact ⟨entry, (List.takeWhile_subset _) hEntry, hName, hConstruct⟩

/-- A complete refresh installs every named entry. -/
theorem absent_of_get? {name : String} (hAccepted : ∀ entry ∈ entries, accepted jose entry = true)
    (h : (keysBeforeRejected jose entries).get? name = none) :
    ∀ entry ∈ entries, entry.name ≠ some name := by
  intro entry hEntry hName
  have hAccept := hAccepted entry hEntry
  rw [accepted_named hName] at hAccept
  obtain ⟨key, hMade⟩ := Option.isSome_iff_exists.mp hAccept
  have hNamed : (name, key) ∈ entries.filterMap (namedKey jose) :=
    List.mem_filterMap.mpr ⟨entry, hEntry, by simp [namedKey, hName, hMade]⟩
  have hKey : name ∈ (keySet jose entries).keys :=
    Dict.mem_keys_ofList.mpr (List.mem_map_of_mem hNamed)
  obtain ⟨⟨name', found⟩, hItem, hSame⟩ := List.mem_map.mp hKey
  obtain rfl : name' = name := hSame
  rw [keysBeforeRejected, List.takeWhile_eq_self_iff.mpr hAccepted, Dict.get?_eq_some.mpr hItem] at h
  cases h

/-- A refresh installs the keys of its answer, or nothing. -/
theorem refresh_keys (hDocument : a.document = some entries) (clock : ℚ) :
    (cache.refresh jose ⟨a.document, clock⟩).1.keys = keysBeforeRejected jose entries := by
  rcases accepted_or_rejected jose entries with hAccepted | hRejected
  · rw [refresh_whole hDocument hAccepted, keysBeforeRejected,
      List.takeWhile_eq_self_iff.mpr hAccepted]
  · rw [refresh_broken cache hDocument hRejected]

/-- A cache that counts as fresh for the call: the keys of an answer, or none since
the process is young. -/
inductive Sourced (settings : Settings) (delay : ℚ) (answers : List (Answer Material)) (beganAt : ℚ)
    (jose : Jose Token Material Key Claims) (keys : Dict String Key) : Prop where
  | young (empty : keys = Dict.empty) (early : beganAt ≤ settings.jwksCacheTtlSeconds)
  | answer {a : Answer Material} {entries : List (KeyData Material)} (given : a ∈ answers)
      (counts : a.Counts settings delay beganAt) (document : a.document = some entries)
      (keys : keys = keysBeforeRejected jose entries)

/-- What is known of a call, by where it waits. -/
def Justified (jose : Jose Token Material Key Claims) (settings : Settings) (delay : ℚ)
    (answers : List (Answer Material)) (clock : ℚ) (c : ℕ) (token : Token) (beganAt : ℚ) :
    Pc Material Claims → Prop
  | .fetching (.stale kid) => jose.getUnverifiedHeader token = .ok kid ∧ beganAt ≤ clock
  | .fetching (.unknown kid) => jose.getUnverifiedHeader token = .ok (.key kid) ∧ beganAt ≤ clock
  | .answered (.stale kid) a => jose.getUnverifiedHeader token = .ok kid ∧ a ∈ answers ∧
      a.caller = c ∧ beganAt ≤ a.time
  | .answered (.unknown kid) a => jose.getUnverifiedHeader token = .ok (.key kid) ∧ a ∈ answers ∧
      a.caller = c ∧ beganAt ≤ a.time
  | .ended result => Explained jose settings delay answers c token beganAt result

theorem Sourced.offers (h : Sourced settings delay answers beganAt jose cache.keys)
    (header : jose.getUnverifiedHeader token = .ok kid) {name : String} {key : Key}
    (hKey : cache.keys.get? name = some key) (hName : ∀ k, kid = .key k → name = k) :
    Explained jose settings delay answers c token beganAt (decoded jose settings token key) := by
  cases h with
  | young empty early =>
      rw [empty] at hKey
      cases hKey
  | answer given counts document keys =>
      rw [keys] at hKey
      obtain ⟨entry, hEntry, hEntryName, hMade⟩ := mem_keysBeforeRejected hKey
      exact .decoded header given counts ⟨_, document, entry, hEntry, name, hEntryName, hName, hMade⟩

/-- A lookup in such a cache. -/
theorem justified_lookup {clock : ℚ} (h : Sourced settings delay answers beganAt jose cache.keys)
    (header : jose.getUnverifiedHeader token = .ok kid) (hBegan : beganAt ≤ clock) :
    Justified jose settings delay answers clock c token beganAt (lookup jose settings cache token kid) := by
  unfold lookup
  cases hItems : cache.keys.items with
  | nil =>
      cases h with
      | young empty early => exact .young ⟨kid, header⟩ early
      | answer given counts document keys =>
          rw [keys] at hItems
          exact .noKeys ⟨kid, header⟩ given counts document hItems
  | cons item rest =>
      cases kid with
      | absent =>
          have hKey : cache.keys.get? item.1 = some item.2 := by
            rw [Dict.get?_eq_some, hItems]
            exact List.mem_cons_self
          exact h.offers header hKey fun k hk => by cases hk
      | unhashable =>
          cases h with
          | young empty early =>
              rw [empty] at hItems
              cases hItems
          | answer given counts document keys =>
              refine .unhashable header given counts document ?_
              rw [← keys, hItems]
              exact List.cons_ne_nil _ _
      | key kid =>
          cases hKey : cache.keys.get? kid with
          | some key =>
              simp only [hKey]
              exact h.offers header hKey fun k hk => Kid.key.inj hk
          | none =>
              simp only [hKey]
              exact ⟨header, hBegan⟩

/-- After the forced refresh the answer to it decides. -/
theorem justified_lookupAgain {clock : ℚ} {kid : String}
    (header : jose.getUnverifiedHeader token = .ok (.key kid)) (given : a ∈ answers)
    (own : a.caller = c) (later : beganAt ≤ a.time) (document : a.document = some entries)
    (hAccepted : ∀ entry ∈ entries, accepted jose entry = true)
    (keys : cache.keys = keysBeforeRejected jose entries) :
    Justified jose settings delay answers clock c token beganAt
      (lookupAgain jose settings cache token kid) := by
  have hSourced : Sourced settings delay answers beganAt jose cache.keys :=
    .answer given (Or.inl later) document keys
  unfold lookupAgain
  cases hKey : cache.keys.get? kid with
  | some key =>
      simp only
      exact hSourced.offers header hKey fun k hk => Kid.key.inj hk
  | none =>
      simp only
      rw [keys] at hKey
      exact .unknownKey header given own later document (absent_of_get? hAccepted hKey)

/-- A call goes on with the answer that it has waited for. -/
theorem justified_afterRefresh {clock : ℚ} {purpose : Purpose}
    (h : Justified jose settings delay answers clock c token beganAt (.answered purpose a))
    (hPast : a.time ≤ clock) :
    Justified jose settings delay answers clock c token beganAt
      (afterRefresh jose settings (cache.refresh jose ⟨a.document, clock⟩) token purpose) := by
  have hGiven : a ∈ answers ∧ a.caller = c ∧ beganAt ≤ a.time := by
    cases purpose with
    | stale kid | unknown kid => exact h.2
  obtain ⟨given, own, later⟩ := hGiven
  unfold afterRefresh
  split_ifs with hEnds
  · obtain ⟨entries, document, hAccepted⟩ : ∃ entries, a.document = some entries ∧
        ∀ entry ∈ entries, accepted jose entry = true := by
      by_contra hNone
      have hRaises : (cache.refresh jose ⟨a.document, clock⟩).2 = false :=
        refresh_raises_iff.mpr fun entries hDocument => by
          refine (accepted_or_rejected jose entries).resolve_left fun hAccepted => ?_
          exact hNone ⟨entries, hDocument, hAccepted⟩
      rw [hRaises] at hEnds
      cases hEnds
    have keys : (cache.refresh jose ⟨a.document, clock⟩).1.keys = keysBeforeRejected jose entries :=
      refresh_keys document clock
    cases purpose with
    | stale kid =>
        exact justified_lookup (.answer given (Or.inl later) document keys) h.1 (later.trans hPast)
    | unknown kid => exact justified_lookupAgain h.1 given own later document hAccepted keys
  · have hRaises : (cache.refresh jose ⟨a.document, clock⟩).2 = false := Bool.eq_false_iff.mpr hEnds
    exact .escaped given own later (refresh_raises_iff.mp hRaises)

end Sources

section Runs

variable {Token Material Key Claims : Type*} {jose : Jose Token Material Key Claims}
  {settings : Settings} {delay : ℚ} {answers : List (Answer Material)}

/-- The cache has the keys of one answer, which it is not older than. -/
def Held (jose : Jose Token Material Key Claims) (delay : ℚ) (answers : List (Answer Material))
    (cache : JWKSCache Key) : Prop :=
  cache = ⟨Dict.empty, 0⟩ ∨ ∃ a ∈ answers, ∃ entries, a.document = some entries ∧
    cache.keys = keysBeforeRejected jose entries ∧ cache.fetchedAt ≤ a.time + delay

structure Inv (jose : Jose Token Material Key Claims) (settings : Settings) (delay : ℚ)
    (p : State Token Material Key Claims × List (Answer Material)) : Prop where
  past : ∀ a ∈ p.2, a.time ≤ p.1.clock
  fetched : p.1.cache.fetchedAt ≤ p.1.clock
  held : Held jose delay p.2 p.1.cache
  calls : ∀ c token beganAt pc, p.1.calls c = some ⟨token, beganAt, pc⟩ →
    Justified jose settings delay p.2 p.1.clock c token beganAt pc

theorem Explained.more {c : ℕ} {token : Token} {beganAt : ℚ} {result : Except Failure Claims}
    {answers' : List (Answer Material)} (h : Explained jose settings delay answers c token beganAt result)
    (hMore : answers ⊆ answers') : Explained jose settings delay answers' c token beganAt result := by
  cases h with
  | malformed header => exact .malformed header
  | decoded header given counts offers => exact .decoded header (hMore given) counts offers
  | young header early => exact .young header early
  | noKeys header given counts document empty => exact .noKeys header (hMore given) counts document empty
  | unknownKey header given own later document absent =>
      exact .unknownKey header (hMore given) own later document absent
  | unhashable header given counts document some =>
      exact .unhashable header (hMore given) counts document some
  | escaped given own later broken => exact .escaped (hMore given) own later broken

theorem Justified.more {c : ℕ} {token : Token} {beganAt clock clock' : ℚ} {pc : Pc Material Claims}
    {answers' : List (Answer Material)} (h : Justified jose settings delay answers clock c token beganAt pc)
    (hMore : answers ⊆ answers') (hLater : clock ≤ clock') :
    Justified jose settings delay answers' clock' c token beganAt pc := by
  cases pc with
  | fetching purpose =>
      cases purpose with
      | stale kid | unknown kid => exact ⟨h.1, h.2.trans hLater⟩
  | answered purpose a =>
      cases purpose with
      | stale kid | unknown kid => exact ⟨h.1, hMore h.2.1, h.2.2⟩
  | ended result => exact Explained.more h hMore

theorem Held.more {answers' : List (Answer Material)} {cache : JWKSCache Key}
    (h : Held jose delay answers cache) (hMore : answers ⊆ answers') : Held jose delay answers' cache := by
  rcases h with hNew | ⟨a, given, hRest⟩
  · exact Or.inl hNew
  · exact Or.inr ⟨a, hMore given, hRest⟩

/-- The call `c` is given its new place, and the others keep theirs. -/
theorem justified_set {s : State Token Material Key Claims} {clock : ℚ} {c : ℕ} {token : Token}
    {beganAt : ℚ} {pc : Pc Material Claims}
    (hOthers : ∀ c token beganAt pc, s.calls c = some ⟨token, beganAt, pc⟩ →
      Justified jose settings delay answers clock c token beganAt pc)
    (hCall : Justified jose settings delay answers clock c token beganAt pc) :
    ∀ c' token' beganAt' pc', (s.set c ⟨token, beganAt, pc⟩).calls c' = some ⟨token', beganAt', pc'⟩ →
      Justified jose settings delay answers clock c' token' beganAt' pc' := by
  intro c' token' beganAt' pc' h
  have hSet : (s.set c ⟨token, beganAt, pc⟩).calls =
      Function.update s.calls c (some ⟨token, beganAt, pc⟩) := rfl
  by_cases hc : c' = c
  · subst hc
    rw [hSet, Function.update_self] at h
    cases h
    exact hCall
  · rw [hSet, Function.update_of_ne hc] at h
    exact hOthers c' token' beganAt' pc' h

/-- A cache that is not stale for a call that begins now. -/
theorem Held.sourced {cache : JWKSCache Key} {clock : ℚ} (h : Held jose delay answers cache)
    (hFresh : ¬cache.isStale settings clock = true) :
    Sourced settings delay answers clock jose cache.keys := by
  rw [isStale_iff, not_lt] at hFresh
  rcases h with rfl | ⟨a, given, entries, document, keys, hFetched⟩
  · exact .young rfl (by simpa using hFresh)
  · exact .answer given (Or.inr (by linarith)) document keys

theorem justified_begin {s : State Token Material Key Claims} (h : Held jose delay answers s.cache)
    (c : ℕ)
    (token : Token) :
    Justified jose settings delay answers s.clock c token s.clock (begin jose settings s token) := by
  unfold begin
  cases header : jose.getUnverifiedHeader token with
  | error reason => exact .malformed header
  | ok kid =>
      simp only
      split_ifs with hStale
      · exact ⟨header, le_rfl⟩
      · exact justified_lookup (h.sourced hStale) header le_rfl

/-- What a refresh makes of the cache. -/
theorem held_refresh {cache : JWKSCache Key} {clock : ℚ} {a : Answer Material}
    (h : Held jose delay answers cache) (given : a ∈ answers) (hFetched : cache.fetchedAt ≤ clock)
    (hPrompt : clock ≤ a.time + delay) :
    Held jose delay answers (cache.refresh jose ⟨a.document, clock⟩).1 ∧
      (cache.refresh jose ⟨a.document, clock⟩).1.fetchedAt ≤ clock := by
  cases hDocument : a.document with
  | none =>
      rw [refresh_unanswered rfl]
      exact ⟨h, hFetched⟩
  | some entries =>
      have hKeys : (cache.refresh jose ⟨a.document, clock⟩).1.keys = keysBeforeRejected jose entries :=
        refresh_keys hDocument clock
      have hTime : (cache.refresh jose ⟨some entries, clock⟩).1.fetchedAt ≤ clock := by
        rcases accepted_or_rejected jose entries with hAccepted | hRejected
        · rw [refresh_whole rfl hAccepted]
        · rw [refresh_broken cache rfl hRejected]
          exact hFetched
      rw [hDocument] at hKeys
      exact ⟨Or.inr ⟨a, given, entries, hDocument, hKeys, hTime.trans hPrompt⟩, hTime⟩

theorem Inv.step {s t : State Token Material Key Claims} {e : Event Token Material}
    (h : Inv jose settings delay (s, answers)) (hPrompt : Prompt delay s e)
    (next : KeyRotation.step jose settings s e = some t) :
    Inv jose settings delay (t, record s e answers) := by
  obtain ⟨hPast, hFetched, hHeld, hCalls⟩ := h
  cases e with
  | elapse dt =>
      simp only [KeyRotation.step] at next
      split_ifs at next with hNonneg
      cases next
      have hLater : s.clock ≤ s.clock + dt := by linarith
      exact ⟨fun a ha => (hPast a ha).trans hLater, hFetched.trans hLater, hHeld,
        fun c token beganAt pc hc => (hCalls c token beganAt pc hc).more (List.Subset.refl _) hLater⟩
  | call c token =>
      simp only [KeyRotation.step] at next
      split at next <;> cases next
      exact ⟨hPast, hFetched, hHeld, justified_set hCalls (justified_begin hHeld c token)⟩
  | answer c document =>
      simp only [KeyRotation.step] at next
      split at next
      next token beganAt purpose hCall =>
        cases next
        let a : Answer Material := ⟨c, s.clock, document⟩
        have hMore : answers ⊆ a :: answers := List.subset_cons_self _ _
        have hWaits := hCalls c token beganAt _ hCall
        refine ⟨?_, hFetched, hHeld.more hMore, justified_set (fun c' token' beganAt' pc' hc' =>
          (hCalls c' token' beganAt' pc' hc').more hMore le_rfl) ?_⟩
        · intro b hb
          rcases List.mem_cons.mp hb with rfl | hb
          · exact le_rfl
          · exact hPast b hb
        · cases purpose with
          | stale kid | unknown kid => exact ⟨hWaits.1, List.mem_cons_self, rfl, hWaits.2⟩
      next => cases next
  | resume c =>
      simp only [KeyRotation.step] at next
      split at next
      next token beganAt purpose a hCall =>
        cases next
        have hWaits := hCalls c token beganAt _ hCall
        have given : a ∈ answers := by
          cases purpose with
          | stale kid | unknown kid => exact hWaits.2.1
        simp only [Prompt, hCall] at hPrompt
        obtain ⟨hHeld', hFetched'⟩ := held_refresh hHeld given hFetched hPrompt
        exact ⟨hPast, hFetched', hHeld', justified_set hCalls
          (justified_afterRefresh hWaits (hPast a given))⟩
      next => cases next

theorem inv_run {p : State Token Material Key Claims × List (Answer Material)}
    (run : (recorded jose settings).Reaches (fun p e => Prompt delay p.1 e) p) :
    Inv jose settings delay p := by
  refine System.Reaches.invariant_history ?_
    (fun s answers t e h hPrompt next => h.step hPrompt next) run
  rintro s ⟨hClock, hCache, hNone⟩
  refine ⟨fun a ha => ?_, ?_, Or.inl hCache, fun c token beganAt pc hc => ?_⟩
  · cases ha
  · rw [hCache]
    exact hClock
  · rw [hNone c] at hc
    cases hc

end Runs

section Withdrawal

variable {Token Material Key Claims : Type*} {jose : Jose Token Material Key Claims}
  {settings : Settings} {delay since : ℚ} {good : KeyData Material → Prop}

/-- From `since` on the endpoint serves good entries only. -/
def ServesGood (good : KeyData Material → Prop) (since : ℚ) (s : State Token Material Key Claims) :
    Event Token Material → Prop
  | .answer _ (some entries) => since ≤ s.clock → ∀ entry ∈ entries, good entry
  | _ => True

instance [DecidablePred good] (s : State Token Material Key Claims) (e : Event Token Material) :
    Decidable (ServesGood good since s e) := by
  unfold ServesGood
  split <;> infer_instance

theorem answers_good {allowed : State Token Material Key Claims × List (Answer Material) →
      Event Token Material → Prop} (hGood : ∀ p e, allowed p e → ServesGood good since p.1 e)
    {p : State Token Material Key Claims × List (Answer Material)}
    (run : (recorded jose settings).Reaches allowed p) :
    ∀ a ∈ p.2, since ≤ a.time → ∀ entries, a.document = some entries → ∀ entry ∈ entries, good entry := by
  induction run with
  | init start =>
      intro a ha
      rw [start.2] at ha
      cases ha
  | @step p q e _ hAllowed next ih =>
      obtain ⟨-, hRecord⟩ := System.withHistory_step next
      rw [hRecord]
      have hServes := hGood p e hAllowed
      cases e with
      | answer c document =>
          intro a ha hSince entries hDocument
          rcases List.mem_cons.mp ha with rfl | ha
          · obtain rfl : document = some entries := hDocument
            exact hServes hSince
          · exact ih a ha hSince entries hDocument
      | _ => exact ih

theorem of_decoded_ok {token : Token} {key : Key} {claims : Claims}
    (h : decoded jose settings token key = .ok claims) :
    jose.decode token key settings.jwtAlgorithms (decodeOptions settings) none none = .ok claims := by
  unfold decoded at h
  split at h
  next hDecode =>
    cases h
    exact hDecode
  all_goals cases h

/-- A withdrawn key dies out: once the endpoint has served good entries for longer than
the cache may be kept and an answer may take, a token that comes is accepted under the
key of a good entry only, whichever refreshes overlap and whatever they end with. -/
theorem withdrawn_key_refused {p : State Token Material Key Claims × List (Answer Material)}
    (run : (recorded jose settings).Reaches
      (fun p e => Prompt delay p.1 e ∧ ServesGood good since p.1 e) p) {c : ℕ} {token : Token}
    {beganAt : ℚ} {claims : Claims}
    (hAccepted : p.1.calls c = some ⟨token, beganAt, .ended (.ok claims)⟩) (hLate : since ≤ beganAt)
    (hStale : since + delay + settings.jwksCacheTtlSeconds ≤ beganAt) :
    ∃ kid entry key, jose.getUnverifiedHeader token = .ok kid ∧ good entry ∧
      (∀ k, kid = .key k → entry.name = some k) ∧ jose.construct entry = some key ∧
      jose.decode token key settings.jwtAlgorithms (decodeOptions settings) none none = .ok claims := by
  have h := (inv_run (run.mono fun _ _ hAllowed => hAllowed.1)).calls c token beganAt _ hAccepted
  have hAnswers := answers_good (fun _ _ hAllowed => And.right hAllowed) run
  change Explained jose settings delay p.2 c token beganAt (.ok claims) at h
  generalize hResult : (Except.ok claims : Except Failure Claims) = result at h
  cases h with
  | @decoded kid key a header given counts offers =>
      obtain ⟨entries, hDocument, entry, hEntry, name, hName, hKid, hMade⟩ := offers
      have hSince : since ≤ a.time := by
        rcases counts with hAfter | hShortly
        · exact hLate.trans hAfter
        · linarith
      refine ⟨kid, entry, key, header, hAnswers a given hSince entries hDocument entry hEntry, ?_, hMade,
        of_decoded_ok hResult.symm⟩
      intro k hk
      rw [hName, hKid k hk]
  | _ => cases hResult

/-- A library whose tokens name a `kid` and carry the number of the key that signed them. -/
def numberedJose : Jose (String × ℕ) ℕ ℕ ℕ where
  construct entry := some entry.material
  getUnverifiedHeader token := .ok (.key token.1)
  decode token key _ _ _ _ := if token.2 = key then .ok key else .error (.other "Signature")
  iss _ := none
  aud _ := []

/-- Key 1 is withdrawn at time 1000, while a forced refresh is on the way. -/
def rotation : List (Event (String × ℕ) ℕ) :=
  [.call 0 ("k", 1), .answer 0 (some [⟨some "k", 1⟩]), .resume 0, .elapse 100, .call 1 ("l", 2),
    .answer 1 (some [⟨some "k", 2⟩, ⟨some "l", 2⟩]), .elapse 5, .resume 1, .elapse 300,
    .call 2 ("k", 2)]

def rotationStart : State (String × ℕ) ℕ ℕ ℕ × List (Answer ℕ) :=
  (⟨900, ⟨Dict.empty, 0⟩, fun _ => none⟩, [])

/-- A call that began then has accepted its token. -/
def accepts (c : ℕ) (token : String × ℕ) (beganAt : ℚ) (claims : ℕ)
    (p : State (String × ℕ) ℕ ℕ ℕ × List (Answer ℕ)) : Bool :=
  match p.1.calls c with
  | some ⟨token', beganAt', .ended (.ok claims')⟩ =>
      decide (token' = token ∧ beganAt' = beganAt ∧ claims' = claims)
  | _ => false

theorem of_accepts {c : ℕ} {token : String × ℕ} {beganAt : ℚ} {claims : ℕ}
    {p : State (String × ℕ) ℕ ℕ ℕ × List (Answer ℕ)} (h : accepts c token beganAt claims p = true) :
    p.1.calls c = some ⟨token, beganAt, .ended (.ok claims)⟩ := by
  unfold accepts at h
  split at h
  next token' beganAt' claims' hCall =>
    obtain ⟨rfl, rfl, rfl⟩ := of_decide_eq_true h
    exact hCall
  next => cases h

theorem rotation_run : ∃ p, (recorded numberedJose {}).Reaches (fun p e => Prompt 5 p.1 e ∧
      ServesGood (fun entry : KeyData ℕ => entry.material ≠ 1) 1000 p.1 e) p ∧
    (accepts 0 ("k", 1) 900 1 p && accepts 2 ("k", 2) 1305 2 p) = true := by
  have start : (recorded numberedJose {}).Reaches (fun p e => Prompt 5 p.1 e ∧
      ServesGood (fun entry : KeyData ℕ => entry.material ≠ 1) 1000 p.1 e) rotationStart :=
    .init ⟨⟨by decide +kernel, rfl, fun _ => rfl⟩, rfl⟩
  have hExec : ((recorded numberedJose {}).exec (fun p e => Prompt 5 p.1 e ∧
      ServesGood (fun entry : KeyData ℕ => entry.material ≠ 1) 1000 p.1 e) rotationStart rotation).any
        (fun p => accepts 0 ("k", 1) 900 1 p && accepts 2 ("k", 2) 1305 2 p) = true := by
    decide +kernel
  exact start.exec_any hExec

theorem withdrawn_key_refused_rotated : ∃ (entry : KeyData ℕ) (key : ℕ), entry.material ≠ 1 ∧
    entry.name = some "k" ∧ numberedJose.construct entry = some key ∧
    numberedJose.decode ("k", 2) key ["RS256"] (decodeOptions {}) none none = .ok 2 := by
  obtain ⟨p, run, hEnds⟩ := rotation_run
  have hAccepted := of_accepts (Bool.and_eq_true_iff.mp hEnds).2
  obtain ⟨kid, entry, key, header, hGood, hName, hMade, hDecode⟩ :=
    withdrawn_key_refused run hAccepted (by norm_num) (by norm_num)
  cases header
  exact ⟨entry, key, hGood, hName "k" rfl, hMade, hDecode⟩

end Withdrawal

section Alone

variable {Token Material Key Claims : Type*} {jose : Jose Token Material Key Claims}
  {settings : Settings} {s : State Token Material Key Claims} {c : ℕ} {token : Token} {beganAt : ℚ}

/-- The events of a call that nothing else happens next to. -/
def Event.isOf (c : ℕ) : Event Token Material → Prop
  | .elapse _ => True
  | .call c' _ | .answer c' _ | .resume c' => c' = c

/-- One round to the endpoint. -/
theorem fetch_round {t : State Token Material Key Claims} {purpose : Purpose} (fetch : Fetch Material)
    (run : ((machine jose settings).startingAt s).Reaches (fun _ e => e.isOf c) t)
    (hCall : t.calls c = some ⟨token, beganAt, .fetching purpose⟩) (hLater : t.clock ≤ fetch.clock) :
    ∃ u, ((machine jose settings).startingAt s).Reaches (fun _ e => e.isOf c) u ∧
      u.clock = fetch.clock ∧ u.cache = (t.cache.refresh jose fetch).1 ∧
      u.calls c = some ⟨token, beganAt,
        afterRefresh jose settings (t.cache.refresh jose fetch) token purpose⟩ := by
  let waited : State Token Material Key Claims := { t with clock := fetch.clock }
  let a : Answer Material := ⟨c, fetch.clock, fetch.document⟩
  let given := waited.set c ⟨token, beganAt, .answered purpose a⟩
  let resumed := { given with cache := (t.cache.refresh jose fetch).1 }.set c ⟨token, beganAt,
    afterRefresh jose settings (t.cache.refresh jose fetch) token purpose⟩
  have hGiven : given.calls c = some ⟨token, beganAt, .answered purpose a⟩ := Function.update_self ..
  have hElapse : step jose settings t (.elapse (fetch.clock - t.clock)) = some waited := by
    simp [step, waited, sub_nonneg.mpr hLater]
  have hAnswer : step jose settings waited (.answer c fetch.document) = some given := by
    simp only [step, waited, hCall, given, a]
  have hResume : step jose settings given (.resume c) = some resumed := by
    simp only [step, hGiven]
    rfl
  have hWaited : ((machine jose settings).startingAt s).Reaches (fun _ e => e.isOf c) waited :=
    .step (e := .elapse (fetch.clock - t.clock)) run (by trivial) hElapse
  have hAnswered : ((machine jose settings).startingAt s).Reaches (fun _ e => e.isOf c) given :=
    .step (e := .answer c fetch.document) hWaited (by rfl) hAnswer
  have hRound : ((machine jose settings).startingAt s).Reaches (fun _ e => e.isOf c) resumed :=
    .step (e := .resume c) hAnswered (by rfl) hResume
  exact ⟨resumed, hRound, rfl, rfl, Function.update_self ..⟩

/-- `verify_token` without awaits, by the end of it. -/
theorem verifyToken_eq {cache : JWKSCache Key} {clock : ℚ} {first retry : Fetch Material}
    {kid : Kid} (header : jose.getUnverifiedHeader token = .ok kid) :
    verifyToken jose settings cache clock first retry token =
      ((getSigningKey jose settings cache clock first retry kid).1,
        (getSigningKey jose settings cache clock first retry kid).2.bind
          (decoded jose settings token)) := by
  unfold verifyToken
  rw [header]
  simp only
  cases getSigningKey jose settings cache clock first retry kid with
  | mk cache' result =>
      cases result with
      | error failure => rfl
      | ok key =>
          simp only [Except.bind, decoded]
          cases jose.decode token key settings.jwtAlgorithms (decodeOptions settings) none none with
          | ok claims => rfl
          | error e => cases e <;> rfl

/-- After the first refresh a call that is alone ends as `select` has it. -/
theorem select_alone {t : State Token Material Key Claims} {kid : Kid} {retry : Fetch Material}
    (run : ((machine jose settings).startingAt s).Reaches (fun _ e => e.isOf c) t)
    (hCall : t.calls c = some ⟨token, beganAt, lookup jose settings t.cache token kid⟩)
    (hLater : t.clock ≤ retry.clock) :
    ∃ u, ((machine jose settings).startingAt s).Reaches (fun _ e => e.isOf c) u ∧
      u.cache = (t.cache.select jose retry kid).1 ∧ u.calls c = some ⟨token, beganAt,
        .ended ((t.cache.select jose retry kid).2.bind (decoded jose settings token))⟩ := by
  unfold lookup at hCall
  unfold JWKSCache.select
  cases hItems : t.cache.keys.items with
  | nil =>
      rw [hItems] at hCall
      exact ⟨t, run, rfl, hCall⟩
  | cons item rest =>
      rw [hItems] at hCall
      cases kid with
      | absent | unhashable => exact ⟨t, run, rfl, hCall⟩
      | key kid =>
          cases hKey : t.cache.keys.get? kid with
          | some key =>
              simp only [hKey] at hCall ⊢
              exact ⟨t, run, rfl, hCall⟩
          | none =>
              simp only [hKey] at hCall ⊢
              obtain ⟨u, hRun, -, hCache, hEnd⟩ := fetch_round retry run hCall hLater
              refine ⟨u, hRun, ?_⟩
              rw [hCache, hEnd, afterRefresh]
              cases hEnds : (t.cache.refresh jose retry).2 with
              | false => exact ⟨rfl, rfl⟩
              | true =>
                  simp only [if_true, proceed, lookupAgain]
                  cases hAgain : (t.cache.refresh jose retry).1.keys.get? kid with
                  | some key => simp [Except.bind]
                  | none => simp [Except.bind]

/-- Without other calls in between, a call does what the function `verifyToken` says. -/
theorem verify_alone (hFree : s.calls c = none) (token : Token) {first retry : Fetch Material}
    (hFirst : s.clock ≤ first.clock) (hRetry : first.clock ≤ retry.clock) :
    ∃ t, ((machine jose settings).startingAt s).Reaches (fun _ e => e.isOf c) t ∧
      t.cache = (verifyToken jose settings s.cache s.clock first retry token).1 ∧
      t.calls c = some ⟨token, s.clock,
        .ended (verifyToken jose settings s.cache s.clock first retry token).2⟩ := by
  let called := s.set c ⟨token, s.clock, begin jose settings s token⟩
  have hCalled : called.calls c = some ⟨token, s.clock, begin jose settings s token⟩ :=
    Function.update_self ..
  have hStep : step jose settings s (.call c token) = some called := by
    simp only [step, hFree, called]
  have hRun : ((machine jose settings).startingAt s).Reaches (fun _ e => e.isOf c) called :=
    .step (e := .call c token) (.init rfl) (by rfl) hStep
  cases header : jose.getUnverifiedHeader token with
  | error reason =>
      rw [begin, header] at hCalled
      refine ⟨called, hRun, ?_⟩
      rw [hCalled, verifyToken, header]
      exact ⟨rfl, rfl⟩
  | ok kid =>
      rw [verifyToken_eq header, getSigningKey]
      rw [begin, header] at hCalled
      simp only at hCalled
      split_ifs at hCalled with hStale
      · obtain ⟨t, hRound, hClock, hCache, hEnd⟩ := fetch_round first hRun hCalled hFirst
        have hRefreshed : called.cache.refresh jose first = s.cache.refresh jose first := rfl
        rw [hRefreshed] at hCache hEnd
        unfold afterRefresh at hEnd
        simp only [if_pos hStale]
        split_ifs at hEnd ⊢ with hEnds
        · rw [← hCache] at hEnd ⊢
          exact select_alone hRound hEnd (hClock.trans_le hRetry)
        · exact ⟨t, hRound, hCache, hEnd⟩
      · rw [if_neg hStale]
        have hLookup : called.calls c = some ⟨token, s.clock,
            lookup jose settings called.cache token kid⟩ := hCalled
        have hEnd := select_alone hRun hLookup (hFirst.trans hRetry)
        exact hEnd

end Alone

end Gateway.Auth.KeyRotation
