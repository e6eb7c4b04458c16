import Gateway.Auth.CurrentUser
import Gateway.Semantics.Transition
import Mathlib.Data.List.TakeWhile
import Mathlib.Tactic.Linarith

/-! The cache of signing keys over runs of token checks. A refresh drops the old
keys before it knows that the new ones can be constructed, and a cache counts
as fresh by the time of its last complete refresh, which is 0 before the first. -/
namespace Gateway.Auth

open Transition

section Refresh

variable {Token Material Key Claims : Type*} (jose : Jose Token Material Key Claims)

/-- The `kid` that `update` installs an entry under. -/
def KeyData.name (entry : KeyData Material) : Option String := entry.kid.filter (· ≠ "")

/-- An entry that the loop of `update` gets past. -/
def accepted (entry : KeyData Material) : Bool :=
  entry.name.isNone || (jose.construct entry).isSome

def namedKey (entry : KeyData Material) : Option (String × Key) :=
  entry.name.bind fun kid => (jose.construct entry).map fun key => (kid, key)

/-- The keys of a list of entries; of two entries with one `kid` the last wins. -/
def keySet (entries : List (KeyData Material)) : Dict String Key :=
  Dict.ofList (entries.filterMap (namedKey jose))

/-- The keys of the entries before the first that the library rejects. -/
def keysBeforeRejected (entries : List (KeyData Material)) : Dict String Key :=
  keySet jose (entries.takeWhile (accepted jose))

variable {jose} {entries : List (KeyData Material)} {cache : JWKSCache Key} {fetch : Fetch Material}

theorem accepted_unnamed {entry : KeyData Material} (h : entry.name = none) :
    accepted jose entry = true := by
  rw [accepted, h]
  rfl

theorem accepted_named {entry : KeyData Material} {kid : String} (h : entry.name = some kid) :
    accepted jose entry = (jose.construct entry).isSome := by
  rw [accepted, h]
  rfl

theorem installKeys_keys {keys : Dict String Key} : (installKeys jose entries keys).1 =
    keys.update ((entries.takeWhile (accepted jose)).filterMap (namedKey jose)) := by
  induction entries generalizing keys with
  | nil => rfl
  | cons entry entries ih =>
      cases hName : entry.name with
      | none =>
          have hInstall : installKeys jose (entry :: entries) keys =
              installKeys jose entries keys := by
            rw [KeyData.name] at hName
            simp only [installKeys, hName]
          have hKey : namedKey jose entry = none := by simp [namedKey, hName]
          rw [List.takeWhile_cons_of_pos (accepted_unnamed hName), List.filterMap_cons_none hKey,
            hInstall, ih]
      | some kid =>
          cases hConstruct : jose.construct entry with
          | none =>
              have hInstall : installKeys jose (entry :: entries) keys = (keys, false) := by
                rw [KeyData.name] at hName
                simp only [installKeys, hName, hConstruct]
              have hRejected : ¬accepted jose entry = true := by
                simp [accepted_named hName, hConstruct]
              rw [List.takeWhile_cons_of_neg hRejected, hInstall]
              rfl
          | some key =>
              have hInstall : installKeys jose (entry :: entries) keys =
                  installKeys jose entries (keys.insert kid key) := by
                rw [KeyData.name] at hName
                simp only [installKeys, hName, hConstruct]
              have hAccepted : accepted jose entry = true := by
                simp [accepted_named hName, hConstruct]
              have hKey : namedKey jose entry = some (kid, key) := by
                simp [namedKey, hName, hConstruct]
              rw [List.takeWhile_cons_of_pos hAccepted, List.filterMap_cons_some hKey, hInstall, ih]
              rfl

theorem installKeys_accepted {keys : Dict String Key} :
    (installKeys jose entries keys).2 = true ↔ ∀ entry ∈ entries, accepted jose entry = true := by
  rw [installKeys_ends]
  refine forall₂_congr fun entry _ => ?_
  change (entry.name.isSome → (jose.construct entry).isSome) ↔ accepted jose entry = true
  cases hName : entry.name with
  | none => simp [accepted_unnamed hName]
  | some kid => simp [accepted_named hName]

theorem refresh_unanswered (h : fetch.document = none) :
    cache.refresh jose fetch = (cache, false) := by
  simp [JWKSCache.refresh, h]

/-- A key set without a rejected entry is installed as a whole. -/
theorem refresh_whole (h : fetch.document = some entries)
    (hAccepted : ∀ entry ∈ entries, accepted jose entry = true) :
    cache.refresh jose fetch = (⟨keySet jose entries, fetch.clock⟩, true) := by
  have hKeys : (installKeys jose entries Dict.empty).1 = keySet jose entries := by
    rw [installKeys_keys, List.takeWhile_eq_self_iff.mpr hAccepted]
    rfl
  simp only [JWKSCache.refresh, h, JWKSCache.update, installKeys_accepted.mpr hAccepted, hKeys,
    if_true]

variable (cache) in
/-- A rejected entry leaves the keys before it, and the time of the old keys. -/
theorem refresh_broken (h : fetch.document = some entries)
    (hRejected : ∃ entry ∈ entries, accepted jose entry = false) :
    cache.refresh jose fetch = (⟨keysBeforeRejected jose entries, cache.fetchedAt⟩, false) := by
  have hKeys : (installKeys jose entries Dict.empty).1 = keysBeforeRejected jose entries :=
    installKeys_keys
  have hRaises : ¬(installKeys jose entries Dict.empty).2 = true := by
    rw [installKeys_accepted]
    simpa using hRejected
  simp [JWKSCache.refresh, h, JWKSCache.update, hRaises, hKeys]

variable (jose) in
theorem accepted_or_rejected (entries : List (KeyData Material)) :
    (∀ entry ∈ entries, accepted jose entry = true) ∨
      ∃ entry ∈ entries, accepted jose entry = false := by
  by_cases h : ∀ entry ∈ entries, accepted jose entry = true
  · exact Or.inl h
  · exact Or.inr (by simpa using h)

theorem refresh_raises_iff : (cache.refresh jose fetch).2 = false ↔
    ∀ entries, fetch.document = some entries → ∃ entry ∈ entries, accepted jose entry = false := by
  cases h : fetch.document with
  | none => simp [refresh_unanswered h]
  | some entries =>
      rcases accepted_or_rejected jose entries with hAccepted | hRejected
      · simpa [refresh_whole h hAccepted] using hAccepted
      · simpa [refresh_broken _ h hRejected] using hRejected

end Refresh

section Call

variable {Token Material Key Claims : Type*} (jose : Jose Token Material Key Claims)
  (settings : Settings) (cache : JWKSCache Key) (clock : ℚ) (first retry : Fetch Material)
  (kid : Kid)

/-- The token names a key that is not among those of a cache that has some. -/
def Forces (held : JWKSCache Key) : Prop :=
  held.keys.items ≠ [] ∧ ∃ text, kid = .key text ∧ held.keys.get? text = none

/-- The refreshes of a call of `get_signing_key`, each with the cache it meets. -/
def Refreshes (met : JWKSCache Key) (fetch : Fetch Material) : Prop :=
  cache.isStale settings clock = true ∧ met = cache ∧ fetch = first ∨
    FirstEnds jose settings cache clock first ∧ met = heldCache jose settings cache clock first ∧
      Forces kid met ∧ fetch = retry

/-- The cache as the last refresh of the call that gets to its end leaves it. -/
def lastCompleted : JWKSCache Key :=
  if cache.isStale settings clock = true ∧ (cache.refresh jose first).2 = true then
    (cache.refresh jose first).1
  else cache

variable {jose settings cache clock first retry kid}

theorem lastCompleted_of_firstEnds (h : FirstEnds jose settings cache clock first) :
    lastCompleted jose settings cache clock first = heldCache jose settings cache clock first := by
  unfold lastCompleted heldCache
  by_cases hStale : cache.isStale settings clock = true
  · simp [hStale, h hStale]
  · simp [hStale]

variable (kid) in
/-- What the selection leaves: the cache as it is, or as the forced refresh leaves it. -/
theorem select_cache {held : JWKSCache Key} : (held.select jose retry kid).1 = held ∧
      ¬Forces kid held ∨
    (held.select jose retry kid).1 = (held.refresh jose retry).1 ∧ Forces kid held := by
  unfold JWKSCache.select Forces
  cases hItems : held.keys.items with
  | nil => simp
  | cons entry rest =>
      cases kid with
      | absent | unhashable => simp
      | key text =>
          cases hGet : held.keys.get? text with
          | some key => simp [hGet]
          | none =>
              cases hRefresh : (held.refresh jose retry).2 with
              | false => simp [hGet, hRefresh]
              | true =>
                  cases hAgain : (held.refresh jose retry).1.keys.get? text <;>
                    simp [hGet, hRefresh, hAgain]

theorem getSigningKey_eq_select (h : FirstEnds jose settings cache clock first) :
    getSigningKey jose settings cache clock first retry kid =
      (heldCache jose settings cache clock first).select jose retry kid := by
  unfold getSigningKey heldCache
  by_cases hStale : cache.isStale settings clock = true
  · simp [hStale, h hStale]
  · simp [hStale]

variable (retry kid) in
theorem getSigningKey_first (h : ¬FirstEnds jose settings cache clock first) :
    getSigningKey jose settings cache clock first retry kid =
        ((cache.refresh jose first).1, .error .escaped) ∧
      cache.isStale settings clock = true ∧ (cache.refresh jose first).2 = false := by
  obtain ⟨hStale, hRaises⟩ := Classical.not_imp.mp h
  rw [Bool.not_eq_true] at hRaises
  exact ⟨by simp [getSigningKey, hStale, hRaises], hStale, hRaises⟩

/-- A refresh of the call that raises ends the call, with what it leaves. -/
theorem raised_of_refresh {met : JWKSCache Key} {fetch : Fetch Material}
    (h : Refreshes jose settings cache clock first retry kid met fetch)
    (hRaises : (met.refresh jose fetch).2 = false) :
    getSigningKey jose settings cache clock first retry kid =
        ((met.refresh jose fetch).1, .error .escaped) ∧
      met = lastCompleted jose settings cache clock first := by
  rcases h with ⟨hStale, rfl, rfl⟩ | ⟨hFirst, rfl, hForces, rfl⟩
  · have hNot : ¬FirstEnds jose settings met clock fetch := by
      simp [FirstEnds, hStale, hRaises]
    refine ⟨(getSigningKey_first retry kid hNot).1, ?_⟩
    simp [lastCompleted, hRaises]
  · refine ⟨?_, (lastCompleted_of_firstEnds hFirst).symm⟩
    rw [getSigningKey_eq_select hFirst]
    apply Prod.ext
    · rcases select_cache kid with ⟨-, hNot⟩ | ⟨hCache, -⟩
      · exact absurd hForces hNot
      · exact hCache
    · obtain ⟨hItems, text, hKid, hGet⟩ := hForces
      exact (select_escapes jose).mpr ⟨hItems, Or.inr ⟨text, hKid, hGet, hRaises⟩⟩

/-- A call that raises has a refresh that raises, or a `kid` that cannot be looked up,
which leaves the keys as they are. -/
theorem refresh_of_raised
    (h : (getSigningKey jose settings cache clock first retry kid).2 = .error .escaped) :
    (∃ met fetch, Refreshes jose settings cache clock first retry kid met fetch ∧
      (met.refresh jose fetch).2 = false) ∨
    (getSigningKey jose settings cache clock first retry kid).1 =
      lastCompleted jose settings cache clock first := by
  by_cases hFirst : FirstEnds jose settings cache clock first
  · rw [getSigningKey_eq_select hFirst] at h ⊢
    obtain ⟨hItems, rfl | ⟨text, hKid, hGet, hRaises⟩⟩ := (select_escapes jose).mp h
    · refine Or.inr ?_
      rw [lastCompleted_of_firstEnds hFirst]
      refine ((select_cache _).resolve_right ?_).1
      rintro ⟨-, -, text, hKid, -⟩
      cases hKid
    · exact Or.inl ⟨_, retry, Or.inr ⟨hFirst, rfl, ⟨hItems, text, hKid, hGet⟩, rfl⟩, hRaises⟩
  · obtain ⟨-, hStale, hRaises⟩ :=
      getSigningKey_first retry kid hFirst
    exact Or.inl ⟨cache, first, Or.inl ⟨hStale, rfl, rfl⟩, hRaises⟩

variable (jose settings cache clock first retry kid)

/-- The same keys under the same names. -/
def SameKeys (keys keys' : Dict String Key) : Prop := ∀ kid, keys.get? kid = keys'.get? kid

/-- An exception leaves the keys of the last refresh that got to its end, and a
refresh that gets to its end installs the whole key set. -/
structure Undamaged : Prop where
  kept : (getSigningKey jose settings cache clock first retry kid).2 = .error .escaped →
    SameKeys (getSigningKey jose settings cache clock first retry kid).1.keys
      (lastCompleted jose settings cache clock first).keys
  whole : ∀ met fetch, Refreshes jose settings cache clock first retry kid met fetch →
    (met.refresh jose fetch).2 = true → ∃ entries, fetch.document = some entries ∧
      (∀ entry ∈ entries, accepted jose entry = true) ∧
        (met.refresh jose fetch).1.keys = keySet jose entries

/-- A refresh is harmless exactly if the entries before the first rejected one
happen to give the keys that are cached already. -/
theorem failed_refresh_keeps_keys :
    Undamaged jose settings cache clock first retry kid ↔
      ∀ met fetch, Refreshes jose settings cache clock first retry kid met fetch →
        ∀ entries, fetch.document = some entries →
          (∃ entry ∈ entries, accepted jose entry = false) →
            SameKeys (keysBeforeRejected jose entries) met.keys := by
  constructor
  · rintro ⟨hKept, -⟩ met fetch hRefresh entries hDocument hRejected
    have hBroken := refresh_broken met hDocument hRejected
    obtain ⟨hCall, hMet⟩ := raised_of_refresh hRefresh (by rw [hBroken])
    have hSame := hKept (by rw [hCall])
    rw [hCall, hBroken, ← hMet] at hSame
    exact hSame
  · intro hHarmless
    constructor
    · intro hRaised
      rcases refresh_of_raised hRaised with ⟨met, fetch, hRefresh, hRaises⟩ | hKept
      · obtain ⟨hCall, hMet⟩ := raised_of_refresh hRefresh hRaises
        rw [hCall, ← hMet]
        cases hDocument : fetch.document with
        | none =>
            rw [refresh_unanswered hDocument]
            exact fun _ => rfl
        | some entries =>
            have hRejected := refresh_raises_iff.mp hRaises entries hDocument
            rw [refresh_broken _ hDocument hRejected]
            exact hHarmless met fetch hRefresh entries hDocument hRejected
      · rw [hKept]
        exact fun _ => rfl
    · intro met fetch _ hEnds
      cases hDocument : fetch.document with
      | none =>
          rw [refresh_unanswered hDocument] at hEnds
          exact absurd hEnds Bool.false_ne_true
      | some entries =>
          rcases accepted_or_rejected jose entries with hAccepted | hRejected
          · exact ⟨entries, rfl, hAccepted, by rw [refresh_whole hDocument hAccepted]⟩
          · rw [refresh_broken _ hDocument hRejected] at hEnds
            exact absurd hEnds Bool.false_ne_true

end Call

/-- A library that knows no key of another material. -/
def pickyJose : Jose Unit Bool Unit Unit where
  construct entry := if entry.material then some () else none
  getUnverifiedHeader _ := .ok .absent
  decode _ _ _ _ _ _ := .error (.other "")
  iss _ := none
  aud _ := []

/-- A fresh cache with one key; a token names another, and the key set that the
forced refresh brings has an entry of a kind that the library does not know in
front of the known one. -/
theorem failed_refresh_drops_keys :
    (getSigningKey pickyJose {} sampleCache 0 ⟨none, 0⟩
        ⟨some [⟨some "key-2", false⟩, ⟨some "key-1", true⟩], 1⟩ (.key "key-2")).1.keys.items = [] ∧
      ¬Undamaged pickyJose {} sampleCache 0 ⟨none, 0⟩
        ⟨some [⟨some "key-2", false⟩, ⟨some "key-1", true⟩], 1⟩ (.key "key-2") := by
  have hCall : getSigningKey pickyJose {} sampleCache 0 ⟨none, 0⟩
      ⟨some [⟨some "key-2", false⟩, ⟨some "key-1", true⟩], 1⟩ (.key "key-2") =
        (⟨Dict.empty, 0⟩, .error .escaped) := by
    have hFresh : sampleCache.isStale {} 0 = false := by decide +kernel
    rw [getSigningKey, hFresh]
    rfl
  refine ⟨by rw [hCall]; rfl, ?_⟩
  rintro ⟨hKept, -⟩
  have hLast : lastCompleted pickyJose {} sampleCache 0 ⟨none, 0⟩ = sampleCache := by
    rw [lastCompleted, refresh_unanswered rfl]
    simp
  rw [hCall, hLast] at hKept
  exact absurd (hKept rfl "key-1") (by decide)

/-- The cache of a process and its clock. -/
structure CheckState (Key : Type*) where
  clock : ℚ
  cache : JWKSCache Key

/-- Time passes, or a token is checked: its `kid` and the answers to the fetches
that the check makes. -/
inductive CheckEvent (Material : Type*) where
  | tick (elapsed : ℚ)
  | check (kid : Kid) (first retry : Fetch Material)

section Runs

variable {Token Material Key Claims : Type*} (jose : Jose Token Material Key Claims)
  (settings : Settings)

/-- The process from its start, at any reading of the monotonic clock. -/
def checks : System (CheckState Key) (CheckEvent Material) where
  init s := 0 ≤ s.clock ∧ s.cache = ⟨Dict.empty, 0⟩
  step s
    | .tick elapsed => if 0 ≤ elapsed then some { s with clock := s.clock + elapsed } else none
    | .check kid first retry =>
        if s.clock ≤ first.clock ∧ first.clock ≤ retry.clock then
          some ⟨retry.clock, (getSigningKey jose settings s.cache s.clock first retry kid).1⟩
        else none

/-- A key that the library makes of an entry with this `kid`. -/
def KeyFor (kid : String) (key : Key) : Prop :=
  ∃ entry : KeyData Material, entry.kid = some kid ∧ jose.construct entry = some key

/-- The answer is a key set, every entry of which is a key, with a key of this `kid`. -/
def Serves (kid : String) (fetch : Fetch Material) : Prop :=
  ∃ entries, fetch.document = some entries ∧
    (∀ entry ∈ entries, (jose.construct entry).isSome) ∧ ∃ entry ∈ entries, entry.kid = some kid

/-- A key that the endpoint serves from now on is found. -/
def Found (s : CheckState Key) (kid : String) : Prop :=
  ∀ first retry : Fetch Material, s.clock ≤ first.clock → first.clock ≤ retry.clock →
    Serves jose kid first → Serves jose kid retry →
      ∃ key, (getSigningKey jose settings s.cache s.clock first retry (.key kid)).2 = .ok key ∧
        KeyFor jose kid key

/-- The refresh ends with an empty cache that counts as fresh: its entries have
no key before the first rejected one, and either none is rejected or the cache
was still fresh. -/
def Empties (met : JWKSCache Key) (fetch : Fetch Material) : Prop :=
  ∃ entries, fetch.document = some entries ∧ (keysBeforeRejected jose entries).items = [] ∧
    ((∀ entry ∈ entries, accepted jose entry = true) ∨
      met.isStale settings fetch.clock = false)

/-- No refresh of the check empties the cache. -/
def KeepsSome (s : CheckState Key) : CheckEvent Material → Prop
  | .tick _ => True
  | .check kid first retry => ∀ met fetch,
      Refreshes jose settings s.cache s.clock first retry kid met fetch →
        ¬Empties jose settings met fetch

end Runs

section Invariants

variable {Token Material Key Claims : Type*} {jose : Jose Token Material Key Claims}
  {settings : Settings} {cache : JWKSCache Key} {clock : ℚ} {first retry fetch : Fetch Material}
  {entries : List (KeyData Material)}

theorem isStale_iff : cache.isStale settings clock = true ↔
    settings.jwksCacheTtlSeconds < clock - cache.fetchedAt := decide_eq_true_iff

theorem isStale_mono {later : ℚ} (h : cache.isStale settings clock = true) (hLater : clock ≤ later) :
    cache.isStale settings later = true := by
  rw [isStale_iff] at h ⊢
  linarith

/-- The rule of a call: what each of its refreshes preserves, the call preserves. -/
theorem call_cache {P : JWKSCache Key → Prop} {kid : Kid} (hCache : P cache)
    (hRefresh : ∀ met fetch, Refreshes jose settings cache clock first retry kid met fetch →
      P met → P (met.refresh jose fetch).1) :
    P (getSigningKey jose settings cache clock first retry kid).1 := by
  by_cases hFirst : FirstEnds jose settings cache clock first
  · have hHeld : P (heldCache jose settings cache clock first) := by
      unfold heldCache
      split_ifs with hStale
      · exact hRefresh _ _ (Or.inl ⟨hStale, rfl, rfl⟩) hCache
      · exact hCache
    rw [getSigningKey_eq_select hFirst]
    rcases select_cache kid with ⟨hKept, -⟩ | ⟨hForced, hForces⟩
    · rw [hKept]
      exact hHeld
    · rw [hForced]
      exact hRefresh _ _ (Or.inr ⟨hFirst, rfl, hForces, rfl⟩) hHeld
  · obtain ⟨hCall, hStale, -⟩ := getSigningKey_first retry kid hFirst
    rw [hCall]
    exact hRefresh _ _ (Or.inl ⟨hStale, rfl, rfl⟩) hCache

theorem namedKey_eq_some {entry : KeyData Material} {kid : String} {key : Key} :
    namedKey jose entry = some (kid, key) ↔
      kid ≠ "" ∧ entry.kid = some kid ∧ jose.construct entry = some key := by
  rw [namedKey, Option.bind_eq_some_iff]
  constructor
  · rintro ⟨name, hName, hKey⟩
    obtain ⟨made, hMade, hPair⟩ := Option.map_eq_some_iff.mp hKey
    obtain ⟨rfl, rfl⟩ := Prod.mk.inj hPair
    obtain ⟨hKid, hNe⟩ := Option.filter_eq_some_iff.mp hName
    exact ⟨of_decide_eq_true hNe, hKid, hMade⟩
  · rintro ⟨hNe, hKid, hMade⟩
    exact ⟨kid, Option.filter_eq_some_iff.mpr ⟨hKid, decide_eq_true hNe⟩, by simp [hMade]⟩

/-- Every cached key is a key for the name it is cached under, which is not empty. -/
def Genuine (jose : Jose Token Material Key Claims) (cache : JWKSCache Key) : Prop :=
  ∀ kid key, cache.keys.get? kid = some key → kid ≠ "" ∧ KeyFor jose kid key

theorem genuine_keySet {kid : String} {key : Key}
    (h : (keySet jose entries).get? kid = some key) : kid ≠ "" ∧ KeyFor jose kid key := by
  have hMem := Dict.of_mem_ofList (Dict.get?_eq_some.mp h)
  obtain ⟨entry, -, hKey⟩ := List.mem_filterMap.mp hMem
  obtain ⟨hNe, hKid, hMade⟩ := namedKey_eq_some.mp hKey
  exact ⟨hNe, entry, hKid, hMade⟩

theorem genuine_refresh (h : Genuine jose cache) : Genuine jose (cache.refresh jose fetch).1 := by
  cases hDocument : fetch.document with
  | none =>
      rw [refresh_unanswered hDocument]
      exact h
  | some entries =>
      rcases accepted_or_rejected jose entries with hAccepted | hRejected
      · rw [refresh_whole hDocument hAccepted]
        exact fun kid key => genuine_keySet
      · rw [refresh_broken _ hDocument hRejected]
        exact fun kid key => genuine_keySet

variable (cache) in
/-- An answer that serves a key is installed with it. -/
theorem refresh_serves {kid : String} (hNe : kid ≠ "") (h : Serves jose kid fetch) :
    (cache.refresh jose fetch).2 = true ∧
      ∃ key, (cache.refresh jose fetch).1.keys.get? kid = some key := by
  obtain ⟨entries, hDocument, hKeys, entry, hMem, hKid⟩ := h
  have hAccepted : ∀ entry ∈ entries, accepted jose entry = true := by
    intro entry hMem
    simp [accepted, hKeys entry hMem]
  obtain ⟨key, hMade⟩ := Option.isSome_iff_exists.mp (hKeys entry hMem)
  have hNamed : (kid, key) ∈ entries.filterMap (namedKey jose) :=
    List.mem_filterMap.mpr ⟨entry, hMem, namedKey_eq_some.mpr ⟨hNe, hKid, hMade⟩⟩
  have hKey : kid ∈ (keySet jose entries).keys :=
    Dict.mem_keys_ofList.mpr (List.mem_map_of_mem hNamed)
  obtain ⟨⟨name, found⟩, hItem, rfl⟩ := List.mem_map.mp hKey
  rw [refresh_whole hDocument hAccepted]
  exact ⟨rfl, found, Dict.get?_eq_some.mpr hItem⟩

/-- A key that is returned for a name is cached under it. -/
theorem select_ok {held : JWKSCache Key} {kid : String} {key : Key}
    (h : (held.select jose retry (.key kid)).2 = .ok key) :
    (held.select jose retry (.key kid)).1.keys.get? kid = some key := by
  unfold JWKSCache.select at h ⊢
  cases hItems : held.keys.items with
  | nil => simp [hItems] at h
  | cons entry rest =>
      cases hGet : held.keys.get? kid with
      | some found => simpa [hItems, hGet] using h
      | none =>
          cases hRefresh : (held.refresh jose retry).2 with
          | false => simp [hItems, hGet, hRefresh] at h
          | true =>
              cases hAgain : (held.refresh jose retry).1.keys.get? kid with
              | none => simp [hItems, hGet, hRefresh, hAgain] at h
              | some found => simpa [hItems, hGet, hRefresh, hAgain] using h

theorem getSigningKey_ok {kid : String} {key : Key}
    (h : (getSigningKey jose settings cache clock first retry (.key kid)).2 = .ok key) :
    (getSigningKey jose settings cache clock first retry (.key kid)).1.keys.get? kid =
      some key := by
  by_cases hFirst : FirstEnds jose settings cache clock first
  · rw [getSigningKey_eq_select hFirst] at h ⊢
    exact select_ok h
  · rw [(getSigningKey_first _ _ hFirst).1] at h
    cases h

/-- A cache with keys finds a key that the endpoint serves. -/
theorem select_serves {held : JWKSCache Key} {kid : String} (hNe : kid ≠ "")
    (hItems : held.keys.items ≠ []) (hServes : Serves jose kid retry) :
    ∃ key, (held.select jose retry (.key kid)).2 = .ok key := by
  unfold JWKSCache.select
  cases hHeld : held.keys.items with
  | nil => exact absurd hHeld hItems
  | cons entry rest =>
      cases hGet : held.keys.get? kid with
      | some key => exact ⟨key, by simp [hGet]⟩
      | none =>
          obtain ⟨hEnds, key, hAgain⟩ := refresh_serves held hNe hServes
          exact ⟨key, by simp [hGet, hEnds, hAgain]⟩

end Invariants

section Finding

variable {Token Material Key Claims : Type*} {jose : Jose Token Material Key Claims}
  {settings : Settings} {s : CheckState Key}

theorem found_of_serves {kid : String} (hGenuine : Genuine jose s.cache) (hNe : kid ≠ "")
    (hUsable : s.cache.isStale settings s.clock = true ∨ s.cache.keys.items ≠ []) :
    Found jose settings s kid := by
  intro first retry _ _ hFirst hRetry
  have hEnds : FirstEnds jose settings s.cache s.clock first := fun _ => (refresh_serves _ hNe hFirst).1
  have hItems : (heldCache jose settings s.cache s.clock first).keys.items ≠ [] := by
    unfold heldCache
    split_ifs with hStale
    · obtain ⟨-, key, hKey⟩ := refresh_serves s.cache hNe hFirst
      exact List.ne_nil_of_mem (Dict.get?_eq_some.mp hKey)
    · exact hUsable.resolve_left hStale
  obtain ⟨key, hKey⟩ := select_serves hNe hItems hRetry
  rw [← getSigningKey_eq_select hEnds] at hKey
  have hLeft : Genuine jose
      (getSigningKey jose settings s.cache s.clock first retry (.key kid)).1 :=
    call_cache hGenuine fun _ _ _ => genuine_refresh
  exact ⟨key, hKey, (hLeft kid key (getSigningKey_ok hKey)).2⟩

/-- An empty cache that counts as fresh is not refreshed. -/
theorem getSigningKey_empty {kid : String} {first retry : Fetch Material}
    (hFresh : s.cache.isStale settings s.clock = false) (hItems : s.cache.keys.items = []) :
    getSigningKey jose settings s.cache s.clock first retry (.key kid) =
      (s.cache, .error (.auth .noKeys)) := by
  simp [getSigningKey, hFresh, JWKSCache.select, hItems]

theorem found_iff {kid : String} (hGenuine : Genuine jose s.cache)
    (hJose : ∃ entry : KeyData Material, entry.kid = some kid ∧ (jose.construct entry).isSome) :
    Found jose settings s kid ↔
      kid ≠ "" ∧ (s.cache.isStale settings s.clock = true ∨ s.cache.keys.items ≠ []) := by
  constructor
  · intro hFound
    obtain ⟨entry, hKid, hMade⟩ := hJose
    have hServes : Serves jose kid ⟨some [entry], s.clock⟩ :=
      ⟨[entry], rfl, by simpa using hMade, entry, List.mem_singleton_self entry, hKid⟩
    obtain ⟨key, hKey, -⟩ := hFound _ _ le_rfl le_rfl hServes hServes
    constructor
    · have hLeft : Genuine jose (getSigningKey jose settings s.cache s.clock
          ⟨some [entry], s.clock⟩ ⟨some [entry], s.clock⟩ (.key kid)).1 :=
        call_cache hGenuine fun _ _ _ => genuine_refresh
      exact (hLeft kid key (getSigningKey_ok hKey)).1
    · by_contra hNot
      obtain ⟨hStale, hItems⟩ := not_or.mp hNot
      rw [getSigningKey_empty (by simpa using hStale) (by simpa using hItems)] at hKey
      cases hKey
  · rintro ⟨hNe, hUsable⟩
    exact found_of_serves hGenuine hNe hUsable

end Finding

section Reached

variable {Token Material Key Claims : Type*} {jose : Jose Token Material Key Claims}
  {settings : Settings} {allowed : CheckState Key → CheckEvent Material → Prop}

/-- What one event does: time passes, and a check leaves what its call leaves. -/
theorem checks_step {s t : CheckState Key} {e : CheckEvent Material}
    (h : (checks jose settings).step s e = some t) :
    s.clock ≤ t.clock ∧ (t.cache = s.cache ∨ ∃ kid first retry, e = .check kid first retry ∧
      s.clock ≤ first.clock ∧ first.clock ≤ retry.clock ∧ t.clock = retry.clock ∧
        t.cache = (getSigningKey jose settings s.cache s.clock first retry kid).1) := by
  cases e with
  | tick elapsed =>
      simp only [checks] at h
      split_ifs at h with hElapsed
      cases h
      exact ⟨by simpa using hElapsed, Or.inl rfl⟩
  | check kid first retry =>
      simp only [checks] at h
      split_ifs at h with hClocks
      cases h
      exact ⟨hClocks.1.trans hClocks.2,
        Or.inr ⟨kid, first, retry, rfl, hClocks.1, hClocks.2, rfl, rfl⟩⟩

theorem reached_genuine {s : CheckState Key} (run : (checks jose settings).Reaches allowed s) :
    Genuine jose s.cache := by
  refine run.invariant (I := fun s => Genuine jose s.cache) ?_ ?_
  · rintro s ⟨-, hCache⟩ kid key hGet
    rw [hCache] at hGet
    cases hGet
  · intro s t e _ ih _ hStep
    rcases (checks_step hStep).2 with hCache | ⟨kid, first, retry, -, -, -, -, hCache⟩
    · rw [hCache]
      exact ih
    · rw [hCache]
      exact call_cache ih fun _ _ _ => genuine_refresh

/-- Before the clock has passed the time to live, nothing was ever fetched. -/
theorem reached_unfetched {s : CheckState Key} (run : (checks jose settings).Reaches allowed s) :
    s.clock ≤ settings.jwksCacheTtlSeconds → s.cache = ⟨Dict.empty, 0⟩ := by
  refine run.invariant (I := fun s : CheckState Key => s.clock ≤ settings.jwksCacheTtlSeconds →
    s.cache = ⟨Dict.empty, 0⟩) ?_ ?_
  · exact fun s hInit _ => hInit.2
  · intro s t e _ ih _ hStep hEarly
    obtain ⟨hClock, hCache⟩ := checks_step hStep
    have hBefore := ih (hClock.trans hEarly)
    rcases hCache with hSame | ⟨kid, first, retry, -, -, -, -, hCall⟩
    · rw [hSame, hBefore]
    · have hFresh : s.cache.isStale settings s.clock = false := by
        rw [← Bool.not_eq_true, isStale_iff, hBefore]
        simpa using hClock.trans hEarly
      rw [hCall]
      refine call_cache (P := fun cache => cache = ⟨Dict.empty, 0⟩) hBefore ?_
      rintro met fetch (⟨hStale, -, -⟩ | ⟨-, hMet, hForces, -⟩) _
      · rw [hFresh] at hStale
        cases hStale
      · have hHeld : met = ⟨Dict.empty, 0⟩ := by
          rw [hMet, heldCache, hFresh, hBefore]
          rfl
        rw [hHeld] at hForces
        exact absurd rfl hForces.1

theorem refresh_clock_le {s : CheckState Key} {kid : Kid}
    {first retry fetch : Fetch Material} {met : JWKSCache Key}
    (h : Refreshes jose settings s.cache s.clock first retry kid met fetch)
    (hClocks : first.clock ≤ retry.clock) : fetch.clock ≤ retry.clock := by
  rcases h with ⟨-, -, rfl⟩ | ⟨-, -, -, rfl⟩
  · exact hClocks
  · exact le_rfl

/-- A refresh that does not empty the cache leaves keys or a stale cache. -/
theorem refresh_keepsSome {met : JWKSCache Key} {fetch : Fetch Material} {clock : ℚ}
    (hMet : met.keys.items = [] → met.isStale settings clock = true)
    (hClock : fetch.clock ≤ clock) (hKeeps : ¬Empties jose settings met fetch) :
    (met.refresh jose fetch).1.keys.items = [] →
      (met.refresh jose fetch).1.isStale settings clock = true := by
  cases hDocument : fetch.document with
  | none =>
      rw [refresh_unanswered hDocument]
      exact hMet
  | some entries =>
      rcases accepted_or_rejected jose entries with hAccepted | hRejected
      · rw [refresh_whole hDocument hAccepted]
        intro hItems
        have hBefore : keysBeforeRejected jose entries = keySet jose entries := by
          rw [keysBeforeRejected, List.takeWhile_eq_self_iff.mpr hAccepted]
        exact absurd ⟨entries, hDocument, by rw [hBefore]; exact hItems, Or.inl hAccepted⟩ hKeeps
      · rw [refresh_broken _ hDocument hRejected]
        intro hItems
        have hStale : met.isStale settings fetch.clock = true := by
          by_contra hFresh
          exact hKeeps ⟨entries, hDocument, hItems, Or.inr (by simpa using hFresh)⟩
        exact isStale_mono hStale hClock

/-- In a run whose refreshes never empty the cache, an empty cache is refreshed
from the time on at which the first fetch can take place. -/
theorem reached_keepsSome {s : CheckState Key}
    (run : (checks jose settings).Reaches (KeepsSome jose settings) s)
    (hLate : settings.jwksCacheTtlSeconds < s.clock) :
    s.cache.keys.items = [] → s.cache.isStale settings s.clock = true := by
  refine run.invariant (I := fun s : CheckState Key => settings.jwksCacheTtlSeconds < s.clock →
    s.cache.keys.items = [] → s.cache.isStale settings s.clock = true) ?_ ?_ hLate
  · rintro s ⟨-, hCache⟩ hLate -
    rw [isStale_iff, hCache]
    simpa using hLate
  · intro s t e prior ih hAllowed hStep hLate
    obtain ⟨hClock, hCache⟩ := checks_step hStep
    have hBefore : s.cache.keys.items = [] → s.cache.isStale settings t.clock = true := by
      intro hItems
      rcases le_or_gt s.clock settings.jwksCacheTtlSeconds with hEarly | hPassed
      · rw [isStale_iff, reached_unfetched prior hEarly]
        simpa using hLate
      · exact isStale_mono (ih hPassed hItems) hClock
    rcases hCache with hSame | ⟨kid, first, retry, rfl, -, hClocks, hEnd, hCall⟩
    · rw [hSame]
      exact hBefore
    · rw [hCall]
      refine call_cache (P := fun cache => cache.keys.items = [] →
        cache.isStale settings t.clock = true) hBefore ?_
      intro met fetch hRefresh hMet
      have hEnded : fetch.clock ≤ t.clock := hEnd ▸ refresh_clock_le hRefresh hClocks
      exact refresh_keepsSome hMet hEnded (hAllowed met fetch hRefresh)

/-- In every reached state a served key is found exactly if the cache is stale or
has keys. In a run whose refreshes never empty the cache, that is so exactly from
the time on at which the clock has passed the time to live. -/
theorem signing_keys_found
    (hJose : ∀ kid, ∃ entry : KeyData Material, entry.kid = some kid ∧
      (jose.construct entry).isSome) :
    (∀ s, (checks jose settings).Reaches System.anyRun s → ∀ kid,
      (Found jose settings s kid ↔
        kid ≠ "" ∧ (s.cache.isStale settings s.clock = true ∨ s.cache.keys.items ≠ []))) ∧
    ∀ s, (checks jose settings).Reaches (KeepsSome jose settings) s → ∀ kid,
      (Found jose settings s kid ↔ kid ≠ "" ∧ settings.jwksCacheTtlSeconds < s.clock) := by
  refine ⟨fun s run kid => found_iff (reached_genuine run) (hJose kid), ?_⟩
  intro s run kid
  rw [found_iff (reached_genuine run) (hJose kid)]
  refine and_congr_right fun _ => ⟨?_, ?_⟩
  · intro hUsable
    by_contra hEarly
    have hCache := reached_unfetched run (not_lt.mp hEarly)
    rcases hUsable with hStale | hItems
    · rw [isStale_iff, hCache] at hStale
      exact hEarly (by simpa using hStale)
    · rw [hCache] at hItems
      exact hItems rfl
  · intro hLate
    by_cases hItems : s.cache.keys.items = []
    · exact Or.inl (reached_keepsSome run hLate hItems)
    · exact Or.inr hItems

end Reached

/-- A process that starts 400 s after its clock, and finds a served key at once. -/
theorem signing_keys_found_late :
    Found pickyJose {} ⟨400, ⟨Dict.empty, 0⟩⟩ "key-1" := by
  have hJose : ∀ kid, ∃ entry : KeyData Bool, entry.kid = some kid ∧
      (pickyJose.construct entry).isSome :=
    fun kid => ⟨⟨some kid, true⟩, rfl, rfl⟩
  have start : (checks pickyJose {}).Reaches (KeepsSome pickyJose {}) ⟨400, ⟨Dict.empty, 0⟩⟩ :=
    .init ⟨by norm_num, rfl⟩
  exact ((signing_keys_found hJose).2 _ start "key-1").mpr ⟨by decide, by norm_num⟩

/-- A process that starts 120 s after its clock rejects a token without asking
for the key set, which has the key, and says that it was empty. -/
theorem signing_keys_not_found :
    (checks pickyJose {}).Reaches System.anyRun ⟨120, ⟨Dict.empty, 0⟩⟩ ∧
      Serves pickyJose "key-1" ⟨some [⟨some "key-1", true⟩], 120⟩ ∧
      (getSigningKey pickyJose {} ⟨Dict.empty, 0⟩ 120 ⟨some [⟨some "key-1", true⟩], 120⟩
        ⟨some [⟨some "key-1", true⟩], 120⟩ (.key "key-1")).2 = .error (.auth .noKeys) ∧
      ¬∀ s, (checks pickyJose {}).Reaches System.anyRun s → ∀ kid, Found pickyJose {} s kid := by
  have start : (checks pickyJose {}).Reaches System.anyRun ⟨120, ⟨Dict.empty, 0⟩⟩ :=
    .init ⟨by norm_num, rfl⟩
  have hServes : Serves pickyJose "key-1" ⟨some [⟨some "key-1", true⟩], 120⟩ :=
    ⟨_, rfl, by simp [pickyJose], _, List.mem_singleton_self _, rfl⟩
  have hFresh : (⟨Dict.empty, 0⟩ : JWKSCache Unit).isStale {} 120 = false := by decide +kernel
  have hCall : getSigningKey pickyJose {} ⟨Dict.empty, 0⟩ 120
      ⟨some [⟨some "key-1", true⟩], 120⟩ ⟨some [⟨some "key-1", true⟩], 120⟩ (.key "key-1") =
        (⟨Dict.empty, 0⟩, .error (.auth .noKeys)) :=
    @getSigningKey_empty _ _ _ _ _ _ ⟨120, ⟨Dict.empty, 0⟩⟩ _ _ _ hFresh rfl
  refine ⟨start, hServes, by rw [hCall], ?_⟩
  intro hAll
  obtain ⟨key, hKey, -⟩ := hAll _ start "key-1" _ _ le_rfl le_rfl hServes hServes
  rw [hCall] at hKey
  cases hKey

end Gateway.Auth
