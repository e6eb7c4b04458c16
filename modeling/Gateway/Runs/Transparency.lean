import Gateway.Runs.Provenance
import Mathlib.Data.Set.Function

/-! Transparency of the cache and of deduplication: what a request is served
from either is the vendor's answer to some request with the same key, and it is
the answer to its own where the key tells the forwarded requests apart. -/
namespace Gateway.Routes

open Transition Http Text Gateway.Cache Gateway.Vendors

/-- What the vendor receives for a request, if its vendor is known. -/
def Deployment.forwarded (D : Deployment) (request : Inbound) : Option Forwarded :=
  (D.registry request.vendorSlug).map request.vendorCall.wire

/-- What `make_dedup_key` hashes for a request. -/
def Inbound.dedupInput (request : Inbound) : Bytes :=
  dedupFingerprint request.vendorSlug request.endpointPath (some request.params)
    (.bytes request.body)

/-- What `make_cache_key` hashes for a request. -/
def Inbound.cacheInput (request : Inbound) : Bytes :=
  cacheFingerprint (some request.params) (.bytes request.body)

/-- The inputs of SHA-256 for these requests. -/
def hashed (R : Set Inbound) : Set Bytes :=
  {data | ∃ request ∈ R, data = request.dedupInput ∨ data = request.cacheInput}

/-- This response is the vendor's answer to the request. -/
def Answers (D : Deployment) (answer : Forwarded → ℕ × Bytes) (request : Inbound)
    (c : CachedResponse) : Prop :=
  ∀ wire ∈ D.forwarded request, answer wire = (c.statusCode, c.body)

instance (D : Deployment) (answer : Forwarded → ℕ × Bytes) (request : Inbound)
    (c : CachedResponse) : Decidable (Answers D answer request c) :=
  inferInstanceAs (Decidable (∀ wire ∈ D.forwarded request, _ = _))

/-- The requests come from this set, and a 2xx answer of the vendor is the one
that this function gives for the forwarded request. -/
abbrev Answering (D : Deployment) (answer : Forwarded → ℕ × Bytes) (R : Set Inbound) :
    State → Event → Prop :=
  Supplied (Answers D answer) R

/-- Requests whose keys are made of the same text are forwarded alike. -/
def Separated (D : Deployment) (R : Set Inbound) : Prop :=
  ∀ request ∈ R, ∀ other ∈ R, request.dedupInput = other.dedupInput →
    ∀ wire ∈ D.forwarded request, ∀ wire' ∈ D.forwarded other, wire = wire'

section Keys

variable {D : Deployment} {R : Set Inbound} {request other : Inbound}

theorem dedupInput_of_cacheKey (hHash : Set.InjOn D.sha256.hexdigest (hashed R))
    (hRequest : request ∈ R) (hOther : other ∈ R) (hKey : request.cacheKey D = other.cacheKey D) :
    request.dedupInput = other.dedupInput := by
  have hParts := makeCacheKey_inj hKey
  have hInput : request.cacheInput = other.cacheInput :=
    hHash ⟨request, hRequest, Or.inr rfl⟩ ⟨other, hOther, Or.inr rfl⟩ hParts.2
  exact dedupFingerprint_eq hParts.1 hInput

theorem dedupInput_of_dedupKey (hHash : Set.InjOn D.sha256.hexdigest (hashed R))
    (hRequest : request ∈ R) (hOther : other ∈ R) (hKey : request.dedupKey D = other.dedupKey D) :
    request.dedupInput = other.dedupInput :=
  hHash ⟨request, hRequest, Or.inl rfl⟩ ⟨other, hOther, Or.inl rfl⟩ (makeDedupKey_inj hKey)

end Keys

/-- Without hash collisions, and as long as requests whose keys are made of the
same text are forwarded alike, what a request is served from the cache or from
another request is the vendor's answer to its own. -/
theorem served_transparently {D : Deployment} {answer : Forwarded → ℕ × Bytes} {R : Set Inbound}
    {s : State} (hHash : Set.InjOn D.sha256.hexdigest (hashed R)) (hSeparated : Separated D R)
    (run : D.machine.Reaches (Answering D answer R) s) (r : ℕ) (request : Inbound)
    (outcome : Outcome) (c : CachedResponse) (hProc : s.procs r = .finished request outcome)
    (hShared : outcome.shared = some c) :
    ∃ wire, D.forwarded request = some wire ∧ answer wire = (c.statusCode, c.body) := by
  obtain ⟨hRequest, hKnown, x, hx, hVendor, hAnswers, hKey⟩ :=
    (traceable_run run).served r request outcome c hProc hShared
  have hInput : request.dedupInput = x.dedupInput := by
    rcases hKey with hCache | hDedup
    · exact dedupInput_of_cacheKey hHash hRequest hx hCache.symm
    · exact dedupInput_of_dedupKey hHash hRequest hx hDedup.symm
  obtain ⟨config, hConfig⟩ := Option.isSome_iff_exists.mp hKnown
  obtain ⟨config', hConfig'⟩ := Option.isSome_iff_exists.mp hVendor
  have hWire : D.forwarded request = some (request.vendorCall.wire config) := by
    rw [Deployment.forwarded, hConfig]
    rfl
  have hWire' : D.forwarded x = some (x.vendorCall.wire config') := by
    rw [Deployment.forwarded, hConfig']
    rfl
  have hSame := hSeparated request hRequest x hx hInput _ hWire _ hWire'
  refine ⟨_, hWire, ?_⟩
  rw [hSame]
  exact hAnswers _ hWire'

section Sample

/-! Two requests to a vendor that echoes what it is asked. -/

def echo (wire : Forwarded) : ℕ × Bytes :=
  (200, utf8 (wire.method ++ " " ++ wire.url ++ " ") ++ wire.body)

def pair (a b : Inbound) : Set Inbound := {request | request = a ∨ request = b}

instance (a b : Inbound) : DecidablePred (· ∈ pair a b) := fun request =>
  inferInstanceAs (Decidable (request = a ∨ request = b))

def pairInputs (a b : Inbound) : List Bytes :=
  [a.dedupInput, a.cacheInput, b.dedupInput, b.cacheInput]

theorem injOn_pair {sha256 : Sha256} {a b : Inbound}
    (h : ∀ x ∈ pairInputs a b, ∀ y ∈ pairInputs a b,
      sha256.hexdigest x = sha256.hexdigest y → x = y) :
    Set.InjOn sha256.hexdigest (hashed (pair a b)) := by
  have hMem : ∀ data ∈ hashed (pair a b), data ∈ pairInputs a b := by
    intro data hData
    obtain ⟨request, hRequest, hInput⟩ := hData
    have hEither : request = a ∨ request = b := hRequest
    rw [pairInputs]
    rcases hEither with hSame | hSame <;> rcases hInput with hData | hData <;>
    · rw [hData, hSame]
      simp only [List.mem_cons, true_or, or_true]
  intro x hx y hy hSame
  exact h x (hMem x hx) y (hMem y hy) hSame

/-- A repeated request is one request. -/
theorem separated_pair_self (D : Deployment) (a : Inbound) : Separated D (pair a a) := by
  intro x hx y hy _ wire hWire wire' hWire'
  have hSame : x = y := (or_self_iff.mp hx).trans (or_self_iff.mp hy).symm
  subst hSame
  exact Option.some.inj (hWire.symm.trans hWire')

/-- The vendor echoes the request and the handler runs to its end. -/
def echoedCall (r : ℕ) (request : Inbound) : List Event :=
  [.deliver r (.vendor (.response ⟨200, [],
      utf8 (request.method.name ++ " http://v/" ++ request.endpointPath ++ " ") ++ request.body⟩)),
    .deliver r .reply, .deliver r .reply, .deliver r .reply, .deliver r .reply]

/-- The second request finds the response to the first in the cache. -/
def afterwards (a b : Inbound) : List Event :=
  upToLock 0 a ++ .deliver 0 .reply :: echoedCall 0 a ++ upToLock 1 b

/-- The second request waits for the first and gets its response. -/
def meanwhile (a b : Inbound) : List Event :=
  upToLock 0 a ++ .deliver 0 .reply :: upToLock 1 b ++ .deliver 1 .reply :: .deliver 1 .reply ::
    echoedCall 0 a ++ [.deliver 1 .reply, .deliver 1 .reply]

/-- Whether a request was served a response that is not the answer to it. -/
def misled (D : Deployment) (answer : Forwarded → ℕ × Bytes) (s : State) (r : ℕ) : Bool :=
  match s.procs r with
  | .finished request outcome => outcome.shared.any fun c => decide (¬Answers D answer request c)
  | _ => false

/-- Two requests without a hash collision, the second of which is served a
response that is not the answer to it. -/
def Confused (a b : Inbound) : Prop :=
  Set.InjOn lengthSha256.hexdigest (hashed (pair a b)) ∧
    ∃ s, (sampleDeployment 60).machine.Reaches
      (Answering (sampleDeployment 60) echo (pair a b)) s ∧
      misled (sampleDeployment 60) echo s 1 = true

theorem confused_of_run {a b : Inbound} (es : List Event)
    (hHash : ∀ x ∈ pairInputs a b, ∀ y ∈ pairInputs a b,
      lengthSha256.hexdigest x = lengthSha256.hexdigest y → x = y)
    (hDone : ((sampleDeployment 60).machine.exec (Answering (sampleDeployment 60) echo (pair a b))
      sampleStart es).any (fun s => misled (sampleDeployment 60) echo s 1) = true) :
    Confused a b :=
  ⟨injOn_pair hHash, System.Reaches.exec_any (.init init_sampleStart) hDone⟩

/-- The keys leave out the method and a trailing slash of the path, and join
path and parameters without escaping the separator. -/
theorem served_wrongly :
    Confused (sampleRequest .get "p") (sampleRequest .post "p") ∧
      Confused (sampleRequest .get "p") (sampleRequest .get "p/") ∧
      Confused (sampleRequest .get "x:[]")
        { sampleRequest .get "x" with body := utf8 ":[]" } := by
  refine ⟨?_, ?_, ?_⟩
  · apply confused_of_run (afterwards (sampleRequest .get "p") (sampleRequest .post "p"))
    · decide +kernel
    · decide +kernel
  · apply confused_of_run (afterwards (sampleRequest .get "p") (sampleRequest .get "p/"))
    · decide +kernel
    · decide +kernel
  · apply confused_of_run (meanwhile (sampleRequest .get "x:[]")
      { sampleRequest .get "x" with body := utf8 ":[]" })
    · decide +kernel
    · decide +kernel

/-- A repeated request is served from the cache. -/
theorem served_transparently_again :
    ∃ s request c, (sampleDeployment 60).machine.Reaches
      (Answering (sampleDeployment 60) echo (pair (sampleRequest .get "p") (sampleRequest .get "p")))
        s ∧ s.procs 1 = .finished request (.fromCache c) ∧
      ∃ wire, (sampleDeployment 60).forwarded request = some wire ∧
        echo wire = (c.statusCode, c.body) := by
  have hDone : ((sampleDeployment 60).machine.exec (Answering (sampleDeployment 60) echo
      (pair (sampleRequest .get "p") (sampleRequest .get "p"))) sampleStart
      (afterwards (sampleRequest .get "p") (sampleRequest .get "p"))).any
      (fun s => match s.procs 1 with
        | .finished _ (.fromCache _) => true
        | _ => false) = true := by
    decide +kernel
  obtain ⟨s, run, hCheck⟩ := System.Reaches.exec_any (.init init_sampleStart) hDone
  split at hCheck
  case h_1 request c hProc =>
    exact ⟨s, request, c, run, hProc, served_transparently (injOn_pair (by decide +kernel))
      (separated_pair_self _ _) run 1 request _ c hProc rfl⟩
  case h_2 => cases hCheck

end Sample

end Gateway.Routes
