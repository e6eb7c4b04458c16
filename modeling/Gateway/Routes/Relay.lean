import Gateway.Runs.Provenance

/-! The header lines of a relayed response against the body that goes with
them. The client library hands over the body after content decoding together
with the lines that were about the encoded one. -/
namespace Gateway.Routes

open Transition Http Text Gateway.Cache Gateway.Vendors

/-- A Content-Length that is present is the length of the body, and the body is
in the form that a Content-Encoding names. -/
structure Consistent (codec : Codec) (response : Response) : Prop where
  length : ∀ line ∈ response.lines, line.1 = "content-length" →
    contentLength? line.2 = some response.body.length
  encoding : ∀ line ∈ response.lines, line.1 = "content-encoding" →
    codec.encoded line.2 response.body

/-- The response of the client library. -/
def receive (codec : Codec) (wire : WireResponse) : Option VendorResponse :=
  (codec.content wire.lines wire.payload).map fun content =>
    ⟨wire.statusCode, wire.lines, content⟩

/-- What the vendor says of its payload holds of the decoded content as well. -/
structure Intact (codec : Codec) (lines : Lines) (content : Bytes) : Prop where
  length : ∀ value ∈ (joinLines lines).get? "content-length",
    contentLength? value = some content.length
  encoding : ∀ value ∈ (joinLines lines).get? "content-encoding", codec.encoded value content

/-- The property holds of every value under this header name. -/
def Every (headers : Dict String String) (name : String) (P : String → Prop) : Prop :=
  ∀ e ∈ headers.items, lower e.1 = name → P e.2

section Every

variable {headers : Dict String String} {name : String} {P : String → Prop}

theorem every_insert {k v : String} (hk : lower k ≠ name) :
    Every (headers.insert k v) name P ↔ Every headers name P := by
  constructor
  · intro h e he hName
    have hNe : e.1 ≠ k := by
      intro hSame
      rw [hSame] at hName
      exact hk hName
    exact h e (Dict.mem_items_insert.mpr (Or.inr ⟨he, hNe⟩)) hName
  · intro h e he hName
    rcases Dict.mem_items_insert.mp he with hNew | ⟨hOld, _⟩
    · rw [hNew] at hName
      exact absurd hName hk
    · exact h e hOld hName

theorem every_filterResponseHeaders (hName : name ∉ hopByHop) :
    Every (filterResponseHeaders headers) name P ↔ Every headers name P := by
  constructor
  · intro h e he hSame
    apply h e _ hSame
    apply List.mem_filter.mpr
    refine ⟨he, decide_eq_true ?_⟩
    rw [hSame]
    exact hName
  · intro h e he hSame
    exact h e (List.mem_filter.mp he).1 hSame

theorem every_joinLines {lines : Lines} :
    Every (joinLines lines) name P ↔ ∀ value ∈ (joinLines lines).get? name, P value := by
  constructor
  · intro h value hValue
    have hMem := Dict.get?_eq_some.mp hValue
    have hLower : lower name = name := lower_of_mem_joinLines (List.mem_map_of_mem hMem)
    exact h (name, value) hMem hLower
  · intro h e he hName
    have hLower : lower e.1 = e.1 := lower_of_mem_joinLines (List.mem_map_of_mem he)
    have hMem : (name, e.2) ∈ (joinLines lines).items := by
      rw [← hName, hLower]
      exact he
    exact h e.2 (Dict.get?_eq_some.mpr hMem)

end Every

section Make

variable {codec : Codec} {content : Bytes} {statusCode : ℕ} {headers : Dict String String}

/-- A Content-Length that the server library adds is right. -/
theorem consistent_build :
    Consistent codec (Response.build content statusCode headers) ↔
      Every headers "content-length" (fun value => contentLength? value = some content.length) ∧
        Every headers "content-encoding" fun value => codec.encoded value content := by
  have hMap (name : String) (P : String → Prop) :
      (∀ line ∈ headers.items.map fun e => (lower e.1, e.2), line.1 = name → P line.2) ↔
        Every headers name P := by
    constructor
    · intro h e he hName
      exact h (lower e.1, e.2) (List.mem_map_of_mem he) hName
    · intro h line hLine hName
      obtain ⟨e, he, rfl⟩ := List.mem_map.mp hLine
      exact h e he hName
  unfold Response.build
  simp only
  split_ifs with hGiven
  · constructor
    · rintro ⟨hLength, hEncoding⟩
      exact ⟨(hMap _ _).mp hLength, (hMap _ _).mp hEncoding⟩
    · rintro ⟨hLength, hEncoding⟩
      exact ⟨(hMap _ _).mpr hLength, (hMap _ _).mpr hEncoding⟩
  · constructor
    · rintro ⟨hLength, hEncoding⟩
      constructor
      · exact (hMap _ _).mp fun line hLine => hLength line (List.mem_append_left _ hLine)
      · exact (hMap _ _).mp fun line hLine => hEncoding line (List.mem_append_left _ hLine)
    · rintro ⟨hLength, hEncoding⟩
      constructor
      · intro line hLine hName
        rcases List.mem_append.mp hLine with hOld | hNew
        · exact (hMap _ _).mpr hLength line hOld hName
        · rw [List.mem_singleton.mp hNew]
          exact contentLength?_repr _
      · intro line hLine hName
        rcases List.mem_append.mp hLine with hOld | hNew
        · exact (hMap _ _).mpr hEncoding line hOld hName
        · rw [List.mem_singleton.mp hNew] at hName
          have hNe : "content-length" ≠ "content-encoding" := by decide
          exact absurd hName hNe

end Make

section Relay

variable {codec : Codec} (v : VendorResponse)

theorem consistent_relayResponse {response : Response} (h : relayResponse v = some response) :
    Consistent codec response ↔ Intact codec v.headers v.content := by
  obtain ⟨-, rfl⟩ := Response.make_eq_some.mp h
  rw [consistent_build, every_filterResponseHeaders (by decide),
    every_filterResponseHeaders (by decide), every_joinLines, every_joinLines]
  constructor
  · rintro ⟨hLength, hEncoding⟩
    exact ⟨hLength, hEncoding⟩
  · rintro ⟨hLength, hEncoding⟩
    exact ⟨hLength, hEncoding⟩

/-- A response from the cache or from another request has the same two lines. -/
theorem consistent_cachedToResponse {at_ : ℚ} {response : Response}
    (h : cachedToResponse (Fetched.cached ⟨v, at_⟩) = some response) :
    Consistent codec response ↔ Intact codec v.headers v.content := by
  obtain ⟨-, rfl⟩ := Response.make_eq_some.mp h
  simp only [Fetched.cached, consistent_build]
  rw [every_insert (by decide), every_insert (by decide), every_filterResponseHeaders (by decide),
    every_filterResponseHeaders (by decide), every_filterResponseHeaders (by decide),
    every_filterResponseHeaders (by decide), every_joinLines, every_joinLines]
  constructor
  · rintro ⟨hLength, hEncoding⟩
    exact ⟨hLength, hEncoding⟩
  · rintro ⟨hLength, hEncoding⟩
    exact ⟨hLength, hEncoding⟩

end Relay

/-- What is shared in a run has come from a vendor. -/
theorem fetched_of_run {D : Deployment} {s : State} (run : D.machine.Reaches System.anyRun s)
    {r : ℕ} {request : Inbound} {outcome : Outcome} {c : CachedResponse}
    (hProc : s.procs r = .finished request outcome) (hShared : outcome.shared = some c) :
    ∃ f : Fetched, c = f.cached := by
  have hSupplied : D.machine.Reaches
      (Supplied (fun _ c => ∃ f : Fetched, c = f.cached) Set.univ) s := by
    apply run.mono
    intro s e _
    cases e with
    | elapse dt => trivial
    | deliver r input =>
        cases input with
        | arrive request => trivial
        | vendor vendorOutcome =>
            cases vendorOutcome with
            | response v => exact fun _ _ _ => ⟨_, rfl⟩
            | _ => trivial
        | _ => trivial
  obtain ⟨_, _, _, _, _, hGood, _⟩ :=
    (traceable_run hSupplied).served r request outcome c hProc hShared
  exact hGood

/-- A response of a vendor reaches clients in these two forms. -/
theorem response_of_run {D : Deployment} {s : State} (run : D.machine.Reaches System.anyRun s)
    {r : ℕ} {request : Inbound} {outcome : Outcome} {response : Response}
    (hProc : s.procs r = .finished request outcome) (hResponse : outcome.response = some response) :
    ∃ v, relayResponse v = some response ∨
      ∃ at_, cachedToResponse (Fetched.cached ⟨v, at_⟩) = some response := by
  cases outcome with
  | relayed v => exact ⟨v, Or.inl hResponse⟩
  | fromCache c =>
      obtain ⟨f, rfl⟩ := fetched_of_run run hProc rfl
      exact ⟨f.response, Or.inr ⟨f.at_, hResponse⟩⟩
  | fromDedup c =>
      obtain ⟨f, rfl⟩ := fetched_of_run run hProc rfl
      exact ⟨f.response, Or.inr ⟨f.at_, hResponse⟩⟩
  | _ => cases hResponse

/-- A relayed response, fresh, from the cache or from another request, is
consistent exactly if what the vendor says of its payload holds of the content
after decoding; and these are the forms in which responses are relayed. -/
theorem relay_consistent {codec : Codec} {wire : WireResponse} {v : VendorResponse}
    (hReceived : receive codec wire = some v) (at_ : ℚ) :
    (∀ response, relayResponse v = some response →
      (Consistent codec response ↔ Intact codec wire.lines v.content)) ∧
      (∀ response, cachedToResponse (Fetched.cached ⟨v, at_⟩) = some response →
        (Consistent codec response ↔ Intact codec wire.lines v.content)) ∧
      ∀ D : Deployment, ∀ s, D.machine.Reaches System.anyRun s → ∀ r request outcome response,
        s.procs r = .finished request outcome → outcome.response = some response →
          ∃ v, relayResponse v = some response ∨
            ∃ at_, cachedToResponse (Fetched.cached ⟨v, at_⟩) = some response := by
  obtain ⟨content, hContent, rfl⟩ := Option.map_eq_some_iff.mp hReceived
  exact ⟨fun response h => consistent_relayResponse _ h,
    fun response h => consistent_cachedToResponse _ h,
    fun D s run r request outcome response hProc hResponse => response_of_run run hProc hResponse⟩

section Sample

/-- The one-byte text "a" in a gzip stream. -/
def gzipA : Bytes :=
  [31, 139, 8, 0, 0, 0, 0, 0, 2, 255, 75, 4, 0, 67, 190, 183, 232, 1, 0, 0, 0]

/-- Content coding as far as the samples need it. -/
def sampleCodec : Codec where
  encoded value data := value = "identity" ∨ value = "gzip" ∧ data = gzipA
  content lines payload :=
    if ("content-encoding", "gzip") ∈ lines ∧ payload = gzipA then some (utf8 "a") else some payload

def plainAnswer : WireResponse := ⟨200, [("content-length", "1")], utf8 "a"⟩

theorem relay_consistent_plain :
    ∃ v fresh shared, receive sampleCodec plainAnswer = some v ∧ relayResponse v = some fresh ∧
      cachedToResponse (Fetched.cached ⟨v, 0⟩) = some shared ∧ Consistent sampleCodec fresh ∧
      Consistent sampleCodec shared := by
  have hReceived : receive sampleCodec plainAnswer =
      some ⟨200, [("content-length", "1")], utf8 "a"⟩ := by
    decide
  have hIntact : Intact sampleCodec plainAnswer.lines (utf8 "a") := by
    constructor
    · decide
    · intro value hValue
      have hNone : (joinLines plainAnswer.lines).get? "content-encoding" = none := by decide
      rw [hNone] at hValue
      cases hValue
  obtain ⟨hFresh, hCached, _⟩ := relay_consistent hReceived 0
  exact ⟨_, _, _, hReceived, rfl, rfl, (hFresh _ rfl).mpr hIntact, (hCached _ rfl).mpr hIntact⟩

def gzipAnswer : WireResponse :=
  ⟨200, [("content-encoding", "gzip"), ("content-length", "21")], gzipA⟩

/-- The client gets one byte that is announced as 21 bytes of a gzip stream. -/
theorem relay_inconsistent :
    ∃ v fresh shared, receive sampleCodec gzipAnswer = some v ∧ relayResponse v = some fresh ∧
      cachedToResponse (Fetched.cached ⟨v, 0⟩) = some shared ∧ fresh.body = utf8 "a" ∧
      fresh.lines = [("content-encoding", "gzip"), ("content-length", "21")] ∧
      ¬Consistent sampleCodec fresh ∧ ¬Consistent sampleCodec shared := by
  have hReceived : receive sampleCodec gzipAnswer =
      some ⟨200, gzipAnswer.lines, utf8 "a"⟩ := by
    decide
  have hBroken : ¬Intact sampleCodec gzipAnswer.lines (utf8 "a") := by
    intro hIntact
    exact absurd (hIntact.length "21" (by decide)) (by decide)
  obtain ⟨hFresh, hCached, _⟩ := relay_consistent hReceived 0
  exact ⟨_, _, _, hReceived, rfl, rfl, by decide, by decide, fun h => hBroken ((hFresh _ rfl).mp h),
    fun h => hBroken ((hCached _ rfl).mp h)⟩

end Sample

end Gateway.Routes
