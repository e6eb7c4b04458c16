import Gateway.Cache.ResponseCache
import Gateway.Semantics.Json

/-! `gateway/auth/portal_tokens.py`: the reactions of `PortalTokenValidator` to a
cached entry and to an answer of the portal. -/
namespace Gateway.Auth

open Json Text Gateway.Cache

/-- `_cache_key` -/
def portalCacheKey (sha256 : Sha256) (plain : String) : String :=
  "portal_token:" ++ sha256.hexdigest (utf8 plain)

/-- What a call of a JSON service ends with. The body is `none` when it is not JSON. -/
inductive HttpAnswer where
  | transportError
  | response (statusCode : ℕ) (body : Option Value)

/-- How `validate` ends: with a payload, with `None` or with an exception. -/
inductive Validation where
  | payload (data : Members)
  | none
  | raised

/-- `data.get("valid")` as a condition. -/
def valid (data : Members) : Bool := (member? data "valid").any Value.truthy

/-- `validate` on a cache hit. -/
def onHit (data : Members) : Validation := if valid data then .payload data else .none

/-- What `validate` does next: return, or write an entry before it returns. -/
inductive Reaction where
  | finish (result : Validation)
  | store (data : Members) (ex : ℤ) (result : Validation)

/-- `json.dumps({"valid": False})` -/
def negative : Members := [("valid", .bool false)]

/-- `validate` on the answer to its POST. `raise_for_status` accepts 2xx only. -/
def onAnswer (portalTokenCacheTtl : ℤ) : HttpAnswer → Reaction
  | .transportError => .finish .none
  | .response statusCode body =>
      if 200 ≤ statusCode ∧ statusCode < 300 then
        match body with
        | some (.obj data) =>
            if valid data then .store data portalTokenCacheTtl (.payload data)
            else .store negative (min portalTokenCacheTtl 10) .none
        | _ => .finish .raised
      else .finish .none

/-- `SET` refuses an expiry that is not positive. -/
def Reaction.result : Reaction → Validation
  | .finish result => result
  | .store _ ex result => if 0 < ex then result else .raised

/-- `validate`, with the cached entry and the answer of the portal that it meets. -/
def validate (portalTokenCacheTtl : ℤ) (cached : Option Members) (answer : HttpAnswer) :
    Validation :=
  match cached with
  | some data => onHit data
  | none => (onAnswer portalTokenCacheTtl answer).result

/-- An entry is written for a positive answer with the full TTL, or it is the
negative one. -/
theorem onAnswer_store {ttl ex : ℤ} {answer : HttpAnswer} {data : Members} {result : Validation}
    (h : onAnswer ttl answer = .store data ex result) :
    ∃ statusCode body, answer = .response statusCode (some (.obj body)) ∧
      ((valid body = true ∧ data = body ∧ ex = ttl ∧ result = .payload data) ∨
        (valid body = false ∧ data = negative ∧ ex = min ttl 10 ∧ result = .none)) := by
  unfold onAnswer at h
  split at h
  · cases h
  · split_ifs at h with hStatus
    split at h
    · split_ifs at h with hValid <;> cases h
      · exact ⟨_, _, rfl, Or.inl ⟨hValid, rfl, rfl, rfl⟩⟩
      · exact ⟨_, _, rfl, Or.inr ⟨by simpa using hValid, rfl, rfl, rfl⟩⟩
    · cases h

/-- An answer that `validate` can read: with a success status it is an object. -/
def HttpAnswer.readable : HttpAnswer → Bool
  | .transportError | .response _ (some (.obj _)) => true
  | .response statusCode _ => !decide (200 ≤ statusCode ∧ statusCode < 300)

/-- Without an entry `validate` returns `None`, for an answer that it can read. -/
theorem onAnswer_readable {ttl : ℤ} {answer : HttpAnswer} {result : Validation}
    (hReadable : answer.readable = true) (h : onAnswer ttl answer = .finish result) :
    result = .none := by
  unfold onAnswer at h
  split at h
  · cases h
    rfl
  · split_ifs at h with hStatus
    · split at h
      · split_ifs at h
      · rename_i hObject
        unfold HttpAnswer.readable at hReadable
        split at hReadable
        · cases ‹HttpAnswer.response _ _ = .transportError›
        · rename_i hResponse
          cases hResponse
          exact absurd rfl (hObject _)
        · rename_i hResponse
          cases hResponse
          simp [hStatus] at hReadable
    · cases h
      rfl

/-- What an object with a success status is answered with. -/
theorem onAnswer_object {ttl : ℤ} {statusCode : ℕ} {data : Members}
    (hStatus : 200 ≤ statusCode ∧ statusCode < 300) :
    (onAnswer ttl (.response statusCode (some (.obj data)))).result =
      if 0 < ttl then onHit data else .raised := by
  simp only [onAnswer, if_pos hStatus, onHit]
  cases valid data with
  | true => rfl
  | false =>
      have hMin : 0 < min ttl 10 ↔ 0 < ttl := by
        omega
      simp [Reaction.result, hMin]

theorem valid_negative : valid negative = false := rfl

end Gateway.Auth
