import Gateway.Semantics.TokenBucket
import Mathlib.Algebra.Order.Floor.Ring
import Mathlib.Data.Rat.Floor
import Mathlib.Tactic.NormNum
import Mathlib.Tactic.FieldSimp

/-! `gateway/middleware/rate_limit.py`: the Lua script behind every rate-limit
key and `check_rate_limit`, in exact rational arithmetic. One clock serves as
`time.time()` and as the clock that expires Redis keys. -/
namespace Gateway.Middleware.RateLimit

/-- The hash under a rate-limit key, with the expiry of the key. -/
structure Bucket where
  tokens : ℚ
  lastRefill : ℚ
  expiresAt : Option ℚ
  deriving DecidableEq

/-- What HMGET finds at a time: nothing once the key has expired. -/
def visible (now : ℚ) (stored : Option Bucket) : Option Bucket :=
  stored.filter fun b => b.expiresAt.all fun t => decide (now < t)

inductive ScriptReply where
  | allowed
  | denied
  | error
  deriving DecidableEq

/-- `math.ceil(capacity / refill_rate) + 1`. Without a refill rate the quotient
is not a number and EXPIRE refuses the argument. -/
def expireSeconds (capacity refillRate : ℚ) : Option ℤ :=
  if refillRate = 0 then none else some (⌈capacity / refillRate⌉ + 1)

/-- HSET and then EXPIRE. The write stays when EXPIRE fails, with the expiry
the key had; EXPIRE with no time left deletes the key. -/
def storeAndExpire (ttl : Option ℤ) (now tokens : ℚ) (key : Option Bucket)
    (reply : ScriptReply) : Option Bucket × ScriptReply :=
  match ttl with
  | none => (some ⟨tokens, now, key.bind Bucket.expiresAt⟩, .error)
  | some seconds =>
      if seconds ≤ 0 then (none, reply) else (some ⟨tokens, now, some (now + seconds)⟩, reply)

/-- Tokens after the refill for the time since the last evaluation. -/
def newTokens (capacity refillRate now : ℚ) (key : Option Bucket) : ℚ :=
  let tokens := (key.map Bucket.tokens).getD capacity
  let lastRefill := (key.map Bucket.lastRefill).getD now
  let elapsed := now - lastRefill
  min capacity (tokens + elapsed * refillRate)

/-- `_TOKEN_BUCKET_LUA` -/
def tokenBucketLua (capacity refillRate now tokensRequested : ℚ) (key : Option Bucket) :
    Option Bucket × ScriptReply :=
  let available := newTokens capacity refillRate now key
  let ttl := expireSeconds capacity refillRate
  if tokensRequested ≤ available then
    storeAndExpire ttl now (available - tokensRequested) key .allowed
  else
    storeAndExpire ttl now available key .denied

/-- The keys of the three scopes: a vendor, a user, a user at a vendor. -/
def vendorKey (slug : String) : String := "rl:vendor:" ++ slug

def userKey (userId : String) : String := "rl:user:" ++ userId

def userVendorKey (userId slug : String) : String := "rl:user:" ++ userId ++ ":vendor:" ++ slug

/-- `check_rate_limit`: the key afterwards and `(allowed, retry_after)`, or
`none` when the call raises. -/
def checkRateLimit (capacityRpm : ℤ) (now : ℚ) (key : Option Bucket) :
    Option Bucket × Option (Bool × ℤ) :=
  let capacity : ℚ := capacityRpm
  let refillRate : ℚ := capacityRpm / 60
  let (stored, reply) := tokenBucketLua capacity refillRate now 1 key
  match reply with
  | .allowed => (stored, some (true, 0))
  | .denied => (stored, if refillRate = 0 then none else some (false, ⌈1 / refillRate⌉))
  | .error => (stored, none)

/-- How an evaluation at a given time sees the stored key. -/
abbrev View := ℚ → Option Bucket → Option Bucket

/-- The view of a server that never expires the key. -/
def unexpired : View := fun _ stored => stored

/-- The key before evaluation `n` of a sequence at the times `t`, the key being
absent at first. -/
def storedBefore (view : View) (capacityRpm : ℤ) (t : ℕ → ℚ) : ℕ → Option Bucket
  | 0 => none
  | n + 1 =>
      (checkRateLimit capacityRpm (t n) (view (t n) (storedBefore view capacityRpm t n))).1

/-- Whether evaluation `n` of the sequence is allowed. -/
def allowed (view : View) (capacityRpm : ℤ) (t : ℕ → ℚ) (n : ℕ) : Bool :=
  (checkRateLimit capacityRpm (t n) (view (t n) (storedBefore view capacityRpm t n))).2.any
    Prod.fst

/-- Whatever the capacity, a bucket fills within a minute, and the key lives
one second longer than that. -/
theorem expireSeconds_of_ne {capacityRpm : ℤ} (h : capacityRpm ≠ 0) :
    expireSeconds capacityRpm (capacityRpm / 60) = some 61 := by
  have hCapacity : (capacityRpm : ℚ) ≠ 0 := Int.cast_ne_zero.mpr h
  have hRate : (capacityRpm : ℚ) / 60 ≠ 0 := div_ne_zero hCapacity (by norm_num)
  have hQuotient : (capacityRpm : ℚ) / (capacityRpm / 60) = (60 : ℤ) := by
    field_simp
    norm_num
  rw [expireSeconds, if_neg hRate, hQuotient, Int.ceil_intCast]
  rfl

section Spec

variable {capacityRpm : ℤ} (hCapacity : 1 ≤ capacityRpm)

include hCapacity

theorem refillRate_pos : (0 : ℚ) < capacityRpm / 60 := by
  have h : (0 : ℚ) < capacityRpm := by exact_mod_cast hCapacity
  positivity

theorem expireSeconds_eq : expireSeconds capacityRpm (capacityRpm / 60) = some 61 :=
  expireSeconds_of_ne (by omega)

/-- One evaluation, for a positive capacity: the level after the refill decides,
and both branches store what is left and renew the expiry. -/
theorem checkRateLimit_eq (now : ℚ) (key : Option Bucket) :
    checkRateLimit capacityRpm now key =
      (some ⟨TokenBucket.spend (newTokens capacityRpm (capacityRpm / 60) now key), now,
          some (now + 61)⟩,
        if 1 ≤ newTokens capacityRpm (capacityRpm / 60) now key then some (true, 0)
        else some (false, ⌈1 / ((capacityRpm : ℚ) / 60)⌉)) := by
  have hRate := (refillRate_pos hCapacity).ne'
  delta checkRateLimit
  simp only [tokenBucketLua, expireSeconds_eq hCapacity, storeAndExpire, TokenBucket.spend]
  split_ifs with h <;> simp_all

theorem allowed_iff (view : View) (t : ℕ → ℚ) (n : ℕ) :
    allowed view capacityRpm t n ↔
      1 ≤ newTokens capacityRpm (capacityRpm / 60) (t n)
        (view (t n) (storedBefore view capacityRpm t n)) := by
  rw [allowed, checkRateLimit_eq hCapacity]
  split_ifs with h <;> simp [h]

end Spec

end Gateway.Middleware.RateLimit
