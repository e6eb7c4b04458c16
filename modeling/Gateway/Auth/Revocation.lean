import Gateway.Auth.PortalTokens
import Gateway.Semantics.Redis
import Gateway.Semantics.Transition
import Mathlib.Algebra.Order.Ring.Rat
import Mathlib.Tactic.Linarith

/-! `PortalTokenValidator.validate` for one token that the portal revokes:
concurrent calls over one Redis server, with the answer of the portal and the
write of the entry as separate steps. -/
namespace Gateway.Auth.Revocation

open Json Gateway.Cache Transition

/-- The token, the settings and the instant from which the portal answers invalid. -/
structure Portal where
  sha256 : Sha256
  token : String
  portalTokenCacheTtl : ℤ
  revokedAt : ℚ

/-- Where a call of `validate` is. -/
inductive Pc where
  | begun
  | asking
  | storing (data : Members) (ex : ℤ) (result : Validation)
  | done (result : Validation)

structure Call where
  beganAt : ℚ
  pc : Pc

structure State where
  now : ℚ
  redis : Redis.Server ℚ String Members ℕ
  calls : ℕ → Option Call

inductive Event where
  | tick (later : ℚ)
  | call (c : ℕ)
  | get (c : ℕ)
  | answer (c : ℕ) (a : HttpAnswer)
  | set (c : ℕ)

namespace Portal

variable (P : Portal)

def key : String := portalCacheKey P.sha256 P.token

/-- A positive answer is given before the revocation, a negative one after it. -/
def mayAnswer (now : ℚ) : HttpAnswer → Bool
  | .response _ (some (.obj data)) => valid data == decide (now < P.revokedAt)
  | _ => true

/-- What a GET makes of the value it reads. -/
def onValue : Redis.Value Members → Validation
  | .text data => onHit data
  | .int _ => .raised

def afterGet (value : Option (Redis.Value Members)) : Pc :=
  match value with
  | some v => .done (onValue v)
  | none => .asking

def afterAnswer (a : HttpAnswer) : Pc :=
  match onAnswer P.portalTokenCacheTtl a with
  | .finish result => .done result
  | .store data ex result => .storing data ex result

def goto (s : State) (c : ℕ) (call : Call) (pc : Pc) : State :=
  { s with calls := Function.update s.calls c (some { call with pc := pc }) }

/-- `SET`, refused when the expiry is not positive. -/
def write (s : State) (c : ℕ) (data : Members) (ex : ℤ) : State :=
  if 0 < ex then { s with redis := s.redis.set P.key (.text data) (some (s.now + ex)) c } else s

def step (s : State) : Event → Option State
  | .tick later => if s.now ≤ later then some { s with now := later } else none
  | .call c =>
      match s.calls c with
      | none => some { s with calls := Function.update s.calls c (some ⟨s.now, .begun⟩) }
      | some _ => none
  | .get c =>
      match s.calls c with
      | some ⟨beganAt, .begun⟩ =>
          some (goto s c ⟨beganAt, .begun⟩ (afterGet (s.redis.get s.now P.key)))
      | _ => none
  | .answer c a =>
      match s.calls c with
      | some ⟨beganAt, .asking⟩ =>
          if P.mayAnswer s.now a then some (goto s c ⟨beganAt, .asking⟩ (P.afterAnswer a))
          else none
      | _ => none
  | .set c =>
      match s.calls c with
      | some ⟨beganAt, .storing data ex result⟩ =>
          some (goto (P.write s c data ex) c ⟨beganAt, .begun⟩
            (.done (Reaction.store data ex result).result))
      | _ => none

def machine : System State Event where
  init s := s.redis = .empty ∧ s.calls = fun _ => none
  step := P.step

/-- The payload that the next write stores, if the step is one. -/
def written (s : State) : Event → Option Members
  | .set c =>
      match s.calls c with
      | some ⟨_, .storing data ex _⟩ => if 0 < ex then some data else none
      | _ => none
  | _ => none

/-- The writes so far, the latest first. -/
def record (s : State) (e : Event) (writes : List Members) : List Members :=
  (written s e).toList ++ writes

/-- The machine with the list of its writes. -/
def recorded : System (State × List Members) Event := P.machine.withHistory [] record

/-- How far a call has come. -/
def stage : Pc → ℕ
  | .begun => 0
  | .asking => 1
  | .storing _ _ _ => 2
  | .done _ => 3

/-- The call can take a step of its own: it comes further, to its end in three steps. -/
def GoesOn (s : State) (c : ℕ) (call : Call) : Prop :=
  ∃ e t pc, P.machine.step s e = some t ∧ t.calls c = some { call with pc := pc } ∧
    stage call.pc < stage pc

/-- Revocation takes effect: a call that begins later than one TTL after it ends, with
`None`, and no positive entry is written after a negative one. -/
structure Effective (p : State × List Members) : Prop where
  bounded : ∀ c call result, p.1.calls c = some call → call.pc = .done result →
    P.revokedAt + P.portalTokenCacheTtl < call.beganAt → result = .none
  ends : ∀ c call, p.1.calls c = some call → (∃ result, call.pc = .done result) ∨
    P.GoesOn p.1 c call
  ordered : p.2.Pairwise fun later earlier => valid later = true → valid earlier = true

/-- The expiry that a step sends is positive, and the answer that it brings can be read. -/
def accepted : Event → Prop
  | .set _ => 0 < P.portalTokenCacheTtl
  | .answer _ a => a.readable = true
  | .tick _ | .call _ | .get _ => True

/-- A positive answer is written before the token is revoked; no call raises. -/
def prompt (p : State × List Members) (e : Event) : Prop :=
  (∀ data ∈ written p.1 e, valid data = true → p.1.now < P.revokedAt) ∧ P.accepted e

/-- What is known of a call at some time. -/
structure Known (now : ℚ) (call : Call) : Prop where
  began : call.beganAt ≤ now
  positive : ∀ data ex result, call.pc = .storing data ex result → valid data = true →
    call.beganAt < P.revokedAt ∧ ex = P.portalTokenCacheTtl
  negative : ∀ data ex result, call.pc = .storing data ex result → valid data = false →
    P.revokedAt ≤ now ∧ ex = min P.portalTokenCacheTtl 10 ∧ result = .none
  returned : ∀ result, call.pc = .done result →
    result = .none ∨ call.beganAt ≤ P.revokedAt + P.portalTokenCacheTtl

structure Invariant (p : State × List Members) : Prop where
  known : ∀ c call, p.1.calls c = some call → P.Known p.1.now call
  entry : ∀ e data, p.1.redis.entries P.key = some e → e.value = .text data → valid data = true →
    ∃ t ≤ P.revokedAt + P.portalTokenCacheTtl, e.expiresAt = some t
  text : ∀ e, p.1.redis.entries P.key = some e → ∃ data, e.value = .text data
  late : ∀ data ∈ p.2, valid data = false → P.revokedAt ≤ p.1.now
  ordered : p.2.Pairwise fun later earlier => valid later = true → valid earlier = true

variable {P}

theorem Known.mono {now later : ℚ} {call : Call} (h : P.Known now call) (hle : now ≤ later) :
    P.Known later call where
  began := h.began.trans hle
  positive := h.positive
  negative := fun data ex result hPc hInvalid =>
    ⟨(h.negative data ex result hPc hInvalid).1.trans hle,
      (h.negative data ex result hPc hInvalid).2⟩
  returned := h.returned

/-- A hit returns a payload only while a positive entry lives. -/
theorem known_afterGet {p : State × List Members} {beganAt : ℚ} (hInv : P.Invariant p)
    (hBegan : beganAt ≤ p.1.now) :
    P.Known p.1.now ⟨beganAt, afterGet (p.1.redis.get p.1.now P.key)⟩ := by
  have hStoring : ∀ data ex result,
      afterGet (p.1.redis.get p.1.now P.key) ≠ .storing data ex result := by
    intro data ex result h
    unfold afterGet at h
    split at h <;> cases h
  refine ⟨hBegan, fun _ _ _ h => absurd h (hStoring _ _ _),
    fun _ _ _ h => absurd h (hStoring _ _ _), ?_⟩
  intro result hPc
  change afterGet (p.1.redis.get p.1.now P.key) = .done result at hPc
  cases hGet : p.1.redis.get p.1.now P.key with
  | none =>
      rw [hGet] at hPc
      cases hPc
  | some value =>
      rw [hGet] at hPc
      obtain rfl : onValue value = result := by simpa [afterGet] using hPc
      obtain ⟨e, hLookup, hValue⟩ := Redis.Server.get_eq_some.mp hGet
      obtain ⟨hEntry, hLive⟩ := Redis.Server.lookup_eq_some.mp hLookup
      obtain ⟨data, hText⟩ := hInv.text e hEntry
      obtain rfl : value = .text data := hValue.symm.trans hText
      cases hValid : valid data with
      | false => exact .inl (by simp [onValue, onHit, hValid])
      | true =>
          obtain ⟨t, hle, hExpires⟩ := hInv.entry e data hEntry hText hValid
          have hNow : p.1.now < t := by simpa [Redis.Entry.live, hExpires] using hLive
          exact .inr ((hBegan.trans hNow.le).trans hle)

/-- A positive answer is given before the revocation, a negative one after it. -/
theorem known_afterAnswer {now beganAt : ℚ} {a : HttpAnswer} (hBegan : beganAt ≤ now)
    (hMay : P.mayAnswer now a = true) (hReadable : a.readable = true) :
    P.Known now ⟨beganAt, P.afterAnswer a⟩ := by
  have hStoring : ∀ data ex result, P.afterAnswer a = .storing data ex result →
      (valid data = true ∧ ex = P.portalTokenCacheTtl ∧ now < P.revokedAt) ∨
        (valid data = false ∧ P.revokedAt ≤ now ∧ ex = min P.portalTokenCacheTtl 10 ∧
          result = .none) := by
    intro data ex result h
    cases hAnswer : onAnswer P.portalTokenCacheTtl a with
    | finish result' => simp [afterAnswer, hAnswer] at h
    | store data' ex' result' =>
        simp only [afterAnswer, hAnswer, Pc.storing.injEq] at h
        obtain ⟨rfl, rfl, rfl⟩ := h
        obtain ⟨statusCode, body, rfl, hCases⟩ := onAnswer_store hAnswer
        have hWhen : valid body = decide (now < P.revokedAt) := by simpa [mayAnswer] using hMay
        rcases hCases with ⟨hValid, rfl, hEx, -⟩ | ⟨hInvalid, rfl, hEx, hResult⟩
        · exact Or.inl ⟨hValid, hEx, by simpa [hValid] using hWhen.symm⟩
        · exact Or.inr ⟨valid_negative, by simpa [hInvalid] using hWhen.symm, hEx, hResult⟩
  refine ⟨hBegan, ?_, ?_, ?_⟩
  · intro data ex result hPc hValid
    rcases hStoring data ex result hPc with ⟨-, hEx, hNow⟩ | ⟨hInvalid, -⟩
    · exact ⟨lt_of_le_of_lt hBegan hNow, hEx⟩
    · rw [hValid] at hInvalid
      cases hInvalid
  · intro data ex result hPc hInvalid
    rcases hStoring data ex result hPc with ⟨hValid, -⟩ | ⟨-, hRest⟩
    · rw [hInvalid] at hValid
      cases hValid
    · exact hRest
  · intro result hPc
    change P.afterAnswer a = .done result at hPc
    cases hAnswer : onAnswer P.portalTokenCacheTtl a with
    | finish result' =>
        obtain rfl : result' = result := by simpa [afterAnswer, hAnswer] using hPc
        exact .inl (onAnswer_readable hReadable hAnswer)
    | store data' ex' result' => simp [afterAnswer, hAnswer] at hPc

/-- A call that has written an entry began before the revocation, or its result is `None`. -/
theorem known_afterSet {now beganAt : ℚ} {data : Members} {ex : ℤ} {result : Validation}
    (h : P.Known now ⟨beganAt, .storing data ex result⟩) (hTtl : 0 < P.portalTokenCacheTtl) :
    P.Known now ⟨beganAt, .done (Reaction.store data ex result).result⟩ := by
  refine ⟨h.began, ?_, ?_, ?_⟩
  · intro _ _ _ hPc
    cases hPc
  · intro _ _ _ hPc
    cases hPc
  intro result' hPc
  obtain rfl : (Reaction.store data ex result).result = result' := Pc.done.inj hPc
  cases hValid : valid data with
  | true =>
      obtain ⟨hBegan, -⟩ := h.positive data ex result rfl hValid
      have hPos : (0 : ℚ) < P.portalTokenCacheTtl := by exact_mod_cast hTtl
      change beganAt < _ at hBegan
      refine .inr ?_
      change beganAt ≤ _
      linarith
  | false =>
      obtain ⟨-, rfl, rfl⟩ := h.negative data ex result rfl hValid
      have hEx : 0 < min P.portalTokenCacheTtl 10 := lt_min hTtl (by norm_num)
      exact .inl (by rw [Reaction.result, if_pos hEx])

theorem known_goto {s : State} {c : ℕ} {call : Call} {pc : Pc}
    (hCalls : ∀ c call, s.calls c = some call → P.Known s.now call)
    (hPc : P.Known s.now { call with pc := pc }) :
    ∀ c' call', (goto s c call pc).calls c' = some call' → P.Known s.now call' := by
  intro c' call' hCall
  by_cases hc : c' = c
  · subst hc
    simp only [goto, Function.update_self, Option.some.injEq] at hCall
    rw [← hCall]
    exact hPc
  · simp only [goto, Function.update_of_ne hc] at hCall
    exact hCalls c' call' hCall

theorem mem_written {s : State} {c : ℕ} {beganAt : ℚ} {data stored : Members} {ex : ℤ}
    {result : Validation} (hCall : s.calls c = some ⟨beganAt, .storing data ex result⟩) :
    stored ∈ written s (.set c) ↔ 0 < ex ∧ stored = data := by
  simp only [written, hCall]
  split_ifs with hEx <;> simp [hEx, eq_comm]

theorem write_now (s : State) (c : ℕ) (data : Members) (ex : ℤ) :
    (P.write s c data ex).now = s.now := by
  unfold write
  split_ifs <;> rfl

theorem write_calls (s : State) (c : ℕ) (data : Members) (ex : ℤ) :
    (P.write s c data ex).calls = s.calls := by
  unfold write
  split_ifs <;> rfl

/-- A step that writes no entry keeps the invariant if it keeps what is known
of the calls. -/
theorem Invariant.quiet {s t : State} {writes : List Members} {e : Event}
    (hInv : P.Invariant (s, writes)) (hQuiet : written s e = none) (hNow : s.now ≤ t.now)
    (hRedis : t.redis = s.redis)
    (hKnown : ∀ c call, t.calls c = some call → P.Known t.now call) :
    P.Invariant (t, record s e writes) := by
  have hWrites : record s e writes = writes := by simp [record, hQuiet]
  rw [hWrites]
  refine ⟨hKnown, ?_, ?_, ?_, hInv.ordered⟩
  · intro entry data hEntry
    rw [hRedis] at hEntry
    exact hInv.entry entry data hEntry
  · intro entry hEntry
    rw [hRedis] at hEntry
    exact hInv.text entry hEntry
  · intro data hData hInvalid
    exact (hInv.late data hData hInvalid).trans hNow

theorem Invariant.late_cons {s : State} {writes : List Members} {c : ℕ} {beganAt : ℚ}
    {data : Members} {ex : ℤ} {result : Validation} (hInv : P.Invariant (s, writes))
    (hCall : s.calls c = some ⟨beganAt, .storing data ex result⟩) :
    ∀ stored ∈ data :: writes, valid stored = false → P.revokedAt ≤ s.now := by
  intro stored hStored hInvalid
  rcases List.mem_cons.mp hStored with rfl | hOld
  · exact ((hInv.known c _ hCall).negative _ ex result rfl hInvalid).1
  · exact hInv.late stored hOld hInvalid

/-- Before the revocation there are only positive writes. -/
theorem Invariant.ordered_cons {s : State} {writes : List Members} {data : Members}
    (hInv : P.Invariant (s, writes)) (hEarly : valid data = true → s.now < P.revokedAt) :
    (data :: writes).Pairwise fun later earlier => valid later = true → valid earlier = true := by
  refine List.pairwise_cons.mpr ⟨?_, hInv.ordered⟩
  intro earlier hEarlier hValid
  cases hOld : valid earlier with
  | true => rfl
  | false =>
      have hLate := hInv.late earlier hEarlier hOld
      exact absurd (hEarly hValid) (not_lt.mpr hLate)

/-- The write of an entry: a positive one is prompt, so it expires one TTL after
the revocation at the latest and no negative entry was written before it. -/
theorem Invariant.set {s : State} {writes : List Members} {c : ℕ} {beganAt : ℚ} {data : Members}
    {ex : ℤ} {result : Validation} (hInv : P.Invariant (s, writes))
    (hCall : s.calls c = some ⟨beganAt, .storing data ex result⟩)
    (hPrompt : P.prompt (s, writes) (.set c)) :
    P.Invariant (goto (P.write s c data ex) c ⟨beganAt, .begun⟩
      (.done (Reaction.store data ex result).result), record s (.set c) writes) := by
  have hPc := hInv.known c _ hCall
  have hKnown : ∀ c' call', (goto (P.write s c data ex) c ⟨beganAt, .begun⟩
      (.done (Reaction.store data ex result).result)).calls c' = some call' →
        P.Known s.now call' := by
    have hNow := write_now (P := P) s c data ex
    rw [← hNow]
    apply known_goto
    · rw [write_calls, hNow]
      exact hInv.known
    · rw [hNow]
      exact known_afterSet hPc hPrompt.2
  by_cases hEx : 0 < ex
  · have hWritten : data ∈ written s (.set c) := (mem_written hCall).mpr ⟨hEx, rfl⟩
    have hWrites : record s (.set c) writes = data :: writes := by
      rw [record, Option.mem_def.mp hWritten]
      rfl
    rw [hWrites]
    have hSelf : ∀ entry, (goto (P.write s c data ex) c ⟨beganAt, .begun⟩
        (.done (Reaction.store data ex result).result)).redis.entries P.key = some entry →
          entry = ⟨.text data, some (s.now + ex), c⟩ := by
      intro entry hEntry
      simpa [goto, write, hEx, eq_comm] using hEntry
    refine ⟨?_, ?_, ?_, ?_, ?_⟩
    · simpa [goto, write_now] using hKnown
    · intro entry stored hEntry hText hValid
      have hSelf := hSelf entry hEntry
      obtain rfl : stored = data := by
        rw [hSelf] at hText
        exact (Redis.Value.text.inj hText).symm
      have hEarly := hPrompt.1 stored hWritten hValid
      have hTtl := (hPc.positive stored ex result rfl hValid).2
      refine ⟨s.now + ex, ?_, by rw [hSelf]⟩
      rw [hTtl]
      linarith
    · intro entry hEntry
      exact ⟨data, by rw [hSelf entry hEntry]⟩
    · have hNow : (goto (P.write s c data ex) c ⟨beganAt, .begun⟩
          (.done (Reaction.store data ex result).result)).now = s.now := by
        simp [goto, write_now]
      simp only [hNow]
      exact hInv.late_cons hCall
    · exact hInv.ordered_cons (hPrompt.1 data hWritten)
  · have hNone : written s (.set c) = none := by
      rw [Option.eq_none_iff_forall_not_mem]
      intro stored hStored
      exact hEx ((mem_written hCall).mp hStored).1
    apply hInv.quiet hNone
    · simp [goto, write_now]
    · simp [goto, write, hEx]
    · simpa [goto, write_now] using hKnown

theorem Invariant.step {p q : State × List Members} {e : Event} (hInv : P.Invariant p)
    (hPrompt : P.prompt p e) (next : P.recorded.step p e = some q) : P.Invariant q := by
  obtain ⟨s, writes⟩ := p
  obtain ⟨t, writes'⟩ := q
  obtain ⟨hStep, rfl⟩ := System.withHistory_step next
  cases e with
  | tick later =>
      simp only [machine, Portal.step] at hStep
      split_ifs at hStep with hLater
      cases hStep
      exact hInv.quiet rfl hLater rfl fun c call hCall => (hInv.known c call hCall).mono hLater
  | call c =>
      simp only [machine, Portal.step] at hStep
      split at hStep
      · cases hStep
        refine hInv.quiet rfl le_rfl rfl ?_
        intro c' call' hCall
        by_cases hc : c' = c
        · subst hc
          obtain rfl : ⟨s.now, .begun⟩ = call' := by simpa using hCall
          exact ⟨le_rfl, by simp, by simp, by simp⟩
        · exact hInv.known c' call' (by simpa [hc] using hCall)
      · cases hStep
  | get c =>
      simp only [machine, Portal.step] at hStep
      split at hStep
      · rename_i beganAt hCall
        cases hStep
        exact hInv.quiet rfl le_rfl rfl
          (known_goto hInv.known (known_afterGet hInv (hInv.known c _ hCall).began))
      · cases hStep
  | answer c a =>
      simp only [machine, Portal.step] at hStep
      split at hStep
      · rename_i beganAt hCall
        split_ifs at hStep with hMay
        cases hStep
        exact hInv.quiet rfl le_rfl rfl
          (known_goto hInv.known (known_afterAnswer (hInv.known c _ hCall).began hMay hPrompt.2))
      · cases hStep
  | set c =>
      simp only [machine, Portal.step] at hStep
      split at hStep
      · rename_i beganAt data ex result hCall
        cases hStep
        exact hInv.set hCall hPrompt
      · cases hStep

/-- A call that has not ended can go on, whatever the portal and Redis hold. -/
theorem goesOn {s : State} {c : ℕ} {call : Call} (hCall : s.calls c = some call) :
    (∃ result, call.pc = .done result) ∨ P.GoesOn s c call := by
  obtain ⟨beganAt, pc⟩ := call
  cases pc with
  | begun =>
      refine .inr ⟨.get c, goto s c ⟨beganAt, .begun⟩ (afterGet (s.redis.get s.now P.key)), _, ?_,
        Function.update_self .., ?_⟩
      · simp only [machine, Portal.step, hCall]
      · unfold afterGet
        split <;> simp [stage]
  | asking =>
      refine .inr ⟨.answer c .transportError, goto s c ⟨beganAt, .asking⟩ (.done .none), _, ?_,
        Function.update_self .., by simp [stage]⟩
      simp only [machine, Portal.step, hCall]
      rfl
  | storing data ex result =>
      refine .inr ⟨.set c, goto (P.write s c data ex) c ⟨beganAt, .begun⟩
        (.done (Reaction.store data ex result).result), _, ?_, Function.update_self ..,
        by simp [stage]⟩
      simp only [machine, Portal.step, hCall]
  | done result => exact .inl ⟨result, rfl⟩

/-- Revocation takes effect within one TTL in every run in which no positive answer is
still to be written when the token is revoked, and no call raises. -/
theorem revocation_effective {p : State × List Members}
    (run : P.recorded.Reaches P.prompt p) : P.Effective p := by
  have hInv : P.Invariant p := by
    refine run.invariant ?_ ?_
    · rintro ⟨s, writes⟩ ⟨⟨hRedis, hCalls⟩, hWrites⟩
      dsimp only at hWrites hRedis hCalls
      subst hWrites
      refine ⟨?_, ?_, ?_, ?_, .nil⟩
      · intro c call hCall
        simp [hCalls] at hCall
      · intro e data hEntry
        simp [hRedis, Redis.Server.empty] at hEntry
      · intro e hEntry
        simp [hRedis, Redis.Server.empty] at hEntry
      · intro data hData
        cases hData
    · intro s t e _ hInv hPrompt next
      exact hInv.step hPrompt next
  refine ⟨?_, fun c call hCall => goesOn hCall, hInv.ordered⟩
  intro c call result hCall hPc hLate
  exact ((hInv.known c call hCall).returned result hPc).resolve_right (not_le.mpr hLate)

end Portal

section Sample

def samplePortal : Portal :=
  ⟨⟨fun _ => String.ofList (List.replicate 64 'a'), fun _ => by rw [String.length_ofList]; rfl⟩,
    "tok_1", 60, 100⟩

/-- The answer for a valid token. -/
def positiveAnswer : HttpAnswer :=
  .response 200 (some (.obj [("valid", .bool true), ("user_id", .str "u1")]))

def negativeAnswer : HttpAnswer := .response 200 (some (.obj negative))

def sampleStart : State × List Members := (⟨0, .empty, fun _ => none⟩, [])

theorem init_sampleStart : samplePortal.recorded.init sampleStart := ⟨⟨rfl, rfl⟩, rfl⟩

/-- Whether a call that began later than one TTL after the revocation returned a payload. -/
def lateAccept (c : ℕ) (p : State × List Members) : Bool :=
  match p.1.calls c with
  | some ⟨beganAt, .done (.payload _)⟩ => decide (160 < beganAt)
  | _ => false

/-- Whether the last write is positive and the one before it negative. -/
def overwritten (p : State × List Members) : Bool :=
  match p.2 with
  | later :: earlier :: _ => valid later && !valid earlier
  | _ => false

/-- A call that was answered before the revocation writes after it: over the
negative entry of a second call, and long enough for a third one. -/
def lateWrite : List Event :=
  [.call 0, .get 0, .tick 99, .answer 0 positiveAnswer, .tick 100, .call 1, .get 1,
    .answer 1 negativeAnswer, .set 1, .tick 101, .set 0, .tick 160.5, .call 2, .get 2]

theorem lateAccept_iff {c : ℕ} {p : State × List Members} :
    lateAccept c p = true ↔ ∃ beganAt data,
      p.1.calls c = some ⟨beganAt, .done (.payload data)⟩ ∧ 160 < beganAt := by
  unfold lateAccept
  split
  · rename_i beganAt data hCall
    simp [hCall]
  · rename_i hOther
    simp only [Bool.false_eq_true, false_iff, not_exists, not_and]
    intro beganAt data hCall
    exact absurd hCall (hOther beganAt data)

/-- A call that begins later than one TTL after the revocation gets the payload,
from an entry that replaced a negative one. -/
theorem revocation_not_effective : ∃ p,
    samplePortal.recorded.Reaches System.anyRun p ∧
      (∃ beganAt data, p.1.calls 2 = some ⟨beganAt, .done (.payload data)⟩ ∧
        samplePortal.revokedAt + samplePortal.portalTokenCacheTtl < beganAt) ∧
      (∃ later earlier rest, p.2 = later :: earlier :: rest ∧ valid later = true ∧
        valid earlier = false) ∧ ¬samplePortal.Effective p := by
  obtain ⟨p, run, hCheck⟩ : ∃ p, samplePortal.recorded.Reaches System.anyRun p ∧
      (lateAccept 2 p && overwritten p) = true :=
    System.Reaches.exec_any (.init init_sampleStart)
      (by decide +kernel : (samplePortal.recorded.exec System.anyRun sampleStart lateWrite).any
        (fun p => lateAccept 2 p && overwritten p) = true)
  obtain ⟨hAccept, hOver⟩ := (Bool.and_eq_true _ _).mp hCheck
  obtain ⟨beganAt, data, hCall, hLate⟩ := lateAccept_iff.mp hAccept
  have hBound : samplePortal.revokedAt + samplePortal.portalTokenCacheTtl < beganAt := by
    have hSum : samplePortal.revokedAt + samplePortal.portalTokenCacheTtl = 160 := by
      change (100 : ℚ) + ((60 : ℤ) : ℚ) = 160
      norm_num
    rw [hSum]
    exact hLate
  refine ⟨p, run, ⟨beganAt, data, hCall, hBound⟩, ?_, ?_⟩
  · unfold overwritten at hOver
    split at hOver
    · rename_i later earlier rest hWrites
      exact ⟨later, earlier, rest, hWrites, by simpa using hOver⟩
    · cases hOver
  · intro hEffective
    cases hEffective.bounded 2 _ (.payload data) hCall rfl hBound

instance (e : Event) : Decidable (samplePortal.accepted e) :=
  match e with
  | .set _ => inferInstanceAs (Decidable (0 < samplePortal.portalTokenCacheTtl))
  | .answer _ a => inferInstanceAs (Decidable (a.readable = true))
  | .tick _ | .call _ | .get _ => isTrue trivial

instance (p : State × List Members) (e : Event) : Decidable (samplePortal.prompt p e) :=
  inferInstanceAs (Decidable ((∀ data ∈ Portal.written p.1 e,
    valid data = true → p.1.now < samplePortal.revokedAt) ∧ samplePortal.accepted e))

/-- The first call writes its positive entry at once; a second one meets it
after the revocation, a third one asks the portal again. -/
def promptWrite : List Event :=
  [.call 0, .get 0, .tick 99, .answer 0 positiveAnswer, .set 0, .tick 158.5, .call 1, .get 1,
    .tick 160.5, .call 2, .get 2, .answer 2 negativeAnswer, .set 2]

/-- The negative entry is the last write and the second call has its payload. -/
def promptDone (p : State × List Members) : Bool :=
  decide (p.2.map valid = [false, true]) &&
    match p.1.calls 1, p.1.calls 2 with
    | some ⟨_, .done (.payload _)⟩, some ⟨_, .done .none⟩ => true
    | _, _ => false

theorem revocation_effective_prompt : ∃ p, promptDone p = true ∧ samplePortal.Effective p := by
  obtain ⟨p, run, hCheck⟩ : ∃ p, samplePortal.recorded.Reaches samplePortal.prompt p ∧
      promptDone p = true :=
    System.Reaches.exec_any (.init init_sampleStart)
      (by decide +kernel : (samplePortal.recorded.exec samplePortal.prompt sampleStart
        promptWrite).any promptDone = true)
  exact ⟨p, hCheck, Portal.revocation_effective (P := samplePortal) run⟩

end Sample

end Gateway.Auth.Revocation
