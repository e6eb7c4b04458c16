import Gateway.Runs.HardBlock

/-! What becomes of a 2xx answer of the vendor when commands on Redis fail. Only
the increment of the quota is guarded: where the cache, the shared result or the
lock raises instead, the answer is lost, and in part the charge as well. It is also
lost, and charged, where the server library cannot write its headers. -/
namespace Gateway.Routes

open Transition Http Gateway.Cache Gateway.Vendors

/-- History of one request since the 2xx answer to it: whether a quota applies,
the calls of `increment_quota`, whether a command outside of it has raised, and
the steps taken. -/
structure AnswerTrace where
  answer : Option VendorResponse
  limited : Bool
  charges : ℕ
  broken : Bool
  steps : ℕ

def AnswerTrace.start : AnswerTrace := ⟨none, false, 0, false, 0⟩

/-- The commands that `proxy` issues without a guard once it has an answer. -/
def Pc.unguarded : Pc → Bool
  | .setCached _ | .setResult _ | .publish _ | .releaseLock _ => true
  | _ => false

/-- One step of the request. `increment_quota` is called when the PUBLISH has
been answered and a quota applies. -/
def AnswerTrace.after (t : AnswerTrace) (ctx : Ctx) : Pc → Input → AnswerTrace
  | .callVendor, .vendor (.response v) =>
      if success v.statusCode then ⟨some v, ctx.quota.isSome, 0, false, 0⟩ else t
  | .publish _, .reply =>
      { t with charges := t.charges + ctx.quota.isSome.toNat, steps := t.steps + 1 }
  | pc, .raised _ => { t with broken := t.broken || pc.unguarded, steps := t.steps + 1 }
  | _, _ => { t with steps := t.steps + 1 }

/-- How the request leaves its block: with the answer, or with the exception. -/
def AnswerTrace.Leaves (t : AnswerTrace) (v : VendorResponse) (out : Outcome) : Prop :=
  if t.broken then out = .unhandled else out = .relayed v ∧ t.charges = t.limited.toNat

/-- What is still to be done with the answer at each await. -/
def AnswerTrace.Fits (t : AnswerTrace) (v : VendorResponse) : Proc → Prop
  | .running ctx (.setCached f) => f.response = v ∧ t.broken = false ∧ t.charges = 0 ∧
      t.limited = ctx.quota.isSome ∧ t.steps = 0
  | .running ctx (.setResult f) => f.response = v ∧ t.broken = false ∧ t.charges = 0 ∧
      t.limited = ctx.quota.isSome ∧ t.steps ≤ 1
  | .running ctx (.publish f) => f.response = v ∧ t.broken = false ∧ t.charges = 0 ∧
      t.limited = ctx.quota.isSome ∧ t.steps ≤ 2
  | .running _ (.incrQuota f _) => f.response = v ∧ t.broken = false ∧
      t.charges = t.limited.toNat ∧ t.steps ≤ 3
  | .running _ (.expireQuota f _ _) => f.response = v ∧ t.broken = false ∧
      t.charges = t.limited.toNat ∧ t.steps ≤ 4
  | .running _ (.releaseLock out) => t.Leaves v out ∧ t.steps ≤ 5
  | .finished _ out => t.Leaves v out ∧ t.steps ≤ 6
  | _ => False

section Steps

variable {D : Deployment} {now : ℚ} {r : ℕ} {s s' : RedisServer} {ctx ctx' : Ctx} {pc pc' : Pc}
  {input : Input} {proc : Proc} {t : AnswerTrace} {v : VendorResponse} {request : Inbound}
  {out : Outcome}

end Steps

section Runs

variable {D : Deployment} {s : State} {h : ℕ → AnswerTrace} {r : ℕ} {v : VendorResponse}

end Runs

section Sample

/-- What the runs below come to: the request has ended with the answer, or without it. -/
def AnswerTrace.ends (t : AnswerTrace) (v : VendorResponse) (broken sent : Bool) (proc : Proc) :
    Bool :=
  decide (t.answer = some v ∧ t.limited = true ∧ t.broken = broken) &&
    match proc with
    | .idle | .running _ _ => false
    | .finished _ out => out.response.isSome == sent

end Sample

end Gateway.Routes
