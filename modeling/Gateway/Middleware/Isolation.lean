import Gateway.Middleware.Reconfiguration
import Gateway.Semantics.Noninterference
import Mathlib.Tactic.IntervalCases

/-! Who can use up whose limit. All limits share one Redis: the middleware has a key
for each vendor, and `check_user_rate_limit` one for each user and one for each user
and vendor. -/
namespace Gateway.Middleware.Isolation

open RateLimit Reconfiguration

/-- The clock may be set to any reading. -/
inductive Event where
  | clock (now : ℚ)
  | reload (limits : String → Option ℤ)
  | dispatch (path : String) (delivery : Delivery)
  | checkUser (userSub path : String) (first second : Delivery)

/-- The answer of a limit of this scope, if it refuses. -/
def refusal (scope : String) : Option (Bool × ℤ) → Option Refusal
  | some (false, retryAfter) => some ⟨scope, retryAfter⟩
  | _ => none

section Machine

variable (L : Limits)

/-- `RateLimitMiddleware.dispatch` up to `call_next`. -/
def dispatch (s : State) (path : String) (delivery : Delivery) : State × Option Refusal :=
  match extractVendorSlug path with
  | none => (s, none)
  | some slug =>
      let result := attempt delivery (s.limit L.vendorRpm slug) s.now (vendorKey slug) s.buckets
      ({ s with buckets := result.1 }, refusal "vendor" result.2)

/-- The second half of `check_user_rate_limit`. -/
def checkUserVendor (s : State) (userSub path : String) (delivery : Delivery) :
    State × Option Refusal :=
  match extractVendorSlug path with
  | none => (s, none)
  | some slug =>
      let result := attempt delivery L.userRpm s.now (userVendorKey userSub slug) s.buckets
      ({ s with buckets := result.1 }, refusal "user_vendor" result.2)

/-- `check_user_rate_limit`; an exception ends it. -/
def checkUser (s : State) (userSub path : String) (first second : Delivery) :
    State × Option Refusal :=
  let result := attempt first L.userRpm s.now (userKey userSub) s.buckets
  let s' := { s with buckets := result.1 }
  match result.2 with
  | some (true, _) => checkUserVendor L s' userSub path second
  | answer => (s', refusal "user" answer)

/-- A step, and for a check the refusal or that it lets the request pass. -/
def step (s : State) : Event → State × Option (Option Refusal)
  | .clock now => ({ s with now := now }, none)
  | .reload limits => ({ s with limits := limits }, none)
  | .dispatch path delivery => (dispatch L s path delivery).map id some
  | .checkUser userSub path first second => (checkUser L s userSub path first second).map id some

/-- With a Redis that answers these are the functions of the wired application. -/
theorem checkUser_answered (s : State) (request : Routes.Inbound) :
    checkUser L s request.userSub (L.urlPath request) .answered .answered =
      ({ s with buckets := (checkUserRateLimit L s.now request s.buckets).1 },
        (checkUserRateLimit L s.now request s.buckets).2) := by
  unfold checkUser checkUserRateLimit
  simp only [attempt]
  rcases evaluate L.userRpm s.now (userKey request.userSub) s.buckets with ⟨buckets, answer⟩
  rcases answer with _ | ⟨_ | _, _⟩
  · rfl
  · rfl
  · simp only [checkUserVendor]
    cases extractVendorSlug (L.urlPath request) with
    | none => rfl
    | some slug =>
        simp only [attempt]
        rcases evaluate L.userRpm s.now (userVendorKey request.userSub slug) buckets with
          ⟨buckets', answer'⟩
        rcases answer' with _ | ⟨_ | _, _⟩ <;> rfl

theorem dispatch_answered (D : Routes.Deployment) (s : State) (request : Routes.Inbound)
    (hLimits : s.limits = fun slug => (D.registry slug).map L.rateLimitRpm) :
    dispatch L s (L.urlPath request) .answered =
      ({ s with buckets := (Middleware.dispatch D L s.now request s.buckets).1 },
        (Middleware.dispatch D L s.now request s.buckets).2) := by
  unfold dispatch Middleware.dispatch
  cases extractVendorSlug (L.urlPath request) with
  | none => rfl
  | some slug =>
      simp only [attempt, State.limit, hLimits]
      rcases evaluate (((D.registry slug).map L.rateLimitRpm).getD L.vendorRpm) s.now (vendorKey slug)
        s.buckets with ⟨buckets, answer⟩
      rcases answer with _ | ⟨_ | _, _⟩ <;> rfl

end Machine

/-- Whom a limit is for. -/
inductive Subject where
  | vendor (slug : String)
  | user (userSub : String)

/-- The checks that are made for the subject. -/
def Subject.owns : Subject → Event → Bool
  | .vendor slug, .dispatch path _ => decide (extractVendorSlug path = some slug)
  | .user userSub, .checkUser userSub' _ _ _ => decide (userSub' = userSub)
  | _, _ => false

/-- These, the readings of the clock and the reloads. -/
def Subject.sees (subject : Subject) : Event → Bool
  | .clock _ | .reload _ => true
  | e => subject.owns e

/-- The keys of the limits of the subject. -/
def Subject.Uses : Subject → String → Prop
  | .vendor slug, key => key = vendorKey slug
  | .user userSub, key => key = userKey userSub ∨ ∃ slug, key = userVendorKey userSub slug

/-- Neither id goes on after the other with ":vendor". -/
def Apart (userSub userSub' : String) : Prop :=
  ¬(userSub ++ ":vendor").toList <+: userSub'.toList ∧
    ¬(userSub' ++ ":vendor").toList <+: userSub.toList

/-- A user whose checks come between those of the subject is apart from it. -/
def Subject.Hidden : Subject → Event → Prop
  | .user userSub, .checkUser userSub' _ _ _ => Apart userSub userSub'
  | _, _ => True

section Keys

/-- What follows the id in a key of a user. -/
def UserTail (tail : List Char) : Prop := tail = [] ∨ ∃ slug : String, tail = ":vendor:".toList ++ slug.toList

theorem userTail_of_uses {userSub key : String} (h : (Subject.user userSub).Uses key) :
    ∃ tail, UserTail tail ∧ key.toList = "rl:user:".toList ++ (userSub.toList ++ tail) := by
  rcases h with rfl | ⟨slug, rfl⟩
  · exact ⟨[], Or.inl rfl, by simp [userKey]⟩
  · exact ⟨_, Or.inr ⟨slug, rfl⟩, by simp [userVendorKey]⟩

/-- Two tails that overlap do so in whole. -/
theorem vendor_begins {w tail tail' : List Char} (hw : w ≠ []) (hTail : UserTail tail)
    (hTail' : UserTail tail') (h : tail = w ++ tail') : ":vendor".toList <+: w := by
  rcases hTail with rfl | ⟨slug, rfl⟩
  · exact absurd (List.append_eq_nil_iff.mp h.symm).1 hw
  · have hLong : ":vendor".toList <+: ":vendor:".toList ++ slug.toList := ⟨':' :: slug.toList, by simp⟩
    have hShort : w <+: ":vendor:".toList ++ slug.toList := ⟨tail', h.symm⟩
    rcases List.prefix_or_prefix_of_prefix hLong hShort with hDone | hPart
    · exact hDone
    · rcases hTail' with rfl | ⟨slug', rfl⟩
      · rw [List.append_nil] at h
        rw [← h]
        exact hLong
      · -- a shorter beginning is not followed by a colon
        have hTake : w = ":vendor".toList.take w.length := List.prefix_iff_eq_take.mp hPart
        have hLength : w.length ≤ 7 := hPart.length_le
        generalize w.length = n at hTake hLength
        subst hTake
        interval_cases n
        · exact absurd rfl hw
        all_goals first
          | exact List.prefix_refl _
          | simp at h

/-- Users that are apart share no key. -/
theorem not_uses_of_apart {userSub userSub' key : String} (hNe : userSub' ≠ userSub)
    (hApart : Apart userSub userSub') (h' : (Subject.user userSub').Uses key) :
    ¬(Subject.user userSub).Uses key := by
  intro h
  obtain ⟨tail, hTail, hKey⟩ := userTail_of_uses h
  obtain ⟨tail', hTail', hKey'⟩ := userTail_of_uses h'
  have hSplit : userSub.toList ++ tail = userSub'.toList ++ tail' :=
    List.append_cancel_left (hKey.symm.trans hKey')
  have hExtends {ids ids' w : List Char} (hw : ids' = ids ++ w) (hVendor : ":vendor".toList <+: w) :
      ids ++ ":vendor".toList <+: ids' := by
    rw [hw]
    exact (List.prefix_append_right_inj ids).mpr hVendor
  have hProper {w : List Char} {first second : String} (hw : second.toList = first.toList ++ w)
      (hOther : second ≠ first) : w ≠ [] := by
    rintro rfl
    rw [List.append_nil] at hw
    exact hOther (String.toList_injective hw)
  rcases List.append_eq_append_iff.mp hSplit with ⟨w, hw, hRest⟩ | ⟨w, hw, hRest⟩
  · refine hApart.1 ?_
    rw [String.toList_append]
    exact hExtends hw (vendor_begins (hProper hw hNe) hTail hTail' hRest)
  · refine hApart.2 ?_
    rw [String.toList_append]
    exact hExtends hw (vendor_begins (hProper hw (Ne.symm hNe)) hTail' hTail hRest)

/-- Other users may share one. -/
example : userKey "a:vendor:b" = userVendorKey "a" "b" := by decide

/-- The keys of vendors are not those of users. -/
theorem vendorKey_ne {slug userSub key : String} (h : (Subject.user userSub).Uses key) :
    key ≠ vendorKey slug := by
  obtain ⟨tail, -, hKey⟩ := userTail_of_uses h
  intro hSame
  rw [hSame, vendorKey] at hKey
  simp at hKey

end Keys

section Frame

variable {L : Limits} {s t : State} {subject : Subject} {key : String} {capacityRpm : ℤ} {now : ℚ}
  {buckets buckets' : Buckets}

/-- The states look the same to the subject. -/
structure Alike (subject : Subject) (s t : State) : Prop where
  now : s.now = t.now
  limits : s.limits = t.limits
  buckets : ∀ key, subject.Uses key → s.buckets key = t.buckets key

/-- An evaluation leaves the other keys. -/
theorem attempt_other (delivery : Delivery) {other : String} (h : other ≠ key) :
    (attempt delivery capacityRpm now key buckets).1 other = buckets other := by
  cases delivery with
  | answered | unanswered => exact Function.update_of_ne h _ _
  | lost => rfl

/-- An evaluation reads and writes its own key. -/
theorem attempt_same (delivery : Delivery) (h : buckets key = buckets' key) :
    (attempt delivery capacityRpm now key buckets).2 = (attempt delivery capacityRpm now key buckets').2 ∧
      (attempt delivery capacityRpm now key buckets).1 key =
        (attempt delivery capacityRpm now key buckets').1 key := by
  cases delivery with
  | answered | unanswered =>
      simp [attempt, evaluate, h]
  | lost => exact ⟨rfl, h⟩

/-- After an evaluation of one of its keys the states still look the same to the subject. -/
theorem Alike.attempt (h : Alike subject s t) (delivery : Delivery) (capacityRpm : ℤ) (hKey : subject.Uses key) :
    (attempt delivery capacityRpm s.now key s.buckets).2 =
        (attempt delivery capacityRpm t.now key t.buckets).2 ∧
      Alike subject { s with buckets := (Reconfiguration.attempt delivery capacityRpm s.now key s.buckets).1 }
        { t with buckets := (Reconfiguration.attempt delivery capacityRpm t.now key t.buckets).1 } := by
  obtain ⟨hAnswer, hSame⟩ : (Reconfiguration.attempt delivery capacityRpm s.now key s.buckets).2 =
        (Reconfiguration.attempt delivery capacityRpm t.now key t.buckets).2 ∧
      (Reconfiguration.attempt delivery capacityRpm s.now key s.buckets).1 key =
        (Reconfiguration.attempt delivery capacityRpm t.now key t.buckets).1 key := by
    rw [h.now]
    exact attempt_same delivery (h.buckets key hKey)
  refine ⟨hAnswer, h.now, h.limits, fun other hOther => ?_⟩
  by_cases hIs : other = key
  · rw [hIs]
    exact hSame
  · calc (Reconfiguration.attempt delivery capacityRpm s.now key s.buckets).1 other
        = s.buckets other := attempt_other delivery hIs
      _ = t.buckets other := h.buckets other hOther
      _ = (Reconfiguration.attempt delivery capacityRpm t.now key t.buckets).1 other :=
          (attempt_other delivery hIs).symm

/-- An evaluation of a key of others is not seen. -/
theorem Alike.attempt_hidden (h : Alike subject s t) (delivery : Delivery) (capacityRpm : ℤ)
    (hKey : ¬subject.Uses key) :
    Alike subject { s with buckets := (Reconfiguration.attempt delivery capacityRpm s.now key s.buckets).1 } t := by
  refine ⟨h.now, h.limits, fun other hOther => ?_⟩
  have hNe : other ≠ key := fun hIs => hKey (hIs ▸ hOther)
  exact (attempt_other delivery hNe).trans (h.buckets other hOther)

variable {path userSub : String} {delivery first second : Delivery}

theorem Alike.dispatch (h : Alike subject s t)
    (hUses : ∀ slug, extractVendorSlug path = some slug → subject.Uses (vendorKey slug)) :
    Alike subject (dispatch L s path delivery).1 (dispatch L t path delivery).1 ∧
      (Isolation.dispatch L s path delivery).2 = (Isolation.dispatch L t path delivery).2 := by
  unfold Isolation.dispatch
  cases hSlug : extractVendorSlug path with
  | none => exact ⟨h, rfl⟩
  | some slug =>
      have hLimit : s.limit L.vendorRpm slug = t.limit L.vendorRpm slug := by
        rw [State.limit, State.limit, h.limits]
      obtain ⟨hAnswer, hAlike⟩ := h.attempt delivery (t.limit L.vendorRpm slug) (hUses slug hSlug)
      simp only [hLimit]
      exact ⟨hAlike, congrArg (refusal "vendor") hAnswer⟩

theorem Alike.dispatch_hidden (h : Alike subject s t)
    (hUses : ∀ slug, extractVendorSlug path = some slug → ¬subject.Uses (vendorKey slug)) :
    Alike subject (Isolation.dispatch L s path delivery).1 t := by
  unfold Isolation.dispatch
  cases hSlug : extractVendorSlug path with
  | none => exact h
  | some slug => exact h.attempt_hidden delivery _ (hUses slug hSlug)

theorem Alike.checkUser (h : Alike (.user userSub) s t) :
    Alike (.user userSub) (checkUser L s userSub path first second).1
        (checkUser L t userSub path first second).1 ∧
      (Isolation.checkUser L s userSub path first second).2 =
        (Isolation.checkUser L t userSub path first second).2 := by
  have hUser : (Subject.user userSub).Uses (userKey userSub) := Or.inl rfl
  obtain ⟨hAnswer, hAlike⟩ := h.attempt first L.userRpm hUser
  unfold Isolation.checkUser
  simp only [hAnswer]
  split
  · unfold checkUserVendor
    cases hSlug : extractVendorSlug path with
    | none => exact ⟨hAlike, rfl⟩
    | some slug =>
        have hUserVendor : (Subject.user userSub).Uses (userVendorKey userSub slug) := Or.inr ⟨slug, rfl⟩
        obtain ⟨hAnswer', hAlike'⟩ := hAlike.attempt second L.userRpm hUserVendor
        exact ⟨hAlike', congrArg (refusal "user_vendor") hAnswer'⟩
  · exact ⟨hAlike, rfl⟩

theorem Alike.checkUser_hidden (h : Alike subject s t)
    (hUses : ∀ key, (Subject.user userSub).Uses key → ¬subject.Uses key) :
    Alike subject (Isolation.checkUser L s userSub path first second).1 t := by
  have hAlike := h.attempt_hidden first L.userRpm (hUses _ (Or.inl rfl))
  unfold Isolation.checkUser
  simp only
  split
  · unfold checkUserVendor
    cases hSlug : extractVendorSlug path with
    | none => exact hAlike
    | some slug => exact hAlike.attempt_hidden second L.userRpm (hUses _ (Or.inr ⟨slug, rfl⟩))
  · exact hAlike

end Frame

section Isolated

variable {L : Limits} {subject : Subject}

theorem Subject.sees_of_owns {e : Event} (h : subject.owns e = true) : subject.sees e = true := by
  cases e with
  | clock now | reload limits => rfl
  | dispatch path delivery | checkUser userSub path first second => exact h

/-- The events that the subject sees. -/
theorem alike_seen {s t : State} {e : Event} (h : Alike subject s t) (hSees : subject.sees e = true) :
    Alike subject (step L s e).1 (step L t e).1 ∧
      (subject.owns e = true → (step L s e).2 = (step L t e).2) := by
  cases e with
  | clock now => exact ⟨⟨rfl, h.limits, h.buckets⟩, fun _ => rfl⟩
  | reload limits => exact ⟨⟨h.now, rfl, h.buckets⟩, fun _ => rfl⟩
  | dispatch path delivery =>
      cases subject with
      | user userSub => cases hSees
      | vendor slug =>
          have hSlug : extractVendorSlug path = some slug := of_decide_eq_true hSees
          have hUses (slug' : String) (h' : extractVendorSlug path = some slug') :
              (Subject.vendor slug).Uses (vendorKey slug') :=
            congrArg vendorKey (Option.some.inj (h'.symm.trans hSlug))
          exact ⟨(h.dispatch hUses).1, fun _ => congrArg some (h.dispatch hUses).2⟩
  | checkUser userSub' path first second =>
      cases subject with
      | vendor slug => cases hSees
      | user userSub =>
          obtain rfl : userSub' = userSub := of_decide_eq_true hSees
          obtain ⟨hAlike, hAnswer⟩ := h.checkUser
          exact ⟨hAlike, fun _ => congrArg some hAnswer⟩

/-- The events that it does not see. -/
theorem alike_hidden {s t : State} {e : Event} (h : Alike subject s t) (hSees : subject.sees e = false)
    (hHidden : subject.Hidden e) : Alike subject (step L s e).1 t := by
  cases e with
  | clock now | reload limits => cases hSees
  | dispatch path delivery =>
      refine h.dispatch_hidden fun slug' hSlug hUses => ?_
      cases subject with
      | vendor slug =>
          have hNe : extractVendorSlug path ≠ some slug := of_decide_eq_false hSees
          exact hNe (hSlug.trans (congrArg some (vendorKey_injective hUses)))
      | user userSub => exact vendorKey_ne hUses rfl
  | checkUser userSub' path first second =>
      refine h.checkUser_hidden fun key hUses' hUses => ?_
      cases subject with
      | vendor slug => exact vendorKey_ne hUses' hUses
      | user userSub =>
          have hNe : userSub' ≠ userSub := of_decide_eq_false hSees
          exact not_uses_of_apart hNe hHidden hUses' hUses

/-- The answers of the limits of a vendor or a user are those that they would give if
nobody else were there: for a vendor in every run, for a user in every run in which the
ids of the others do not go on after its own, nor its own after theirs, with ":vendor". -/
theorem limits_isolated (L : Limits) (subject : Subject) {es : List Event}
    (hApart : ∀ e ∈ es, subject.sees e = false → subject.Hidden e) (s : State) :
    Noninterference.outputs (step L) subject.owns s es =
      Noninterference.outputs (step L) subject.owns s (es.filter subject.sees) := by
  have hAlike : Alike subject s s := ⟨rfl, rfl, fun _ _ => rfl⟩
  exact Noninterference.outputs_filter (fun _ => Subject.sees_of_owns) (fun _ _ _ => alike_seen)
    (fun _ _ _ => alike_hidden) hApart hAlike

/-- One request a minute for each user and vendor. -/
def sampleLimits : Limits := ⟨1, 1, fun _ => 1, fun _ => "/vendors/v/x"⟩

/-- Two users, one of whom comes back too early. -/
def sampleChecks : List Event :=
  [.checkUser "ann" "/vendors/v/x" .answered .answered,
    .checkUser "bob" "/vendors/v/x" .answered .answered, .dispatch "/vendors/v/x" .answered,
    .clock 1, .checkUser "ann" "/vendors/v/x" .answered .lost]

theorem limits_isolated_sample :
    Noninterference.outputs (step sampleLimits) (Subject.user "ann").owns
      ⟨0, fun _ => none, fun _ => none⟩ sampleChecks = [none, some ⟨"user", 60⟩] := by
  have hApart : ∀ e ∈ sampleChecks, (Subject.user "ann").sees e = false →
      (Subject.user "ann").Hidden e := by
    intro e he hSees
    simp only [sampleChecks, List.mem_cons, List.not_mem_nil, or_false] at he
    rcases he with rfl | rfl | rfl | rfl | rfl
    · cases hSees
    · show Apart "ann" "bob"
      unfold Apart
      decide +kernel
    · trivial
    · cases hSees
    · cases hSees
  rw [limits_isolated sampleLimits (.user "ann") hApart]
  decide +kernel

end Isolated

end Gateway.Middleware.Isolation
