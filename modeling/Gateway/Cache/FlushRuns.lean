import Gateway.Cache.Flush
import Gateway.Semantics.Transition

/-! `flush_vendor` and `flush_all` of `gateway/cache/response_cache.py`, any number
of them at once, next to other clients of the Redis. Between the SCAN and DEL
commands of one call keys come and go, and other calls delete the same keys. -/
namespace Gateway.Cache.FlushRuns

open Transition Glob Text

inductive Flush where
  | all
  | vendor (slug : String)
  deriving DecidableEq

/-- The pattern of `flush_all`, or of `flush_vendor`. -/
def Flush.pattern : Flush → String
  | .all => "cache:*"
  | .vendor slug => vendorPattern slug

deriving instance DecidableEq for ScanReply

/-- Where a call waits in `_delete_by_pattern`. -/
inductive Pc where
  | idle
  | scanning (flush : Flush) (deleted : ℕ)
  | deleting (flush : Flush) (reply : ScanReply) (deleted : ℕ)
  | returned (flush : Flush) (deleted : ℕ)
  | raised (flush : Flush)
  deriving DecidableEq

structure State where
  keys : Finset String
  calls : ℕ → Pc

/-- Other clients store and remove keys; expiry removes them too. A DEL that
raises may have been executed. -/
inductive Event where
  | stored (k : String)
  | removed (k : String)
  | call (f : ℕ) (flush : Flush)
  | scanned (f : ℕ) (reply : ScanReply)
  | deleted (f : ℕ)
  | raise (f : ℕ) (executed : Bool)

/-- The end of the loop. -/
def nextPage (flush : Flush) (cursor deleted : ℕ) : Pc :=
  if cursor = 0 then .returned flush deleted else .scanning flush deleted

def afterScan (flush : Flush) (reply : ScanReply) (deleted : ℕ) : Pc :=
  if reply.keys = [] then nextPage flush reply.cursor deleted else .deleting flush reply deleted

def State.goto (s : State) (f : ℕ) (pc : Pc) : State :=
  { s with calls := Function.update s.calls f pc }

def State.without (s : State) (names : List String) : State :=
  { s with keys := (delete s.keys names).1 }

section Machine

variable (value : UInt8 → ℤ)

/-- A page of SCAN lists keys that are there and match. -/
def State.Scans (s : State) (flush : Flush) (reply : ScanReply) : Prop :=
  ∀ k ∈ reply.keys, k ∈ s.keys ∧ globMatches value flush.pattern k = true

instance (s : State) (flush : Flush) (reply : ScanReply) : Decidable (s.Scans value flush reply) :=
  List.decidableBAll (fun k => k ∈ s.keys ∧ globMatches value flush.pattern k = true) reply.keys

def step (s : State) : Event → Option State
  | .stored k => some { s with keys := insert k s.keys }
  | .removed k => some { s with keys := s.keys.erase k }
  | .call f flush =>
      match s.calls f with
      | .idle => some (s.goto f (.scanning flush 0))
      | _ => none
  | .scanned f reply =>
      match s.calls f with
      | .scanning flush deleted =>
          if s.Scans value flush reply then some (s.goto f (afterScan flush reply deleted)) else none
      | _ => none
  | .deleted f =>
      match s.calls f with
      | .deleting flush reply deleted =>
          some ((s.without reply.keys).goto f
            (nextPage flush reply.cursor (deleted + (delete s.keys reply.keys).2)))
      | _ => none
  | .raise f executed =>
      match s.calls f with
      | .scanning flush _ => some (s.goto f (.raised flush))
      | .deleting flush reply _ =>
          some ((if executed then s.without reply.keys else s).goto f (.raised flush))
      | _ => none

/-- `keys` are there at the beginning. -/
def machine (keys : Finset String) : System State Event where
  init s := s.keys = keys ∧ ∀ f, s.calls f = .idle
  step := step value

end Machine

section Effects

/-- The keys that an event stores. -/
def Event.gained : Event → Finset String
  | .stored k => {k}
  | _ => ∅

/-- The keys that a client other than the flushes removes. -/
def Event.removes : Event → Finset String
  | .removed k => {k}
  | _ => ∅

/-- The page of the DEL that a call waits for. -/
def Pc.page : Pc → Finset String
  | .deleting _ reply _ => reply.keys.toFinset
  | _ => ∅

/-- The keys that an event takes away, if they are there. -/
def State.lost (s : State) : Event → Finset String
  | .removed k => {k}
  | .deleted f | .raise f true => (s.calls f).page
  | _ => ∅

/-- The call that an event is about. -/
def Event.caller : Event → Option ℕ
  | .call f _ | .scanned f _ | .deleted f | .raise f _ => some f
  | .stored _ | .removed _ => none

variable {value : UInt8 → ℤ} {s t : State} {e : Event}

theorem keys_without (s : State) (names : List String) :
    (s.without names).keys = s.keys \ names.toFinset := rfl

@[simp] theorem keys_goto (s : State) (f : ℕ) (pc : Pc) : (s.goto f pc).keys = s.keys := rfl

/-- What a step does to the keys. -/
theorem keys_step (next : step value s e = some t) : t.keys = (s.keys ∪ e.gained) \ s.lost e := by
  cases e with
  | stored k =>
      cases next
      simp [Event.gained, State.lost]
  | removed k =>
      cases next
      simp [Event.gained, State.lost, Finset.sdiff_singleton_eq_erase]
  | call f flush =>
      simp only [step] at next
      split at next
      · cases next
        simp [Event.gained, State.lost]
      · cases next
  | scanned f reply =>
      simp only [step] at next
      split at next
      · split_ifs at next
        cases next
        simp [Event.gained, State.lost]
      · cases next
  | deleted f =>
      simp only [step] at next
      split at next
      next hPc =>
        cases next
        simp [Event.gained, State.lost, hPc, Pc.page, keys_without]
      · cases next
  | raise f executed =>
      simp only [step] at next
      split at next
      next hPc =>
        cases next
        cases executed <;> simp [Event.gained, State.lost, hPc, Pc.page]
      next hPc =>
        cases next
        cases executed <;> simp [Event.gained, State.lost, hPc, Pc.page, keys_without]
      · cases next

/-- A step moves only the call that it is about. -/
theorem calls_step (next : step value s e = some t) {g : ℕ} (hOther : e.caller ≠ some g) :
    t.calls g = s.calls g := by
  have hGoto {u : State} {f : ℕ} {pc : Pc} (hNe : f ≠ g) : (u.goto f pc).calls g = u.calls g :=
    Function.update_of_ne (Ne.symm hNe) _ _
  cases e with
  | stored k | removed k =>
      cases next
      rfl
  | call f flush =>
      have hNe : f ≠ g := fun h => hOther (congrArg some h)
      simp only [step] at next
      split at next <;> cases next
      exact hGoto hNe
  | scanned f reply =>
      have hNe : f ≠ g := fun h => hOther (congrArg some h)
      simp only [step] at next
      split at next
      · split_ifs at next
        cases next
        exact hGoto hNe
      · cases next
  | deleted f =>
      have hNe : f ≠ g := fun h => hOther (congrArg some h)
      simp only [step] at next
      split at next <;> cases next
      exact hGoto hNe
  | raise f executed =>
      have hNe : f ≠ g := fun h => hOther (congrArg some h)
      simp only [step] at next
      split at next <;> cases next
      · exact hGoto hNe
      · cases executed <;> exact hGoto hNe

end Effects

section History

/-- History of a call: the keys that have been there ever since it began, those
stored since then, and those that its pages have listed. -/
structure Watch where
  steady : Finset String
  stored : Finset String
  listed : Finset String

/-- What a step adds to the history of the call `g`. -/
def watch (s : State) (e : Event) (w : Watch) (g : ℕ) : Watch :=
  match e with
  | .call f _ => if g = f then ⟨s.keys, ∅, ∅⟩ else w
  | .scanned f reply => if g = f then { w with listed := w.listed ∪ reply.keys.toFinset } else w
  | e => { w with steady := w.steady \ s.lost e, stored := w.stored ∪ e.gained }

def watched (value : UInt8 → ℤ) (keys : Finset String) : System (State × (ℕ → Watch)) Event :=
  (machine value keys).withHistory (fun _ => ⟨∅, ∅, ∅⟩) fun s e w g => watch s e (w g) g

/-- The guarantee of SCAN: when an iteration ends, its pages have listed every key
that matches and was there all the time. -/
def Complete (value : UInt8 → ℤ) (p : State × (ℕ → Watch)) : Event → Prop
  | .scanned f reply =>
      match p.1.calls f with
      | .scanning flush _ => reply.cursor = 0 → ∀ k ∈ (p.2 f).steady,
          globMatches value flush.pattern k = true → k ∈ (p.2 f).listed ∪ reply.keys.toFinset
      | _ => True
  | _ => True

instance (value : UInt8 → ℤ) (p : State × (ℕ → Watch)) (e : Event) : Decidable (Complete value p e) := by
  unfold Complete
  split
  · split <;> infer_instance
  · infer_instance

variable {value : UInt8 → ℤ} {s t : State} {e : Event} {w : Watch}

/-- A call and its pages: what they have listed is deleted or on the page that DEL
is waiting for, and at the end of the scan nothing else matches. -/
def Progress (value : UInt8 → ℤ) (w : Watch) : Pc → Prop
  | .idle | .raised _ => True
  | .scanning _ _ => Disjoint w.listed w.steady
  | .deleting flush reply _ =>
      (∀ k ∈ w.listed, k ∈ w.steady → k ∈ reply.keys) ∧
      (reply.cursor = 0 → ∀ k ∈ w.steady, globMatches value flush.pattern k = true → k ∈ reply.keys)
  | .returned flush _ => ∀ k ∈ w.steady, globMatches value flush.pattern k = false

theorem Progress.lose {pc : Pc} (h : Progress value w pc) (names stored : Finset String) :
    Progress value { w with steady := w.steady \ names, stored := stored } pc := by
  have hSub : ∀ k ∈ w.steady \ names, k ∈ w.steady := fun k hk => (Finset.mem_sdiff.mp hk).1
  cases pc with
  | idle | raised flush => trivial
  | scanning flush deleted => exact Finset.disjoint_of_subset_right (Finset.sdiff_subset) h
  | deleting flush reply deleted =>
      exact ⟨fun k hListed hk => h.1 k hListed (hSub k hk), fun hLast k hk => h.2 hLast k (hSub k hk)⟩
  | returned flush deleted => exact fun k hk => h k (hSub k hk)

/-- After the page has been deleted. -/
theorem progress_nextPage {flush : Flush} {reply : ScanReply} {deleted : ℕ} (deleted' : ℕ)
    (h : Progress value w (.deleting flush reply deleted)) (stored : Finset String) :
    Progress value { w with steady := w.steady \ reply.keys.toFinset, stored := stored }
      (nextPage flush reply.cursor deleted') := by
  unfold nextPage
  split_ifs with hLast
  · intro k hk
    obtain ⟨hSteady, hNot⟩ := Finset.mem_sdiff.mp hk
    rw [← Bool.not_eq_true]
    exact fun hMatch => hNot (List.mem_toFinset.mpr (h.2 hLast k hSteady hMatch))
  · refine Finset.disjoint_left.mpr fun k hListed hk => ?_
    obtain ⟨hSteady, hNot⟩ := Finset.mem_sdiff.mp hk
    exact hNot (List.mem_toFinset.mpr (h.1 k hListed hSteady))

/-- After a page has been listed. -/
theorem progress_afterScan {flush : Flush} {reply : ScanReply} {deleted : ℕ}
    (h : Progress value w (.scanning flush deleted))
    (hComplete : reply.cursor = 0 → ∀ k ∈ w.steady, globMatches value flush.pattern k = true →
      k ∈ w.listed ∪ reply.keys.toFinset) :
    Progress value { w with listed := w.listed ∪ reply.keys.toFinset }
      (afterScan flush reply deleted) := by
  have hOnPage : ∀ k ∈ w.listed ∪ reply.keys.toFinset, k ∈ w.steady → k ∈ reply.keys := by
    intro k hk hSteady
    rcases Finset.mem_union.mp hk with hListed | hNew
    · exact absurd hSteady (Finset.disjoint_left.mp h hListed)
    · exact List.mem_toFinset.mp hNew
  unfold afterScan
  split_ifs with hEmpty
  · unfold nextPage
    split_ifs with hLast
    · intro k hSteady
      rw [← Bool.not_eq_true]
      intro hMatch
      have hPage := hOnPage k (hComplete hLast k hSteady hMatch) hSteady
      rw [hEmpty] at hPage
      cases hPage
    · refine Finset.disjoint_left.mpr fun k hk hSteady => ?_
      have hPage := hOnPage k hk hSteady
      rw [hEmpty] at hPage
      cases hPage
  · exact ⟨hOnPage, fun hLast k hSteady hMatch => hOnPage k (hComplete hLast k hSteady hMatch) hSteady⟩

/-- A call that has begun has seen every key arrive or found it there. -/
structure Followed (value : UInt8 → ℤ) (s : State) (w : Watch) (pc : Pc) : Prop where
  known : pc ≠ .idle → s.keys ⊆ w.steady ∪ w.stored
  progress : Progress value w pc

/-- A step of another client or another call. -/
theorem Followed.other {pc : Pc} {g : ℕ} (h : Followed value s w pc) (hOther : e.caller ≠ some g)
    (next : step value s e = some t) : Followed value t (watch s e w g) pc := by
  have hKeys := keys_step next
  have hLose : Followed value t { w with steady := w.steady \ s.lost e, stored := w.stored ∪ e.gained } pc := by
    refine ⟨fun hBegun k hk => ?_, h.progress.lose _ _⟩
    rw [hKeys, Finset.mem_sdiff, Finset.mem_union] at hk
    have hKnown : k ∈ s.keys → k ∈ w.steady ∨ k ∈ w.stored := fun h' =>
      Finset.mem_union.mp (h.known hBegun h')
    simp only [Finset.mem_union, Finset.mem_sdiff]
    tauto
  have hSame (hNone : e.gained = ∅ ∧ s.lost e = ∅) : Followed value t w pc := by
    simpa [hNone] using hLose
  cases e with
  | call f flush =>
      rw [watch, if_neg fun hg => hOther (congrArg some hg.symm)]
      exact hSame ⟨rfl, rfl⟩
  | scanned f reply =>
      rw [watch, if_neg fun hg => hOther (congrArg some hg.symm)]
      exact hSame ⟨rfl, rfl⟩
  | stored k | removed k | deleted f | raise f executed => exact hLose

/-- A step of the call itself. -/
theorem Followed.own {g : ℕ} (h : Followed value s w (s.calls g)) (hOwn : e.caller = some g)
    (hScan : ∀ reply, e = .scanned g reply → reply.cursor = 0 → ∀ flush deleted,
      s.calls g = .scanning flush deleted → ∀ k ∈ w.steady,
        globMatches value flush.pattern k = true → k ∈ w.listed ∪ reply.keys.toFinset)
    (next : step value s e = some t) : Followed value t (watch s e w g) (t.calls g) := by
  have hGoto {u : State} {pc : Pc} : (u.goto g pc).calls g = pc := Function.update_self g _ _
  have hKnown {names : Finset String} (hBegun : s.calls g ≠ .idle) :
      s.keys \ names ⊆ w.steady \ names ∪ w.stored := by
    intro k hk
    have hSeen := Finset.mem_union.mp (h.known hBegun (Finset.mem_sdiff.mp hk).1)
    simp only [Finset.mem_union, Finset.mem_sdiff] at hk ⊢
    tauto
  have hProgress := h.progress
  cases e with
  | stored k | removed k => cases hOwn
  | call f flush =>
      obtain rfl := Option.some.inj hOwn
      simp only [step] at next
      split at next <;> cases next
      rw [watch, if_pos rfl, hGoto]
      exact ⟨fun _ => Finset.subset_union_left, Finset.disjoint_empty_left _⟩
  | scanned f reply =>
      obtain rfl := Option.some.inj hOwn
      simp only [step] at next
      split at next
      next flush deleted hPc =>
        split_ifs at next
        cases next
        rw [watch, if_pos rfl, hGoto]
        have hBegun : s.calls f ≠ .idle := by simp [hPc]
        rw [hPc] at hProgress
        exact ⟨fun _ => h.known hBegun, progress_afterScan hProgress
          fun hLast => hScan reply rfl hLast flush deleted hPc⟩
      next => cases next
  | deleted f =>
      obtain rfl := Option.some.inj hOwn
      simp only [step] at next
      split at next
      next flush reply deleted hPc =>
        cases next
        have hBegun : s.calls f ≠ .idle := by simp [hPc]
        rw [hPc] at hProgress
        rw [hGoto]
        simp only [watch, State.lost, hPc, Pc.page, Event.gained, Finset.union_empty]
        exact ⟨fun _ => hKnown hBegun, progress_nextPage _ hProgress _⟩
      next => cases next
  | raise f executed =>
      obtain rfl := Option.some.inj hOwn
      have hPc : s.calls f ≠ .idle ∧ ∃ flush, t.calls f = .raised flush := by
        simp only [step] at next
        split at next
        next flush deleted hPc =>
          cases next
          exact ⟨by simp [hPc], flush, hGoto⟩
        next flush reply deleted hPc =>
          cases next
          exact ⟨by simp [hPc], flush, hGoto⟩
        · cases next
      obtain ⟨hBegun, flush, hRaised⟩ := hPc
      rw [hRaised]
      refine ⟨fun _ => ?_, trivial⟩
      rw [keys_step next]
      simpa [watch, Event.gained] using @hKnown (s.lost (.raise f executed)) hBegun

/-- Every call is followed, in every run. -/
theorem followed {keys : Finset String} {p : State × (ℕ → Watch)}
    (run : (watched value keys).Reaches (Complete value) p) (g : ℕ) :
    Followed value p.1 (p.2 g) (p.1.calls g) := by
  induction run with
  | init start =>
      have hIdle := start.1.2 g
      rw [hIdle]
      exact ⟨fun h => absurd rfl h, trivial⟩
  | @step p q e _ hAllowed next ih =>
      obtain ⟨hStep, hRecord⟩ := System.withHistory_step next
      rw [hRecord]
      by_cases hOwn : e.caller = some g
      · refine ih.own hOwn ?_ hStep
        rintro reply rfl hLast flush deleted hPc
        simp only [Complete, hPc] at hAllowed
        exact hAllowed hLast
      · rw [calls_step hStep hOwn]
        exact ih.other hOwn hStep

end History

section Patterns

variable {value : UInt8 → ℤ} {sha256 : Sha256} {flush : Flush} {k : String}

/-- A pattern that begins with bytes that stand for themselves. -/
theorem prefix_of_globMatches {before after : String}
    (hSimple : ∀ b ∈ utf8 before, ¬Elastic b) (hQuestion : question ∉ utf8 before)
    (hMatch : globMatches value (before ++ after) k = true) : utf8 before <+: utf8 k := by
  rw [globMatches, utf8_append, List.length_append, parse_simple hSimple,
    accepts_simple hQuestion] at hMatch
  obtain ⟨rest, hSplit, -⟩ := hMatch
  exact ⟨rest, hSplit.symm⟩

theorem simple_cache : (∀ b ∈ utf8 "cache:", ¬Elastic b) ∧ question ∉ utf8 "cache:" := by
  decide +kernel

/-- A flush is about keys that begin as those of cached responses do. -/
theorem begins_of_globMatches (hMatch : globMatches value flush.pattern k = true) :
    utf8 "cache:" <+: utf8 k := by
  have hPattern : ∃ rest, flush.pattern = "cache:" ++ rest := by
    cases flush with
    | all => exact ⟨"*", by decide +kernel⟩
    | vendor slug => exact ⟨slug ++ ":*", by simp [Flush.pattern, vendorPattern, String.append_assoc]⟩
  obtain ⟨rest, hRest⟩ := hPattern
  rw [hRest] at hMatch
  exact prefix_of_globMatches simple_cache.1 simple_cache.2 hMatch

/-- The cached responses that a flush is for. -/
def Flush.Covers (args : KeyArgs) : Flush → Prop
  | .all => True
  | .vendor slug => Plain slug ∧ args.vendorSlug = slug

theorem Flush.Covers.matches {args : KeyArgs} (h : flush.Covers args) :
    globMatches value flush.pattern (args.cacheKey sha256) = true := by
  cases flush with
  | all =>
      have hPattern : Flush.all.pattern = "cache:" ++ "*" := by decide +kernel
      have hKey : args.cacheKey sha256 = "cache:" ++ (args.vendorSlug ++ ":" ++
          (strip '/' args.endpointPath ++ ":" ++ sha256.hexdigest args.data)) := by
        simp [cacheKey_eq, vendorPrefix, String.append_assoc]
      rw [hPattern, hKey, globMatches, utf8_append, List.length_append, parse_simple simple_cache.1,
        accepts_simple simple_cache.2, utf8_append]
      exact ⟨_, rfl, accepts_star_nil⟩
  | vendor slug =>
      obtain ⟨hPlain, rfl⟩ := h
      exact (globMatches_of_plain hPlain).mpr (prefix_cacheKey args)

end Patterns

section Completeness

variable {value : UInt8 → ℤ} {sha256 : Sha256} {keys : Finset String} {p : State × (ℕ → Watch)}

/-- Whatever other clients and other flushes do in between: when a flush has returned,
every cached response that it is for and that is still there was stored after the
flush began. -/
theorem flush_leaves_only_new (run : (watched value keys).Reaches (Complete value) p) {f : ℕ}
    {flush : Flush} {deleted : ℕ} (hReturned : p.1.calls f = .returned flush deleted)
    {args : KeyArgs} (hCovers : flush.Covers args) (hThere : args.cacheKey sha256 ∈ p.1.keys) :
    args.cacheKey sha256 ∈ (p.2 f).stored := by
  have hFollowed := followed run f
  rw [hReturned] at hFollowed
  rcases Finset.mem_union.mp (hFollowed.known (by simp) hThere) with hSteady | hStored
  · have hNot : globMatches value flush.pattern (args.cacheKey sha256) = false :=
      hFollowed.progress _ hSteady
    rw [hCovers.matches] at hNot
    cases hNot
  · exact hStored

/-- The key of the only cached response in the samples. -/
def sampleKey : String := (bareArgs "v").cacheKey countingSha256

/-- Two flushes list the same response, which comes back after each of their DELs. -/
def sampleRun : List Event :=
  [.call 0 .all, .call 1 (.vendor "v"), .scanned 0 ⟨0, [sampleKey]⟩, .scanned 1 ⟨7, []⟩,
    .scanned 1 ⟨0, [sampleKey]⟩, .deleted 0, .stored sampleKey, .deleted 1, .stored sampleKey]

theorem flush_leaves_only_new_sample :
    ∃ p, (watched (fun c => c.toNat) {sampleKey}).Reaches (Complete fun c => c.toNat) p ∧
      p.1.calls 1 = .returned (.vendor "v") 1 ∧ sampleKey ∈ p.1.keys ∧ sampleKey ∈ (p.2 1).stored := by
  have start : (watched (fun c => c.toNat) {sampleKey}).Reaches (Complete fun c => c.toNat)
      (⟨{sampleKey}, fun _ => .idle⟩, fun _ => ⟨∅, ∅, ∅⟩) := .init ⟨⟨rfl, fun _ => rfl⟩, rfl⟩
  have hCheck : ((watched (fun c => c.toNat) {sampleKey}).exec (Complete fun c => c.toNat)
      (⟨{sampleKey}, fun _ => .idle⟩, fun _ => ⟨∅, ∅, ∅⟩) sampleRun).any (fun p =>
        decide (p.1.calls 1 = .returned (.vendor "v") 1 ∧ sampleKey ∈ p.1.keys)) = true := by
    decide +kernel
  obtain ⟨p, run, hEnd⟩ := start.exec_any hCheck
  obtain ⟨hReturned, hThere⟩ := of_decide_eq_true hEnd
  have hPlain : Plain "v" := by simp [Plain, globSpecial]
  exact ⟨p, run, hReturned, hThere, flush_leaves_only_new run hReturned ⟨hPlain, rfl⟩ hThere⟩

end Completeness

section Accounts

/-- What is known of the keys besides: those that clients put there and have not
removed, how many keys were new when they were stored, and how many are gone
without a flush that reports them. -/
structure Books where
  owned : Finset String
  arrivals : ℕ
  losses : ℕ

/-- The number that a call has counted up to now. -/
def Pc.counted : Pc → ℕ
  | .scanning _ deleted | .deleting _ _ deleted | .returned _ deleted => deleted
  | .idle | .raised _ => 0

def Pc.flush? : Pc → Option Flush
  | .scanning flush _ | .deleting flush _ _ | .returned flush _ | .raised flush => some flush
  | .idle => none

/-- What a call that raises does not report. -/
def State.unreported (s : State) : Event → ℕ
  | .raise f executed =>
      (s.calls f).counted + if executed then (s.keys ∩ (s.calls f).page).card else 0
  | _ => 0

def book (s : State) (e : Event) (b : Books) : Books where
  owned := (b.owned ∪ e.gained) \ e.removes
  arrivals := b.arrivals + (e.gained \ s.keys).card
  losses := b.losses + (s.keys ∩ e.removes).card + s.unreported e

def booked (value : UInt8 → ℤ) (keys : Finset String) : System (State × Books) Event :=
  (machine value keys).withHistory ⟨keys, 0, 0⟩ book

variable {value : UInt8 → ℤ} {s t : State} {e : Event}

theorem card_step (next : step value s e = some t) :
    t.keys.card + (s.keys ∩ s.lost e).card = s.keys.card + (e.gained \ s.keys).card := by
  have hEither : e.gained = ∅ ∨ s.lost e = ∅ := by
    cases e with
    | stored k => exact Or.inr rfl
    | _ => exact Or.inl rfl
  rw [keys_step next]
  rcases hEither with hNone | hNone
  · rw [hNone, Finset.union_empty, Finset.empty_sdiff, Finset.card_empty, Nat.add_zero,
      Finset.card_sdiff_add_card_inter]
  · rw [hNone, Finset.sdiff_empty, Finset.inter_empty, Finset.card_empty, Nat.add_zero,
      ← Finset.union_sdiff_self_eq_union, Finset.card_union_of_disjoint Finset.disjoint_sdiff]

/-- What a call takes away it counts, until it raises. -/
theorem counted_step {f : ℕ} (hCaller : e.caller = some f) (next : step value s e = some t) :
    (t.calls f).counted + s.unreported e = (s.calls f).counted + (s.keys ∩ s.lost e).card := by
  have hGoto {u : State} {pc : Pc} : (u.goto f pc).calls f = pc := Function.update_self f _ _
  have hPage (flush : Flush) (cursor deleted : ℕ) : (nextPage flush cursor deleted).counted = deleted := by
    unfold nextPage
    split_ifs <;> rfl
  cases e with
  | stored k | removed k => cases hCaller
  | call f' flush =>
      obtain rfl := Option.some.inj hCaller
      simp only [step] at next
      split at next
      next hPc =>
        cases next
        simp [hGoto, hPc, Pc.counted, State.unreported, State.lost]
      next => cases next
  | scanned f' reply =>
      obtain rfl := Option.some.inj hCaller
      simp only [step] at next
      split at next
      next flush deleted hPc =>
        split_ifs at next
        cases next
        have hAfter : (afterScan flush reply deleted).counted = deleted := by
          unfold afterScan
          split_ifs
          · exact hPage _ _ _
          · rfl
        rw [hGoto, hAfter, hPc]
        simp [Pc.counted, State.unreported, State.lost]
      next => cases next
  | deleted f' =>
      obtain rfl := Option.some.inj hCaller
      simp only [step] at next
      split at next
      next flush reply deleted hPc =>
        cases next
        rw [hGoto, hPage, hPc]
        simp [Pc.counted, State.unreported, State.lost, hPc, Pc.page, delete]
      next => cases next
  | raise f' executed =>
      obtain rfl := Option.some.inj hCaller
      have hRaised : (t.calls f').counted = 0 := by
        simp only [step] at next
        split at next <;> cases next <;> exact congrArg Pc.counted hGoto
      rw [hRaised]
      cases executed <;> simp [State.unreported, State.lost]

theorem flush_nextPage (flush : Flush) (cursor deleted : ℕ) :
    (nextPage flush cursor deleted).flush? = some flush := by
  unfold nextPage
  split_ifs <;> rfl

theorem flush_afterScan (flush : Flush) (reply : ScanReply) (deleted : ℕ) :
    (afterScan flush reply deleted).flush? = some flush := by
  unfold afterScan
  split_ifs
  · exact flush_nextPage _ _ _
  · rfl

/-- A call goes on with the flush that it began with. -/
theorem flush_step {f : ℕ} (hCaller : e.caller = some f) (next : step value s e = some t) :
    ∃ flush, (t.calls f).flush? = some flush ∧
      ∀ flush', (s.calls f).flush? = some flush' → flush' = flush := by
  have hGoto {u : State} {pc : Pc} : (u.goto f pc).calls f = pc := Function.update_self f _ _
  have hKeep {flush : Flush} {pc : Pc} (hPc : pc.flush? = some flush) :
      ∀ flush', pc.flush? = some flush' → flush' = flush := fun flush' h =>
    Option.some.inj (h.symm.trans hPc)
  cases e with
  | stored k | removed k => cases hCaller
  | call f' flush =>
      obtain rfl := Option.some.inj hCaller
      simp only [step] at next
      split at next
      next hPc =>
        cases next
        refine ⟨flush, congrArg Pc.flush? hGoto, fun flush' h => ?_⟩
        rw [hPc] at h
        cases h
      next => cases next
  | scanned f' reply =>
      obtain rfl := Option.some.inj hCaller
      simp only [step] at next
      split at next
      next flush deleted hPc =>
        split_ifs at next
        cases next
        rw [hGoto, hPc]
        exact ⟨flush, flush_afterScan _ _ _, hKeep rfl⟩
      next => cases next
  | deleted f' =>
      obtain rfl := Option.some.inj hCaller
      simp only [step] at next
      split at next
      next flush reply deleted hPc =>
        cases next
        rw [hGoto, hPc]
        exact ⟨flush, flush_nextPage _ _ _, hKeep rfl⟩
      next => cases next
  | raise f' executed =>
      obtain rfl := Option.some.inj hCaller
      simp only [step] at next
      split at next
      next flush deleted hPc =>
        cases next
        rw [hGoto, hPc]
        exact ⟨flush, rfl, hKeep rfl⟩
      next flush reply deleted hPc =>
        cases next
        rw [hGoto, hPc]
        exact ⟨flush, rfl, hKeep rfl⟩
      next => cases next

/-- The calls that have begun are among `T`. -/
def Begun (s : State) (T : Finset ℕ) : Prop := ∀ f, s.calls f ≠ .idle → f ∈ T

/-- The numbers of all calls together. -/
theorem sum_counted_step {T : Finset ℕ} (hBegun : Begun t T) (next : step value s e = some t) :
    ∑ f ∈ T, (t.calls f).counted + (s.keys ∩ e.removes).card + s.unreported e =
      ∑ f ∈ T, (s.calls f).counted + (s.keys ∩ s.lost e).card := by
  cases hCaller : e.caller with
  | none =>
      have hSame : ∀ f ∈ T, (t.calls f).counted = (s.calls f).counted := by
        intro f _
        rw [calls_step next (by rw [hCaller]; exact Option.some_ne_none f ∘ Eq.symm)]
      rw [Finset.sum_congr rfl hSame]
      cases e with
      | stored k | removed k => simp [Event.removes, State.lost, State.unreported]
      | _ => cases hCaller
  | some f =>
      have hOwn := counted_step hCaller next
      have hRemoves : e.removes = ∅ := by
        cases e with
        | removed k => cases hCaller
        | _ => rfl
      have hSame : ∀ g ∈ T.erase f, (t.calls g).counted = (s.calls g).counted := by
        intro g hg
        have hOther : e.caller ≠ some g := by
          rw [hCaller]
          exact fun h => Finset.ne_of_mem_erase hg (Option.some.inj h).symm
        rw [calls_step next hOther]
      have hMem : f ∈ T := by
        obtain ⟨flush, hFlush, -⟩ := flush_step hCaller next
        refine hBegun f fun hIdle => ?_
        rw [hIdle] at hFlush
        cases hFlush
      rw [← Finset.add_sum_erase T _ hMem, ← Finset.add_sum_erase T (fun g => (s.calls g).counted) hMem,
        Finset.sum_congr rfl hSame, hRemoves, Finset.inter_empty, Finset.card_empty]
      omega

theorem Begun.before {T : Finset ℕ} (hBegun : Begun t T) (next : step value s e = some t) :
    Begun s T := by
  intro f hPc
  refine hBegun f ?_
  by_cases hCaller : e.caller = some f
  · obtain ⟨flush, hFlush, -⟩ := flush_step hCaller next
    intro hIdle
    rw [hIdle] at hFlush
    cases hFlush
  · rw [calls_step next hCaller]
    exact hPc

/-- Some call, now or before, was for a flush that matches the key. -/
def Flushed (value : UInt8 → ℤ) (s : State) (k : String) : Prop :=
  ∃ f flush, (s.calls f).flush? = some flush ∧ globMatches value flush.pattern k = true

theorem Flushed.step {k : String} (h : Flushed value s k) (next : step value s e = some t) :
    Flushed value t k := by
  obtain ⟨f, flush, hFlush, hMatch⟩ := h
  refine ⟨f, flush, ?_, hMatch⟩
  by_cases hCaller : e.caller = some f
  · obtain ⟨flush', hFlush', hSame⟩ := flush_step hCaller next
    rw [hSame flush hFlush]
    exact hFlush'
  · rw [calls_step next hCaller]
    exact hFlush

/-- The pages that wait for DEL match. -/
def PagesMatch (value : UInt8 → ℤ) (s : State) : Prop :=
  ∀ f flush reply deleted, s.calls f = .deleting flush reply deleted →
    ∀ k ∈ reply.keys, globMatches value flush.pattern k = true

theorem pagesMatch_step (h : PagesMatch value s) (next : step value s e = some t) :
    PagesMatch value t := by
  intro f flush reply deleted hPc
  by_cases hCaller : e.caller = some f
  · have hGoto {u : State} {pc : Pc} : (u.goto f pc).calls f = pc := Function.update_self f _ _
    have hPage (flush' : Flush) (cursor deleted' : ℕ) :
        nextPage flush' cursor deleted' ≠ .deleting flush reply deleted := by
      unfold nextPage
      split_ifs <;> simp
    cases e with
    | stored k | removed k => cases hCaller
    | call f' flush' =>
        obtain rfl := Option.some.inj hCaller
        simp only [FlushRuns.step] at next
        split at next <;> cases next
        cases hGoto.symm.trans hPc
    | scanned f' reply' =>
        obtain rfl := Option.some.inj hCaller
        simp only [FlushRuns.step] at next
        split at next
        next flush' deleted' _ =>
          split_ifs at next with hScans
          cases next
          have hAfter := hGoto.symm.trans hPc
          unfold afterScan at hAfter
          split_ifs at hAfter
          · exact absurd hAfter (hPage _ _ _)
          · cases hAfter
            exact fun k hk => (hScans k hk).2
        next => cases next
    | deleted f' =>
        obtain rfl := Option.some.inj hCaller
        simp only [FlushRuns.step] at next
        split at next <;> cases next
        exact absurd (hGoto.symm.trans hPc) (hPage _ _ _)
    | raise f' executed =>
        obtain rfl := Option.some.inj hCaller
        simp only [FlushRuns.step] at next
        split at next <;> cases next <;> cases hGoto.symm.trans hPc
  · rw [calls_step next hCaller] at hPc
    exact h f flush reply deleted hPc

/-- What an event takes away, clients remove or a flush matches. -/
theorem lost_matches (h : PagesMatch value s) {k : String} (hLost : k ∈ s.lost e) :
    k ∈ e.removes ∨ Flushed value s k := by
  have hPage (f : ℕ) (hk : k ∈ (s.calls f).page) : Flushed value s k := by
    cases hPc : s.calls f with
    | deleting flush reply deleted =>
        rw [hPc] at hk
        exact ⟨f, flush, congrArg Pc.flush? hPc, h f flush reply deleted hPc k (List.mem_toFinset.mp hk)⟩
    | _ =>
        rw [hPc] at hk
        cases hk
  cases e with
  | removed k' => exact Or.inl hLost
  | deleted f => exact Or.inr (hPage f hLost)
  | raise f executed =>
      cases executed with
      | true => exact Or.inr (hPage f hLost)
      | false => cases hLost
  | _ => cases hLost

/-- The books of a run. -/
structure Balanced (value : UInt8 → ℤ) (keys : Finset String) (p : State × Books) : Prop where
  pages : PagesMatch value p.1
  kept : ∀ k ∈ p.2.owned, k ∈ p.1.keys ∨ Flushed value p.1 k
  counts : ∀ T, Begun p.1 T →
    p.1.keys.card + ∑ f ∈ T, (p.1.calls f).counted + p.2.losses = keys.card + p.2.arrivals

theorem Balanced.step {keys : Finset String} {b : Books} (h : Balanced value keys (s, b))
    (next : FlushRuns.step value s e = some t) : Balanced value keys (t, book s e b) where
  pages := pagesMatch_step h.pages next
  kept := by
    intro k hk
    obtain ⟨hOwned, hNot⟩ := Finset.mem_sdiff.mp hk
    show k ∈ t.keys ∨ Flushed value t k
    by_cases hLost : k ∈ s.lost e
    · exact Or.inr (((lost_matches h.pages hLost).resolve_left hNot).step next)
    · rw [keys_step next, Finset.mem_sdiff, Finset.mem_union]
      rcases Finset.mem_union.mp hOwned with hBefore | hGained
      · exact (h.kept k hBefore).imp (fun hThere => ⟨Or.inl hThere, hLost⟩) fun hFlushed => hFlushed.step next
      · exact Or.inl ⟨Or.inr hGained, hLost⟩
  counts := by
    intro T (hBegun : Begun t T)
    have hBefore : s.keys.card + ∑ f ∈ T, (s.calls f).counted + b.losses =
        keys.card + b.arrivals := h.counts T (hBegun.before next)
    have hKeys := card_step next
    have hSum := sum_counted_step hBegun next
    show t.keys.card + ∑ f ∈ T, (t.calls f).counted +
      (b.losses + (s.keys ∩ e.removes).card + s.unreported e) =
        keys.card + (b.arrivals + (e.gained \ s.keys).card)
    omega

theorem balanced {keys : Finset String} {p : State × Books}
    (run : (booked value keys).Reaches System.anyRun p) : Balanced value keys p := by
  refine System.Reaches.invariant_history ?_ (fun s b t e h _ next => h.step next) run
  rintro s ⟨hKeys, hIdle⟩
  refine ⟨fun f flush reply deleted hPc => ?_, fun k hk => Or.inl ?_, fun T _ => ?_⟩
  · rw [hIdle f] at hPc
    cases hPc
  · exact hKeys ▸ hk
  · simp [hKeys, hIdle, Pc.counted]

/-- Whatever SCAN lists and whatever fails: a key that clients have put there and not
removed is there, unless it is of a cached response and matches the pattern of some
flush that was called. And the numbers that the flushes report add up: each key that
was there or arrived is still there, or lost, or counted by one call. -/
theorem flush_accounts {sha256 : Sha256} {keys : Finset String} {p : State × Books}
    (run : (booked value keys).Reaches System.anyRun p) :
    (∀ key : GatewayKey, key.text sha256 ∈ p.2.owned → key.text sha256 ∉ p.1.keys →
      (∃ args, key = .cache args) ∧ ∃ f flush, (p.1.calls f).flush? = some flush ∧
        globMatches value flush.pattern (key.text sha256) = true ∧
          ∀ slug, flush = .vendor slug → Plain slug →
            utf8 (vendorPrefix slug) <+: utf8 (key.text sha256)) ∧
    ∀ T, Begun p.1 T →
      p.1.keys.card + ∑ f ∈ T, (p.1.calls f).counted + p.2.losses = keys.card + p.2.arrivals := by
  have h := balanced run
  refine ⟨fun key hOwned hGone => ?_, h.counts⟩
  obtain ⟨f, flush, hFlush, hMatch⟩ := (h.kept _ hOwned).resolve_left hGone
  refine ⟨cache_of_begins (begins_of_globMatches hMatch), f, flush, hFlush, hMatch, ?_⟩
  rintro slug rfl hPlain
  exact (globMatches_of_plain hPlain).mp hMatch

def regionalKey : String := regionalArgs.cacheKey countingSha256

/-- A flush of the vendor "v" whose DEL is executed and raises, with the response of
"v:eu" on its page. -/
def crossingRun : List Event :=
  [.call 0 (.vendor "v"), .scanned 0 ⟨0, [regionalKey]⟩, .raise 0 true]

/-- In the sample run two flushes count the same response, which arrived again; in the
other one a response of another vendor is gone and nobody reports it. -/
theorem flush_accounts_sample :
    (∃ p, (booked (fun c => c.toNat) {sampleKey}).Reaches System.anyRun p ∧
      (p.1.calls 0).counted = 1 ∧ (p.1.calls 1).counted = 1 ∧
      ∀ T, Begun p.1 T → p.1.keys.card + ∑ f ∈ T, (p.1.calls f).counted + p.2.losses = 1 + 2) ∧
    ∃ p, (booked (fun c => c.toNat) {regionalKey}).Reaches System.anyRun p ∧ p.2.losses = 1 ∧
      ∃ f flush, (p.1.calls f).flush? = some flush ∧
        globMatches (fun c => c.toNat) flush.pattern regionalKey = true := by
  constructor
  · have start : (booked (fun c => c.toNat) {sampleKey}).Reaches System.anyRun
        (⟨{sampleKey}, fun _ => .idle⟩, ⟨{sampleKey}, 0, 0⟩) := .init ⟨⟨rfl, fun _ => rfl⟩, rfl⟩
    have hCheck : ((booked (fun c => c.toNat) {sampleKey}).exec System.anyRun
        (⟨{sampleKey}, fun _ => .idle⟩, ⟨{sampleKey}, 0, 0⟩) sampleRun).any (fun p =>
          decide ((p.1.calls 0).counted = 1 ∧ (p.1.calls 1).counted = 1 ∧ p.2.arrivals = 2)) =
            true := by
      decide +kernel
    obtain ⟨p, run, hEnd⟩ := start.exec_any hCheck
    obtain ⟨hFirst, hSecond, hArrivals⟩ := of_decide_eq_true hEnd
    have hAccounts := (@flush_accounts _ countingSha256 _ _ run).2
    rw [Finset.card_singleton, hArrivals] at hAccounts
    exact ⟨p, run, hFirst, hSecond, hAccounts⟩
  · have start : (booked (fun c => c.toNat) {regionalKey}).Reaches System.anyRun
        (⟨{regionalKey}, fun _ => .idle⟩, ⟨{regionalKey}, 0, 0⟩) := .init ⟨⟨rfl, fun _ => rfl⟩, rfl⟩
    have hCheck : ((booked (fun c => c.toNat) {regionalKey}).exec System.anyRun
        (⟨{regionalKey}, fun _ => .idle⟩, ⟨{regionalKey}, 0, 0⟩) crossingRun).any (fun p =>
          decide (p.2.losses = 1 ∧ regionalKey ∈ p.2.owned ∧ regionalKey ∉ p.1.keys)) = true := by
      decide +kernel
    obtain ⟨p, run, hEnd⟩ := start.exec_any hCheck
    obtain ⟨hLosses, hOwned, hGone⟩ := of_decide_eq_true hEnd
    obtain ⟨-, f, flush, hFlush, hMatch, -⟩ :=
      (flush_accounts run).1 (.cache regionalArgs) hOwned hGone
    exact ⟨p, run, hLosses, f, flush, hFlush, hMatch⟩

end Accounts

end Gateway.Cache.FlushRuns
