import Gateway.Cache.Flush
import Gateway.Runs.Sources

/-! Any number of requests next to one call of `flush_vendor`, whose SCAN and DEL
commands fall between theirs. -/
namespace Gateway.Barrier

open Transition Glob Gateway.Cache Gateway.Routes

/-- Where the call of `flush_vendor` waits. -/
inductive FlushPc where
  | idle
  | scanning (deleted : ℕ)
  | deleting (reply : ScanReply) (deleted : ℕ)
  | returned (deleted : ℕ)

def FlushPc.done : FlushPc → Bool
  | .returned _ => true
  | _ => false

/-- The end of the loop of `_delete_by_pattern`. -/
def nextPage (cursor deleted : ℕ) : FlushPc :=
  if cursor = 0 then .returned deleted else .scanning deleted

def afterScan (reply : ScanReply) (deleted : ℕ) : FlushPc :=
  if reply.keys = [] then nextPage reply.cursor deleted else .deleting reply deleted

structure State where
  routes : Routes.State
  flush : FlushPc

inductive Event where
  | proxy (e : Routes.Event)
  | flush
  | scanned (reply : ScanReply)
  | deleted

section Machine

variable (D : Deployment) (value : UInt8 → ℤ) (slug : String)

/-- The key is there at this moment. -/
def State.present (s : State) (k : String) : Bool :=
  (s.routes.redis.lookup s.routes.now k).isSome

/-- A page of SCAN lists keys that are there and match. -/
def State.Scans (s : State) (reply : ScanReply) : Prop :=
  ∀ k ∈ reply.keys, s.present k = true ∧ globMatches value (vendorPattern slug) k = true

instance (s : State) (reply : ScanReply) : Decidable (s.Scans value slug reply) :=
  List.decidableBAll (fun k => s.present k = true ∧ globMatches value (vendorPattern slug) k = true)
    reply.keys

/-- DEL of the keys of a page; its reply is the number of those that were there. -/
def State.deletePage (s : State) (reply : ScanReply) (deleted : ℕ) : State where
  routes := { s.routes with redis := s.routes.redis.delMany reply.keys }
  flush := nextPage reply.cursor
    (deleted + (reply.keys.toFinset.filter fun k => s.present k = true).card)

def machine : System State Event where
  init s := D.machine.init s.routes ∧ s.flush = .idle
  step s
    | .proxy e => (D.machine.step s.routes e).map fun routes => { s with routes := routes }
    | .flush =>
        match s.flush with
        | .idle => some { s with flush := .scanning 0 }
        | _ => none
    | .scanned reply =>
        match s.flush with
        | .scanning deleted =>
            if s.Scans value slug reply then some { s with flush := afterScan reply deleted }
            else none
        | _ => none
    | .deleted =>
        match s.flush with
        | .deleting reply deleted => some (s.deletePage reply deleted)
        | _ => none

/-- The steps of the gateway and of the flush. -/
inductive Step (s : State) : Event → State → Prop where
  | elapse (dt : ℚ) (hdt : 0 ≤ dt) :
      Step s (.proxy (.elapse dt)) ⟨{ s.routes with now := s.routes.now + dt }, s.flush⟩
  | move (r : ℕ) (input : Input) (redis : RedisServer) (proc : Proc)
      (hMove : Move D s.routes.now r s.routes.redis (s.routes.procs r) input redis proc) :
      Step s (.proxy (.deliver r input))
        ⟨⟨s.routes.now, redis, Function.update s.routes.procs r proc⟩, s.flush⟩
  | flush (hIdle : s.flush = .idle) : Step s .flush ⟨s.routes, .scanning 0⟩
  | scanned (reply : ScanReply) (deleted : ℕ) (hScanning : s.flush = .scanning deleted)
      (hScans : s.Scans value slug reply) :
      Step s (.scanned reply) ⟨s.routes, afterScan reply deleted⟩
  | deleted (reply : ScanReply) (deleted : ℕ) (hDeleting : s.flush = .deleting reply deleted) :
      Step s .deleted (s.deletePage reply deleted)

variable {D value slug}

theorem step_cases {s t : State} {e : Event} (next : (machine D value slug).step s e = some t) :
    Step D value slug s e t := by
  cases e with
  | proxy e =>
      obtain ⟨routes, hStep, rfl⟩ := Option.map_eq_some_iff.mp next
      rcases Routes.step_cases hStep with ⟨dt, rfl, hdt, rfl⟩ |
        ⟨r, input, redis, proc, rfl, hMove, rfl⟩
      · exact .elapse dt hdt
      · exact .move r input redis proc hMove
  | flush =>
      simp only [machine] at next
      split at next
      case h_1 hIdle =>
        cases next
        exact .flush hIdle
      case h_2 => cases next
  | scanned reply =>
      simp only [machine] at next
      split at next
      case h_1 deleted hScanning =>
        split_ifs at next with hScans
        cases next
        exact .scanned reply deleted hScanning hScans
      case h_2 => cases next
  | deleted =>
      simp only [machine] at next
      split at next
      case h_1 reply deleted hDeleting =>
        cases next
        exact .deleted reply deleted hDeleting
      case h_2 => cases next

/-- Between two steps of requests a page goes as in `_delete_by_pattern` alone. -/
theorem deletePage_refines {s : State} {reply : ScanReply} {keys : Finset String}
    (hKeys : ∀ k, k ∈ keys ↔
      s.present k = true ∧ globMatches value (vendorPattern slug) k = true)
    (hScans : s.Scans value slug reply) (deleted : ℕ) :
    (s.deletePage reply deleted).flush =
        nextPage reply.cursor (Cache.deletePage keys deleted reply).2 ∧
      ∀ k, k ∈ (Cache.deletePage keys deleted reply).1 ↔
        (s.deletePage reply deleted).present k = true ∧
          globMatches value (vendorPattern slug) k = true := by
  rw [deletePage_eq]
  constructor
  · have hListed : (reply.keys.toFinset.filter fun k => s.present k = true) =
        keys ∩ reply.keys.toFinset := by
      ext k
      rw [Finset.mem_filter, Finset.mem_inter, List.mem_toFinset, hKeys]
      exact ⟨fun h => ⟨hScans k h.1, h.1⟩, fun h => ⟨h.2, h.1.1⟩⟩
    rw [State.deletePage, hListed]
  · intro k
    have hPresent : (s.deletePage reply deleted).present k = true ↔
        k ∉ reply.keys ∧ s.present k = true := by
      simp only [State.present, Option.isSome_iff_exists]
      constructor
      · rintro ⟨entry, hLookup⟩
        obtain ⟨hNew, hBefore⟩ := Redis.Server.lookup_delMany_eq_some.mp hLookup
        exact ⟨hNew, entry, hBefore⟩
      · rintro ⟨hNew, entry, hBefore⟩
        exact ⟨entry, Redis.Server.lookup_delMany_eq_some.mpr ⟨hNew, hBefore⟩⟩
    rw [Finset.mem_sdiff, List.mem_toFinset, hKeys, hPresent, and_comm, and_assoc]

end Machine

section History

variable (D : Deployment) (value : UInt8 → ℤ) (slug : String)

/-- History: the deliveries, the cache keys of the requests, which requests had
got their response when the flush began (`old`), which of these responses are
not there for it to remove (`spared`), and which requests began after it
returned (`later`). Of the keys those that have been there ever since it began
are `kept`, those of its pages are `seen`. -/
structure Watch where
  deliveries : Deliveries
  requested : List String
  old : ℕ → Bool
  spared : ℕ → Bool
  later : ℕ → Bool
  kept : String → Bool
  seen : List String

def Watch.start : Watch :=
  ⟨.start, [], fun _ => false, fun _ => false, fun _ => false, fun _ => false, []⟩

/-- The request has yet to store or to publish its response. -/
def shares : Proc → Bool
  | .running _ pc => pc.fetched.isSome
  | _ => false

/-- The response to this request is still on its way, is kept as a dedup result,
or has a key that the pattern does not match. -/
def spares (s : Routes.State) (x : ℕ) : Bool :=
  shares (s.procs x) || (s.procs x).request?.any fun request =>
    (s.redis.lookup s.now (resultKey (request.dedupKey D))).any (fun entry => entry.writer = x) ||
      !globMatches value (vendorPattern slug) (request.cacheKey D)

def record (s : State) (e : Event) (h : Watch) : Watch :=
  let watched := { h with kept := fun k => h.kept k && s.present k }
  match e with
  | .proxy (.deliver r (.arrive request)) =>
      { watched with
        deliveries := recordDeliveries D s.routes (.deliver r (.arrive request)) h.deliveries
        requested := request.cacheKey D :: h.requested
        later := fun w => h.later w || (decide (w = r) && s.flush.done) }
  | .proxy e => { watched with deliveries := recordDeliveries D s.routes e h.deliveries }
  | .flush =>
      { h with
        old := fun x => (h.deliveries.answer x).isSome
        spared := spares D value slug s.routes
        kept := s.present
        seen := [] }
  | .scanned reply => { watched with seen := reply.keys ++ h.seen }
  | .deleted => watched

def watched : System (State × Watch) Event :=
  (machine D value slug).withHistory .start (record D value slug)

/-- A full iteration of SCAN returns a matching key that was there from its
beginning to its end. This is asked of the keys of requests only. -/
def Complete (p : State × Watch) : Event → Prop
  | .scanned reply => reply.cursor = 0 → ∀ k ∈ p.2.requested, p.2.kept k = true →
      p.1.present k = true → globMatches value (vendorPattern slug) k = true →
        k ∈ p.2.seen ∨ k ∈ reply.keys
  | _ => True

/-- What the flush answers for: it had been received when the flush began, and
was not spared. -/
def Watch.Due (h : Watch) (x : ℕ) : Prop := h.old x = true ∧ h.spared x = false

/-- The flush has yet to delete this key. -/
def FlushPc.Owes (h : Watch) (k : String) : FlushPc → Prop
  | .scanning _ => h.kept k = true ∧ k ∉ h.seen
  | .deleting reply _ => k ∈ reply.keys ∨ reply.cursor ≠ 0 ∧ h.kept k = true ∧ k ∉ h.seen
  | .idle | .returned _ => False

/-- A response that is due is kept only under a key that the flush has yet to
delete, and by requests that began before the flush returned. -/
structure Barred (s : State) (h : Watch) : Prop where
  credited : Credited D s.routes h.deliveries
  requested : ∀ x request, (s.routes.procs x).request? = some request →
    request.cacheKey D ∈ h.requested
  answered : ∀ x, h.old x = true → h.deliveries.answer x ≠ none
  silent : ∀ x, h.Due x → shares (s.routes.procs x) = false
  stored : ∀ x k entry c, h.Due x → s.routes.redis.lookup s.routes.now k = some entry →
    entry.value = .text c → entry.writer = x → k ∈ h.requested ∧
      globMatches value (vendorPattern slug) k = true ∧ s.flush.Owes h k
  unread : ∀ x w c, h.Due x → s.routes.redis.Unread w (.message c x) → h.later w = false
  later : ∀ w, h.later w = true → s.flush.done = true
  found : ∀ w ctx c x, s.routes.procs w = .running ctx (.unsubscribe (.found c)) →
    h.later w = true → h.deliveries.supplier w = some x → ¬h.Due x
  served : ∀ w request outcome c x, s.routes.procs w = .finished request outcome →
    outcome.shared = some c → h.later w = true → h.deliveries.supplier w = some x → ¬h.Due x

end History

section Steps

variable {D : Deployment} {value : UInt8 → ℤ} {slug : String} {s t : State} {h : Watch}
  {r w x : ℕ} {input : Input} {redis : RedisServer} {proc : Proc} {ctx : Ctx} {pc : Pc}
  {k : String} {entry : Redis.Entry ℚ CachedResponse ℕ} {c : CachedResponse} {reply : ScanReply}

theorem present_of_lookup (hLookup : s.routes.redis.lookup s.routes.now k = some entry) :
    s.present k = true := by
  simp [State.present, hLookup]

/-- What is there stays recorded as kept while it is there. -/
theorem kept_record (hKept : h.kept k = true) (hPresent : s.present k = true) (e : Event)
    (hOther : e ≠ .flush) : (record D value slug s e h).kept k = true := by
  unfold record
  split
  case h_3 => exact absurd rfl hOther
  all_goals simp [hKept, hPresent]

/-- A request is recorded as later when it arrives after the flush. -/
theorem later_record (hLater : (record D value slug s (.proxy (.deliver r input)) h).later w = true) :
    h.later w = true ∨
      s.flush.done = true ∧ w = r ∧ ∃ request, input = .arrive request := by
  cases input with
  | arrive request =>
      have hEither : h.later w = true ∨ w = r ∧ s.flush.done = true := by
        simpa [record] using hLater
      rcases hEither with hOld | ⟨hw, hDone⟩
      · exact Or.inl hOld
      · exact Or.inr ⟨hDone, hw, request, rfl⟩
  | _ => exact Or.inl hLater

theorem deliveries_record : (record D value slug s (.proxy (.deliver r input)) h).deliveries =
    recordDeliveries D s.routes (.deliver r input) h.deliveries := by
  cases input <;> rfl

theorem due_record : (record D value slug s (.proxy (.deliver r input)) h).Due x ↔ h.Due x := by
  cases input <;> exact Iff.rfl

/-- What a request that no longer shares has stored was there before the step. -/
theorem lookup_of_move (hCredited : Credited D s.routes h.deliveries)
    (hMove : Move D s.routes.now r s.routes.redis (s.routes.procs r) input redis proc)
    (hLookup : redis.lookup s.routes.now k = some entry) (hText : entry.value = .text c)
    (hSilent : shares (s.routes.procs entry.writer) = false) :
    s.routes.redis.lookup s.routes.now k = some entry := by
  have hEntry := (Redis.Server.lookup_eq_some.mp hLookup).1
  by_cases hWrites : (s.routes.procs r).writes D = some k
  · obtain ⟨f, X, _, _, _, hKey⟩ := stored_credited hCredited hMove hEntry hText
    rcases move_server hMove with hSame | ⟨ctx, pc, p', hProc, _, hReply⟩
    · rw [← hSame]
      exact hLookup
    · rw [hProc] at hWrites
      have hStores : ∃ f, pc = .setCached f ∨ pc = .setResult f := by
        rcases hKey with rfl | rfl
        · obtain ⟨f, hPc⟩ := (writes_cache (X := { ctx with request := X }) hWrites).2
          exact ⟨f, Or.inl hPc⟩
        · obtain ⟨f, hPc⟩ := (writes_result (X := { ctx with request := X }) hWrites).2
          exact ⟨f, Or.inr hPc⟩
      have hWriter : entry.writer = r := by
        obtain ⟨f, rfl | rfl⟩ := hStores
        · obtain ⟨hServer, _⟩ := Prod.mk.inj (Option.some.inj hReply)
          have hOwn : ctx.cacheKey D = k := Option.some.inj hWrites
          rw [← hServer, ← hOwn, Redis.Server.set_entries_self] at hEntry
          exact (congrArg Redis.Entry.writer (Option.some.inj hEntry)).symm
        · obtain ⟨hServer, _⟩ := Prod.mk.inj (Option.some.inj hReply)
          have hOwn : resultKey (ctx.dedupKey D) = k := Option.some.inj hWrites
          rw [← hServer, ← hOwn, Redis.Server.set_entries_self] at hEntry
          exact (congrArg Redis.Entry.writer (Option.some.inj hEntry)).symm
      rw [hWriter, hProc] at hSilent
      obtain ⟨f, rfl | rfl⟩ := hStores <;> cases hSilent
  · rw [← Redis.Server.lookup_congr (move_entries_of_ne hMove hWrites)]
    exact hLookup

/-- What a request was answered with stays, so it is not answered again. -/
theorem silent_move (hBarred : Barred D value slug s h)
    (hMove : Move D s.routes.now r s.routes.redis (s.routes.procs r) input redis proc)
    (hDue : h.Due x) : shares (Function.update s.routes.procs r proc x) = false := by
  by_cases hx : x = r
  · subst hx
    rw [Function.update_self]
    cases proc with
    | idle => rfl
    | finished request outcome => rfl
    | running ctx pc =>
        rcases start_cases hMove with ⟨_, _, _, _, rfl⟩ | ⟨ctx₀, pc₀, hBefore, hFlow⟩
        · rfl
        · cases hFetched : pc.fetched with
          | none => simp [shares, hFetched]
          | some f =>
              rcases (hFlow.fetched hFetched).2 with hOld | ⟨v, rfl, _⟩
              · have hSilent := hBarred.silent x hDue
                rw [hBefore] at hSilent
                simp [shares, hOld] at hSilent
              · have hNone := hBarred.credited.unanswered x (by rw [hBefore]; rfl)
                exact absurd hNone (hBarred.answered x hDue.1)
  · rw [Function.update_of_ne hx]
    exact hBarred.silent x hDue

theorem stored_barred (hBarred : Barred D value slug s h)
    (hMove : Move D s.routes.now r s.routes.redis (s.routes.procs r) input redis proc)
    (hDue : h.Due x) (hLookup : redis.lookup s.routes.now k = some entry)
    (hText : entry.value = .text c) (hWriter : entry.writer = x) :
    s.present k = true ∧ k ∈ h.requested ∧
      globMatches value (vendorPattern slug) k = true ∧ s.flush.Owes h k := by
  have hBefore : s.routes.redis.lookup s.routes.now k = some entry :=
    lookup_of_move hBarred.credited hMove hLookup hText (hWriter ▸ hBarred.silent x hDue)
  exact ⟨present_of_lookup hBefore, hBarred.stored x k entry c hDue hBefore hText hWriter⟩

/-- What is still owed stays owed while its key is there. -/
theorem owes_record {φ : FlushPc} (hOwes : φ.Owes h k) (hPresent : s.present k = true)
    (e : Routes.Event) : φ.Owes (record D value slug s (.proxy e) h) k := by
  have hSeen : (record D value slug s (.proxy e) h).seen = h.seen := by
    cases e with
    | elapse dt => rfl
    | deliver r input => cases input <;> rfl
  cases φ with
  | idle => exact hOwes
  | returned deleted => exact hOwes
  | scanning deleted =>
      exact ⟨kept_record hOwes.1 hPresent (.proxy e) (by simp), hSeen ▸ hOwes.2⟩
  | deleting reply deleted =>
      rcases hOwes with hListed | ⟨hMore, hKept, hNew⟩
      · exact Or.inl hListed
      · exact Or.inr ⟨hMore, kept_record hKept hPresent (.proxy e) (by simp), hSeen ▸ hNew⟩

theorem unread_barred (hBarred : Barred D value slug s h)
    (hMove : Move D s.routes.now r s.routes.redis (s.routes.procs r) input redis proc)
    (hDue : h.Due x) (hUnread : redis.Unread w (.message c x)) :
    (record D value slug s (.proxy (.deliver r input)) h).later w = false := by
  rcases unread_of_move hMove hUnread with hOld | ⟨ctx, f, hPublish, _, rfl, _⟩
  · rw [Bool.eq_false_iff]
    intro hLater
    rcases later_record hLater with hBefore | ⟨_, rfl, request, rfl⟩
    · rw [hBarred.unread x w c hDue hOld] at hBefore
      cases hBefore
    · have hIdle : s.routes.procs w = .idle := by
        generalize s.routes.procs w = before at hMove
        cases hMove
        rfl
      obtain ⟨sub, hSub, _⟩ := hOld
      rw [hBarred.credited.trace.idle w hIdle] at hSub
      cases hSub
  · have hSilent := hBarred.silent x hDue
    rw [hPublish] at hSilent
    cases hSilent

/-- Once the flush has returned, nothing that is due is there to be read. -/
theorem not_due_of_lookup (hBarred : Barred D value slug s h) (hLater : h.later w = true)
    (hLookup : s.routes.redis.lookup s.routes.now k = some entry) (hText : entry.value = .text c) :
    ¬h.Due entry.writer := by
  intro hDue
  have hOwes := (hBarred.stored _ k entry c hDue hLookup hText rfl).2.2
  have hDone := hBarred.later w hLater
  cases hFlush : s.flush with
  | returned deleted =>
      rw [hFlush] at hOwes
      exact hOwes
  | _ =>
      rw [hFlush] at hDone
      cases hDone

theorem found_barred (hBarred : Barred D value slug s h)
    (hMove : Move D s.routes.now r s.routes.redis (s.routes.procs r) input redis
      (.running ctx (.unsubscribe (.found c))))
    (hLater : (record D value slug s (.proxy (.deliver r input)) h).later r = true)
    (hSupplier : (recordDeliveries D s.routes (.deliver r input) h.deliveries).supplier r = some x) :
    ¬h.Due x := by
  obtain ⟨rfl, pc, y, _, hCredit, hSource⟩ := supplier_of_found (h := h.deliveries) hMove
  obtain rfl := Option.some.inj (hCredit.symm.trans hSupplier)
  rcases hSource with ⟨entry, hLookup, hText, rfl⟩ | hUnread
  · exact not_due_of_lookup hBarred hLater hLookup hText
  · intro hDue
    have hEarlier := hBarred.unread y r c hDue hUnread
    rw [show h.later r = true from hLater] at hEarlier
    cases hEarlier

theorem served_barred (hBarred : Barred D value slug s h) {request : Inbound} {outcome : Outcome}
    (hMove : Move D s.routes.now r s.routes.redis (s.routes.procs r) input redis
      (.finished request outcome))
    (hShared : outcome.shared = some c)
    (hLater : (record D value slug s (.proxy (.deliver r input)) h).later r = true)
    (hSupplier : (recordDeliveries D s.routes (.deliver r input) h.deliveries).supplier r = some x) :
    ¬h.Due x := by
  obtain ⟨rfl, ctx, _, hSource⟩ := supplier_of_served hBarred.credited hMove hShared
  rcases hSource with ⟨entry, hLookup, hText, hCredit⟩ | ⟨hBefore, hSame⟩
  · obtain rfl := Option.some.inj (hCredit.symm.trans hSupplier)
    exact not_due_of_lookup hBarred hLater hLookup hText
  · rw [hSame] at hSupplier
    exact hBarred.found r ctx c x hBefore hLater hSupplier

theorem requested_move (hBarred : Barred D value slug s h)
    (hMove : Move D s.routes.now r s.routes.redis (s.routes.procs r) input redis proc)
    {request : Inbound}
    (hRequest : (Function.update s.routes.procs r proc x).request? = some request) :
    request.cacheKey D ∈ (record D value slug s (.proxy (.deliver r input)) h).requested := by
  have hOld (hBefore : (s.routes.procs x).request? = some request) :
      request.cacheKey D ∈ (record D value slug s (.proxy (.deliver r input)) h).requested := by
    have hMem := hBarred.requested x request hBefore
    cases input with
    | arrive request' => exact List.mem_cons_of_mem _ hMem
    | _ => exact hMem
  by_cases hx : x = r
  · subst hx
    rw [Function.update_self] at hRequest
    cases hBefore : s.routes.procs x with
    | idle =>
        rw [hBefore] at hMove
        cases hMove with
        | arrive request' =>
          obtain rfl := Option.some.inj ((request_start D request').symm.trans hRequest)
          exact List.mem_cons_self
    | finished request' outcome =>
        rw [hBefore] at hMove
        cases hMove
    | running ctx pc =>
        have hSame := request_of_move hMove (by rw [hBefore]; rfl : _ = some ctx.request)
        obtain rfl := Option.some.inj (hSame.symm.trans hRequest)
        exact hOld (by rw [hBefore]; rfl)
  · rw [Function.update_of_ne hx] at hRequest
    exact hOld hRequest

/-- A request that is served after the step has taken it or was served before it. -/
theorem barred_move (hBarred : Barred D value slug s h)
    (hMove : Move D s.routes.now r s.routes.redis (s.routes.procs r) input redis proc) :
    Barred D value slug ⟨⟨s.routes.now, redis, Function.update s.routes.procs r proc⟩, s.flush⟩
      (record D value slug s (.proxy (.deliver r input)) h) where
  credited := deliveries_record ▸ credited_move hBarred.credited hMove
  requested x request hRequest := requested_move hBarred hMove hRequest
  answered x hOld := by
    have hBefore : h.old x = true := by cases input <;> exact hOld
    obtain ⟨f, hAnswer⟩ := Option.ne_none_iff_exists'.mp (hBarred.answered x hBefore)
    rw [deliveries_record, answer_stays hBarred.credited hMove hAnswer]
    simp
  silent x hDue := silent_move hBarred hMove (due_record.mp hDue)
  stored x k entry c hDue hLookup hText hWriter := by
    obtain ⟨hPresent, hRequested, hMatches, hOwes⟩ :=
      stored_barred hBarred hMove (due_record.mp hDue) hLookup hText hWriter
    refine ⟨?_, hMatches, owes_record hOwes hPresent _⟩
    cases input with
    | arrive request => exact List.mem_cons_of_mem _ hRequested
    | _ => exact hRequested
  unread x w c hDue hUnread := unread_barred hBarred hMove (due_record.mp hDue) hUnread
  later w hLater := by
    rcases later_record hLater with hOld | ⟨hDone, _⟩
    · exact hBarred.later w hOld
    · exact hDone
  found w ctx c x hProc hLater hSupplier := by
    rw [deliveries_record] at hSupplier
    rw [due_record]
    rcases procs_cases hProc with ⟨rfl, rfl⟩ | ⟨hw, hOld⟩
    · exact found_barred hBarred hMove hLater hSupplier
    · rw [supplier_of_ne hw] at hSupplier
      have hEarlier : h.later w = true :=
        (later_record hLater).resolve_right fun hNew => hw hNew.2.1
      exact hBarred.found w ctx c x hOld hEarlier hSupplier
  served w request outcome c x hProc hShared hLater hSupplier := by
    rw [deliveries_record] at hSupplier
    rw [due_record]
    rcases procs_cases hProc with ⟨rfl, rfl⟩ | ⟨hw, hOld⟩
    · exact served_barred hBarred hMove hShared hLater hSupplier
    · rw [supplier_of_ne hw] at hSupplier
      have hEarlier : h.later w = true :=
        (later_record hLater).resolve_right fun hNew => hw hNew.2.1
      exact hBarred.served w request outcome c x hOld hShared hEarlier hSupplier

theorem barred_elapse {dt : ℚ} (hBarred : Barred D value slug s h) (hdt : 0 ≤ dt) :
    Barred D value slug ⟨{ s.routes with now := s.routes.now + dt }, s.flush⟩
      (record D value slug s (.proxy (.elapse dt)) h) where
  credited := credited_elapse hBarred.credited
  requested := hBarred.requested
  answered := hBarred.answered
  silent := hBarred.silent
  stored x k entry c hDue hLookup hText hWriter := by
    have hBefore : s.routes.redis.lookup s.routes.now k = some entry :=
      Redis.Server.lookup_anti (le_add_of_nonneg_right hdt) hLookup
    obtain ⟨hRequested, hMatches, hOwes⟩ :=
      hBarred.stored x k entry c hDue hBefore hText hWriter
    exact ⟨hRequested, hMatches, owes_record hOwes (present_of_lookup hBefore) _⟩
  unread := hBarred.unread
  later := hBarred.later
  found := hBarred.found
  served := hBarred.served

theorem not_later (hBarred : Barred D value slug s h) (hDone : s.flush.done = false) :
    ¬h.later w = true := by
  intro hLater
  rw [hBarred.later w hLater] at hDone
  cases hDone

/-- When the flush begins, a response that is due is under a cache key that
matches, and no request is a later one. -/
theorem barred_flush (hBarred : Barred D value slug s h) (hIdle : s.flush = .idle) :
    Barred D value slug ⟨s.routes, .scanning 0⟩ (record D value slug s .flush h) := by
  have hNone (w : ℕ) : ¬h.later w = true := not_later hBarred (by rw [hIdle]; rfl)
  refine
    { credited := hBarred.credited
      requested := hBarred.requested
      answered := fun x hOld => Option.isSome_iff_ne_none.mp hOld
      silent := fun x hDue => ?_
      stored := fun x k entry c hDue hLookup hText hWriter => ?_
      unread := fun x w c _ _ => Bool.eq_false_iff.mpr (hNone w)
      later := fun w hLater => absurd hLater (hNone w)
      found := fun w ctx c x _ hLater _ => absurd hLater (hNone w)
      served := fun w request outcome c x _ _ hLater _ => absurd hLater (hNone w) }
  · have hSpared : spares D value slug s.routes x = false := hDue.2
    exact (Bool.or_eq_false_iff.mp hSpared).1
  · have hSpared : spares D value slug s.routes x = false := hDue.2
    obtain ⟨f, request, _, _, hRequest, hKey⟩ :=
      hBarred.credited.stored k entry c (Redis.Server.lookup_eq_some.mp hLookup).1 hText
    rw [hWriter] at hRequest
    have hNeither := (Bool.or_eq_false_iff.mp hSpared).2
    rw [hRequest, Option.any_some, Bool.or_eq_false_iff, Bool.not_eq_false'] at hNeither
    rcases hKey with rfl | rfl
    · exact ⟨hBarred.requested x request hRequest, hNeither.2, present_of_lookup hLookup,
        List.not_mem_nil⟩
    · rw [hLookup] at hNeither
      simp [hWriter] at hNeither

/-- The reply of SCAN moves what it lists from the rest of the iteration to the
page, and the last reply leaves no rest. -/
theorem owes_scanned {deleted : ℕ} (hComplete : Complete value slug (s, h) (.scanned reply))
    (hRequested : k ∈ h.requested) (hMatches : globMatches value (vendorPattern slug) k = true)
    (hPresent : s.present k = true) (hOwes : (FlushPc.scanning deleted).Owes h k) :
    (afterScan reply deleted).Owes (record D value slug s (.scanned reply) h) k := by
  obtain ⟨hKept, hNew⟩ := hOwes
  have hStill : (record D value slug s (.scanned reply) h).kept k = true :=
    kept_record hKept hPresent _ (by simp)
  have hSeen : (record D value slug s (.scanned reply) h).seen = reply.keys ++ h.seen := rfl
  have hLast (hClosed : reply.cursor = 0) : k ∈ reply.keys :=
    (hComplete hClosed k hRequested hKept hPresent hMatches).resolve_left hNew
  have hRest (hListed : k ∉ reply.keys) :
      k ∉ (record D value slug s (.scanned reply) h).seen := by
    rw [hSeen, List.mem_append, not_or]
    exact ⟨hListed, hNew⟩
  unfold afterScan nextPage
  split_ifs with hEmpty hClosed
  · have hListed := hLast hClosed
    rw [hEmpty] at hListed
    cases hListed
  · exact ⟨hStill, hRest (by simp [hEmpty])⟩
  · by_cases hListed : k ∈ reply.keys
    · exact Or.inl hListed
    · exact Or.inr ⟨fun hClosed => hListed (hLast hClosed), hStill, hRest hListed⟩

theorem barred_scanned {deleted : ℕ} (hBarred : Barred D value slug s h)
    (hScanning : s.flush = .scanning deleted)
    (hComplete : Complete value slug (s, h) (.scanned reply)) :
    Barred D value slug ⟨s.routes, afterScan reply deleted⟩
      (record D value slug s (.scanned reply) h) where
  credited := hBarred.credited
  requested := hBarred.requested
  answered := hBarred.answered
  silent := hBarred.silent
  stored x k entry c hDue hLookup hText hWriter := by
    obtain ⟨hRequested, hMatches, hOwes⟩ := hBarred.stored x k entry c hDue hLookup hText hWriter
    rw [hScanning] at hOwes
    exact ⟨hRequested, hMatches,
      owes_scanned hComplete hRequested hMatches (present_of_lookup hLookup) hOwes⟩
  unread := hBarred.unread
  later w hLater := by
    have hNone : ¬h.later w = true := not_later hBarred (by rw [hScanning]; rfl)
    exact (hNone hLater).elim
  found := hBarred.found
  served := hBarred.served

/-- DEL removes the page, so that only the rest is owed. -/
theorem owes_deleted {deleted : ℕ} (hPresent : s.present k = true) (hListed : k ∉ reply.keys)
    (hOwes : (FlushPc.deleting reply deleted).Owes h k) (count : ℕ) :
    (nextPage reply.cursor count).Owes (record D value slug s .deleted h) k := by
  obtain ⟨hMore, hKept, hNew⟩ := hOwes.resolve_left hListed
  rw [nextPage, if_neg hMore]
  exact ⟨kept_record hKept hPresent _ (by simp), hNew⟩

theorem credited_delMany {σ : Routes.State} {deliveries : Deliveries} (ks : List String)
    (hCredited : Credited D σ deliveries) :
    Credited D { σ with redis := σ.redis.delMany ks } deliveries := by
  have hTrace := hCredited.trace
  have hEntry {k : String} {entry : Redis.Entry ℚ CachedResponse ℕ}
      (h : (σ.redis.delMany ks).entries k = some entry) : σ.redis.entries k = some entry :=
    (Redis.Server.delMany_entries_eq_some.mp h).2
  exact ⟨⟨hTrace.known, hTrace.fetched, fun k entry c h => hTrace.stored k entry c (hEntry h),
      hTrace.idle, hTrace.channel, hTrace.unread, hTrace.found, hTrace.direct, hTrace.served⟩,
    hCredited.unanswered, hCredited.fetched, fun k entry c h => hCredited.stored k entry c (hEntry h),
    hCredited.unread, hCredited.found, hCredited.served⟩

theorem barred_deleted {deleted : ℕ} (hBarred : Barred D value slug s h)
    (hDeleting : s.flush = .deleting reply deleted) :
    Barred D value slug (s.deletePage reply deleted) (record D value slug s .deleted h) where
  credited := credited_delMany reply.keys hBarred.credited
  requested := hBarred.requested
  answered := hBarred.answered
  silent := hBarred.silent
  stored x k entry c hDue hLookup hText hWriter := by
    obtain ⟨hListed, hBefore⟩ := Redis.Server.lookup_delMany_eq_some.mp hLookup
    obtain ⟨hRequested, hMatches, hOwes⟩ := hBarred.stored x k entry c hDue hBefore hText hWriter
    rw [hDeleting] at hOwes
    exact ⟨hRequested, hMatches, owes_deleted (present_of_lookup hBefore) hListed hOwes _⟩
  unread := hBarred.unread
  later w hLater := by
    have hNone : ¬h.later w = true := not_later hBarred (by rw [hDeleting]; rfl)
    exact (hNone hLater).elim
  found := hBarred.found
  served := hBarred.served

theorem barred_step {e : Event} (hBarred : Barred D value slug s h)
    (hComplete : Complete value slug (s, h) e) (hStep : Step D value slug s e t) :
    Barred D value slug t (record D value slug s e h) := by
  cases hStep with
  | elapse dt hdt => exact barred_elapse hBarred hdt
  | move r input redis proc hMove => exact barred_move hBarred hMove
  | flush hIdle => exact barred_flush hBarred hIdle
  | scanned reply deleted hScanning _ => exact barred_scanned hBarred hScanning hComplete
  | deleted reply deleted hDeleting => exact barred_deleted hBarred hDeleting

theorem barred_init (hInit : (machine D value slug).init s) : Barred D value slug s .start where
  credited := credited_init hInit.1
  requested x request hRequest := by
    rw [hInit.1.2.2 x] at hRequest
    cases hRequest
  answered x hOld := by cases hOld
  silent x hDue := by cases hDue.1
  stored x k entry c hDue := by cases hDue.1
  unread x w c hDue := by cases hDue.1
  later w hLater := by cases hLater
  found w ctx c x _ hLater := by cases hLater
  served w request outcome c x _ _ hLater := by cases hLater

theorem barred_run {p : State × Watch}
    (run : (watched D value slug).Reaches (Complete value slug) p) :
    Barred D value slug p.1 p.2 := by
  refine run.invariant (I := fun p => Barred D value slug p.1 p.2) (fun p hInit => ?_)
    fun p q e _ ih hComplete next => ?_
  · rw [hInit.2]
    exact barred_init hInit.1
  · obtain ⟨hNext, hRecord⟩ := System.withHistory_step next
    rw [hRecord]
    exact barred_step ih hComplete (step_cases hNext)

/-- What a request that began after the flush is served from the cache or from
another request was received after the flush began, or was spared by it. -/
theorem flush_barrier {p : State × Watch} {request : Inbound} {outcome : Outcome}
    (run : (watched D value slug).Reaches (Complete value slug) p) (hLater : p.2.later w = true)
    (hDone : p.1.routes.procs w = .finished request outcome) (hShared : outcome.shared = some c) :
    ∃ x f, p.2.deliveries.supplier w = some x ∧ p.2.deliveries.answer x = some f ∧
      c = f.cached ∧ (p.2.old x = true → p.2.spared x = true) := by
  have hBarred := barred_run run
  obtain ⟨x, hSupplier, f, _, hAnswer, hCached, _⟩ :=
    hBarred.credited.served w request outcome c hDone hShared
  refine ⟨x, f, hSupplier, hAnswer, hCached, fun hOld => ?_⟩
  by_contra hSpared
  have hDue : p.2.Due x := ⟨hOld, Bool.eq_false_iff.mpr hSpared⟩
  exact hBarred.served w request outcome c x hDone hShared hLater hSupplier hDue

end Steps

section Sample

def sampleStart : State := ⟨Routes.sampleStart, .idle⟩

theorem init_sampleStart {value : UInt8 → ℤ} {slug : String} {D : Deployment} :
    (watched D value slug).init (sampleStart, .start) :=
  ⟨⟨Routes.init_sampleStart, rfl⟩, rfl⟩

instance (value : UInt8 → ℤ) (slug : String) (p : State × Watch) (e : Event) :
    Decidable (Complete value slug p e) :=
  match e with
  | .scanned _ => inferInstanceAs (Decidable (_ → ∀ k ∈ p.2.requested, _))
  | .proxy _ | .flush | .deleted => isTrue trivial

/-- The requests are to the vendor that is flushed. -/
def ToVendor (slug : String) : Event → Prop
  | .proxy (.deliver _ (.arrive request)) => request.vendorSlug = slug
  | _ => True

instance (slug : String) (e : Event) : Decidable (ToVendor slug e) :=
  match e with
  | .proxy (.deliver _ input) =>
      match input with
      | .arrive request => inferInstanceAs (Decidable (request.vendorSlug = slug))
      | .endpointRow | .jobStored _ | .apiKeyRow _ => isTrue trivial
      | .reply | .wake | .vendor _ | .raised _ => isTrue trivial
  | .proxy (.elapse _) | .flush | .scanned _ | .deleted => isTrue trivial

/-- It began after the flush and was served from the cache or from another request. -/
def servedLater (p : State × Watch) (w : ℕ) : Bool :=
  p.2.later w && match p.1.routes.procs w with
  | .idle | .running _ _ => false
  | .finished _ outcome => outcome.shared.isSome

theorem of_servedLater {p : State × Watch} {w : ℕ} (h : servedLater p w = true) :
    p.2.later w = true ∧ ∃ request outcome c,
      p.1.routes.procs w = .finished request outcome ∧ outcome.shared = some c := by
  obtain ⟨hLater, hServed⟩ := Bool.and_eq_true_iff.mp h
  split at hServed
  case h_3 request outcome hDone =>
    obtain ⟨c, hShared⟩ := Option.isSome_iff_exists.mp hServed
    exact ⟨hLater, request, outcome, c, hDone, hShared⟩
  all_goals cases hServed

/-- A request runs until it is about to store its response. -/
def upToSet (r : ℕ) : List Event :=
  (upToLock r (sampleRequest .get "p") ++ [Routes.Event.deliver r .reply,
    Routes.Event.deliver r (.vendor (.response ⟨200, [], []⟩))]).map .proxy

/-- A request finds a cached response. -/
def upToHit (r : ℕ) : List Event := (upToLock r (sampleRequest .get "p")).map .proxy

/-- The flush deletes the response to the first request, and the third is served
the response to the second. -/
def flushedBetween : List Event :=
  upToSet 0 ++ List.replicate 4 (.proxy (.deliver 0 .reply)) ++
    [.flush, .scanned ⟨0, [(sampleRequest .get "p").cacheKey (sampleDeployment 60)]⟩, .deleted] ++
    upToSet 1 ++ [.proxy (.deliver 1 .reply)] ++ upToHit 2

theorem flush_barrier_between :
    ∃ p x f c, (watched (sampleDeployment 60) (fun b => (b.toNat : ℤ)) "v").Reaches
        (Complete (fun b => (b.toNat : ℤ)) "v") p ∧ p.2.later 2 = true ∧
      p.2.deliveries.supplier 2 = some x ∧ p.2.deliveries.answer x = some f ∧
      c = f.cached ∧ (p.2.old x = true → p.2.spared x = true) := by
  have hRun : ((watched (sampleDeployment 60) (fun b => (b.toNat : ℤ)) "v").exec
      (Complete (fun b => (b.toNat : ℤ)) "v") (sampleStart, .start) flushedBetween).any
      (fun p => servedLater p 2) = true := by
    decide +kernel
  obtain ⟨p, run, hServed⟩ := System.Reaches.exec_any (.init init_sampleStart) hRun
  obtain ⟨hLater, request, outcome, c, hDone, hShared⟩ := of_servedLater hServed
  obtain ⟨x, f, hReceived⟩ := flush_barrier run hLater hDone hShared
  exact ⟨p, x, f, c, run, hLater, hReceived⟩

/-- The response is about to be stored when the flush begins, and is stored when
it has returned. -/
def storedAfterwards : List Event :=
  upToSet 0 ++ [.flush, .scanned ⟨0, []⟩, .proxy (.deliver 0 .reply)] ++ upToHit 1

/-- A later request is served the response that was received before the flush began. -/
theorem flush_not_barrier :
    ¬∀ p, (watched (sampleDeployment 60) (fun b => (b.toNat : ℤ)) "v").Reaches
        (fun p e => Complete (fun b => (b.toNat : ℤ)) "v" p e ∧ ToVendor "v" e) p →
      ∀ w request outcome c, p.2.later w = true →
        p.1.routes.procs w = .finished request outcome → outcome.shared = some c →
        ∃ x f, p.2.deliveries.supplier w = some x ∧ p.2.deliveries.answer x = some f ∧
          c = f.cached ∧ p.2.old x = false := by
  intro hBarrier
  have hRun : ((watched (sampleDeployment 60) (fun b => (b.toNat : ℤ)) "v").exec
      (fun p e => Complete (fun b => (b.toNat : ℤ)) "v" p e ∧ ToVendor "v" e)
      (sampleStart, .start) storedAfterwards).any (fun p => servedLater p 1 &&
        (p.2.deliveries.supplier 1).all fun x => p.2.old x) = true := by
    decide +kernel
  obtain ⟨p, run, hCheck⟩ := System.Reaches.exec_any (.init init_sampleStart) hRun
  obtain ⟨hServed, hOld⟩ := Bool.and_eq_true_iff.mp hCheck
  obtain ⟨hLater, request, outcome, c, hDone, hShared⟩ := of_servedLater hServed
  obtain ⟨x, f, hSupplier, _, _, hNew⟩ := hBarrier p run 1 request outcome c hLater hDone hShared
  rw [hSupplier, Option.all_some, hNew] at hOld
  cases hOld

end Sample

end Gateway.Barrier
