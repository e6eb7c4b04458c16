import Gateway.Quota.Callers

/-! Whether every quota counter has an expiry. INCR and EXPIRE are two commands
and only the caller that saw the value one sends the second, so everything
hangs on that caller. -/
namespace Gateway.Quota.Callers

open Calendar Transition Gateway.Db

variable {s t : State}

/-- The counter under a key has no expiry. -/
def Unlimited (s : State) (key : String) : Prop :=
  ∃ e, s.store.entries key = some e ∧ e.expiresAt = none

/-- Some caller is about to send EXPIRE for the key. -/
def Awaited (s : State) (key : String) : Prop := ∃ r ttl, s.pc r = .expire key ttl

theorem Unlimited.lookup {key : String} (h : Unlimited s key) :
    ∃ e, s.store.lookup s.clock key = some e ∧ e.expiresAt = none := by
  obtain ⟨e, hEntry, hNone⟩ := h
  exact ⟨e, Redis.Server.lookup_eq_some.mpr ⟨hEntry, by simp [Redis.Entry.live, hNone]⟩, hNone⟩

/-- In every run: counters count from one, periods of increments are known, and
an EXPIRE that is still to come is the only one for its key and finds the
counter as INCR created it. -/
structure Sound (s : State) : Prop where
  positive : ∀ key e, s.store.entries key = some e → ∃ n, 1 ≤ n ∧ e.value = .int n
  period : ∀ r call c, s.pc r = .incr call c → ∃ ttl, periodTtl call.period = some ttl
  unlimited : ∀ r key ttl, s.pc r = .expire key ttl → Unlimited s key
  unique : ∀ r r' key ttl ttl', s.pc r = .expire key ttl → s.pc r' = .expire key ttl' → r = r'

/-- What INCR does to the counters: a new one starts at one, an old one moves
past one and keeps its expiry, the others stay. -/
theorem incr_effect (hPositive : ∀ key e, s.store.entries key = some e →
      ∃ n, 1 ≤ n ∧ e.value = .int n) {key : String} {r : ℕ} {store : Store} {n : ℤ}
    (h : s.store.incr s.clock key r = some (store, n)) :
    (∀ key', key' ≠ key → store.entries key' = s.store.entries key') ∧
      (s.store.lookup s.clock key = none ∧ n = 1 ∧
          store.entries key = some ⟨.int 1, none, r⟩ ∨
        ∃ e m, s.store.lookup s.clock key = some e ∧ e.value = .int m ∧ 1 ≤ m ∧ n = m + 1 ∧
          store.entries key = some ⟨.int (m + 1), e.expiresAt, r⟩) := by
  refine ⟨(Redis.Server.incr_frame h).1, ?_⟩
  rcases Redis.Server.incr_cases h with ⟨hNone, rfl, rfl⟩ | ⟨m, x, d, hSome, rfl, rfl⟩
  · exact Or.inl ⟨hNone, rfl, Redis.Server.set_entries_self ..⟩
  · obtain ⟨k, hOne, hValue⟩ := hPositive key _ (Redis.Server.lookup_eq_some.mp hSome).1
    obtain rfl : m = k := Redis.Value.int.inj hValue
    exact Or.inr ⟨_, m, hSome, rfl, hOne, rfl, Redis.Server.set_entries_self ..⟩

theorem periodTtl_of_counter {v k : Uuid} {period : String} {time : DateTime} {c : Counter}
    (h : Rollover.counterAt v k period time = some c) : ∃ ttl, periodTtl period = some ttl := by
  unfold Rollover.counterAt Rollover.periodBucket at h
  unfold periodTtl
  split_ifs at h ⊢
  · exact ⟨_, rfl⟩
  · exact ⟨_, rfl⟩
  · cases h

/-- The caller that created a counter goes on to EXPIRE, the others are done. -/
theorem afterIncr_cases (call : Call) (c : Counter) (n : ℤ) :
    (∃ ttl, n = 1 ∧ periodTtl call.period = some ttl ∧ afterIncr call c n = .expire c.key ttl) ∨
      (n = 1 → periodTtl call.period = none) ∧ ∃ result, afterIncr call c n = .finished result := by
  unfold afterIncr
  by_cases hOne : n = 1
  · rw [if_pos hOne]
    cases hTtl : periodTtl call.period with
    | none => exact Or.inr ⟨fun _ => rfl, none, rfl⟩
    | some ttl => exact Or.inl ⟨ttl, hOne, rfl, rfl⟩
  · rw [if_neg hOne]
    exact Or.inr ⟨fun h => absurd h hOne, some n, rfl⟩

theorem afterIncr_ne_incr (call call' : Call) (c c' : Counter) (n : ℤ) :
    afterIncr call c n ≠ .incr call' c' := by
  intro h
  rcases afterIncr_cases call c n with ⟨ttl, -, -, hAfter⟩ | ⟨-, result, hAfter⟩
  · rw [hAfter] at h
    cases h
  · rw [hAfter] at h
    cases h

/-- The EXPIRE after an INCR is for its counter and has the TTL of its period. -/
theorem eq_of_afterIncr {call : Call} {c : Counter} {n ttl : ℤ} {key : String}
    (h : afterIncr call c n = .expire key ttl) :
    n = 1 ∧ c.key = key ∧ periodTtl call.period = some ttl := by
  rcases afterIncr_cases call c n with ⟨ttl', hOne, hTtl, hAfter⟩ | ⟨-, result, hAfter⟩
  · rw [hAfter] at h
    injection h with hKey hTtls
    exact ⟨hOne, hKey, hTtls ▸ hTtl⟩
  · rw [hAfter] at h
    cases h

/-- EXPIRE on a counter without expiry sets it and touches nothing else. -/
theorem expireLive_effect {key : String} (h : Unlimited s key) (ttl : ℤ) :
    (∀ key', key' ≠ key → (s.expireLive key ttl).entries key' = s.store.entries key') ∧
      ∃ e, s.store.entries key = some e ∧ (s.expireLive key ttl).entries key =
        some ⟨e.value, some (s.clock + ttl * microsPerSecond), e.writer⟩ := by
  obtain ⟨e, hLookup, -⟩ := h.lookup
  have hEntry := (Redis.Server.lookup_eq_some.mp hLookup).1
  have hStore : s.expireLive key ttl =
      s.store.expire key (s.clock + ttl * microsPerSecond) := by
    simp only [State.expireLive, hLookup]
  rw [hStore]
  refine ⟨fun key' hKey => Redis.Server.expire_entries_of_ne _ hKey _, e, hEntry, ?_⟩
  rw [Redis.Server.expire_entries_self, hEntry]
  rfl

section Invariant

/-- Moving a caller to any place but EXPIRE. -/
theorem Sound.goto (h : Sound s) (r : ℕ) {pc : Pc}
    (hPeriod : ∀ call c, pc = .incr call c → ∃ ttl, periodTtl call.period = some ttl)
    (hExpire : ∀ key ttl, pc ≠ .expire key ttl) : Sound (s.goto r pc) := by
  constructor
  · exact h.positive
  · intro r' call c hPc
    rcases goto_pc_eq hPc with ⟨-, hNew⟩ | ⟨-, hOld⟩
    · exact hPeriod call c hNew
    · exact h.period r' call c hOld
  · intro r' key ttl hPc
    rcases goto_pc_eq hPc with ⟨-, hNew⟩ | ⟨-, hOld⟩
    · exact absurd hNew (hExpire key ttl)
    · exact h.unlimited r' key ttl hOld
  · intro r' r'' key ttl ttl' hPc hPc'
    rcases goto_pc_eq hPc with ⟨-, hNew⟩ | ⟨-, hOld⟩
    · exact absurd hNew (hExpire key ttl)
    · rcases goto_pc_eq hPc' with ⟨-, hNew⟩ | ⟨-, hOld'⟩
      · exact absurd hNew (hExpire key ttl')
      · exact h.unique r' r'' key ttl ttl' hOld hOld'

theorem Sound.finish (h : Sound s) (r : ℕ) (result : Option ℤ) :
    Sound (s.goto r (.finished result)) :=
  h.goto r (by simp) (by simp)

theorem Sound.begin (h : Sound s) (r : ℕ) (v k : Uuid) (period : String) :
    Sound (s.begin r v k period) := by
  unfold State.begin
  simp only
  split
  · exact h.finish r none
  · rename_i c hCounter
    refine h.goto r ?_ (by simp)
    intro call c' hPc
    injection hPc with hCall
    subst hCall
    exact periodTtl_of_counter hCounter

/-- INCR leaves a counter without expiry as it is and answers more than one. -/
theorem Unlimited.incr (h : Sound s) {r : ℕ} {key key' : String} {store : Store} {n : ℤ}
    (hIncr : s.store.incr s.clock key r = some (store, n)) (hKey : Unlimited s key') :
    Unlimited { s with store := store } key' ∧ (key' = key → n ≠ 1) := by
  obtain ⟨hOthers, hSelf⟩ := incr_effect h.positive hIncr
  by_cases hSame : key' = key
  · subst hSame
    obtain ⟨e, hLookup, hNone⟩ := hKey.lookup
    rcases hSelf with ⟨hAbsent, -, -⟩ | ⟨e', m, hLookup', -, hOne, hn, hEntry⟩
    · rw [hLookup] at hAbsent
      cases hAbsent
    · obtain rfl : e = e' := Option.some.inj (hLookup.symm.trans hLookup')
      exact ⟨⟨_, hEntry, hNone⟩, fun _ => by omega⟩
  · obtain ⟨e, hEntry, hNone⟩ := hKey
    exact ⟨⟨e, (hOthers key' hSame).trans hEntry, hNone⟩, fun hEq => absurd hEq hSame⟩

/-- After INCR the counters without expiry are those of before, and the one
that it may have created. -/
theorem unlimited_of_incr (h : Sound s) {r : ℕ} {key key' : String} {store : Store} {n : ℤ}
    (hIncr : s.store.incr s.clock key r = some (store, n))
    (hKey : Unlimited { s with store := store } key') :
    Unlimited s key' ∨ key' = key ∧ s.store.lookup s.clock key = none ∧ n = 1 := by
  obtain ⟨hOthers, hSelf⟩ := incr_effect h.positive hIncr
  obtain ⟨e, hEntry, hNone⟩ := hKey
  by_cases hSame : key' = key
  · subst hSame
    rcases hSelf with ⟨hAbsent, hOne, -⟩ | ⟨e', m, hLookup, -, -, -, hNew⟩
    · exact Or.inr ⟨rfl, hAbsent, hOne⟩
    · obtain rfl := Option.some.inj (hNew.symm.trans hEntry)
      exact Or.inl ⟨e', (Redis.Server.lookup_eq_some.mp hLookup).1, hNone⟩
  · exact Or.inl ⟨e, (hOthers key' hSame).symm.trans hEntry, hNone⟩

/-- Whoever sees the value one has created a counter that nobody else awaits. -/
theorem Sound.incr (h : Sound s) {r : ℕ} {c : Counter} {store : Store} {n : ℤ}
    (hIncr : s.store.incr s.clock c.key r = some (store, n)) :
    Sound { s with store := store } ∧ (n = 1 → ¬Awaited s c.key ∧
      Unlimited { s with store := store } c.key) := by
  obtain ⟨hOthers, hSelf⟩ := incr_effect h.positive hIncr
  refine ⟨⟨?_, h.period,
    fun r' key ttl hPc => ((h.unlimited r' key ttl hPc).incr h hIncr).1, h.unique⟩,
    fun hOne => ⟨?_, ?_⟩⟩
  · intro key e hEntry
    by_cases hSame : key = c.key
    · subst hSame
      rcases hSelf with ⟨-, -, hNew⟩ | ⟨e', m, -, -, hOne, -, hNew⟩
      · obtain rfl := Option.some.inj (hNew.symm.trans hEntry)
        exact ⟨1, le_rfl, rfl⟩
      · obtain rfl := Option.some.inj (hNew.symm.trans hEntry)
        exact ⟨m + 1, by omega, rfl⟩
    · exact h.positive key e ((hOthers key hSame).symm.trans hEntry)
  · rintro ⟨r', ttl, hPc⟩
    exact ((h.unlimited r' _ ttl hPc).incr h hIncr).2 rfl hOne
  · rcases hSelf with ⟨-, -, hNew⟩ | ⟨-, m, -, -, hLow, hn, -⟩
    · exact ⟨_, hNew, rfl⟩
    · omega

theorem Sound.incrStep (h : Sound s) {r : ℕ} {call : Call} {c : Counter}
    (delivery : Delivery) : Sound (incrStep s r call c delivery) := by
  rcases incrStep_cases s r call c delivery with ⟨-, hStep⟩ |
    ⟨store, n, hIncr, ⟨-, hStep⟩ | ⟨-, hStep⟩⟩
  · rw [hStep]
    exact h.finish r none
  · rw [hStep]
    exact (h.incr hIncr).1.finish r none
  · rw [hStep]
    obtain ⟨hSound, hFirst⟩ := h.incr hIncr
    rcases afterIncr_cases call c n with ⟨ttl, hOne, -, hAfter⟩ | ⟨-, result, hAfter⟩
    · rw [hAfter]
      obtain ⟨hAlone, hUnlimited⟩ := hFirst hOne
      constructor
      · exact hSound.positive
      · intro r' call' c' hPc
        rcases goto_pc_eq hPc with ⟨-, hNew⟩ | ⟨-, hOld⟩
        · cases hNew
        · exact hSound.period r' call' c' hOld
      · intro r' key ttl' hPc
        rcases goto_pc_eq hPc with ⟨-, hNew⟩ | ⟨-, hOld⟩
        · injection hNew with hKey
          subst hKey
          exact hUnlimited
        · exact hSound.unlimited r' key ttl' hOld
      · intro r' r'' key ttl' ttl'' hPc hPc'
        rcases goto_pc_eq hPc with ⟨hr, hNew⟩ | ⟨-, hOld⟩
        · injection hNew with hKey
          subst hKey
          rcases goto_pc_eq hPc' with ⟨hr', -⟩ | ⟨-, hOld'⟩
          · exact hr.trans hr'.symm
          · exact absurd ⟨r'', ttl'', hOld'⟩ hAlone
        · rcases goto_pc_eq hPc' with ⟨-, hNew⟩ | ⟨-, hOld'⟩
          · injection hNew with hKey
            subst hKey
            exact absurd ⟨r', ttl', hOld⟩ hAlone
          · exact hSound.unique r' r'' key ttl' ttl'' hOld hOld'
    · rw [hAfter]
      exact hSound.finish r result

theorem Sound.expireStep (h : Sound s) {r : ℕ} {key : String} {ttl : ℤ}
    (hPc : s.pc r = .expire key ttl) (delivery : Delivery) :
    Sound (expireStep s r key ttl delivery) := by
  obtain ⟨hOthers, e, hEntry, hNew⟩ := expireLive_effect (h.unlimited r key ttl hPc) ttl
  have hExecuted (result : Option ℤ) :
      Sound ({ s with store := s.expireLive key ttl }.goto r (.finished result)) := by
    constructor
    · intro key' e' hEntry'
      by_cases hKey : key' = key
      · subst hKey
        obtain ⟨n, hn, hValue⟩ := h.positive _ _ hEntry
        obtain rfl := Option.some.inj (hNew.symm.trans hEntry')
        exact ⟨n, hn, hValue⟩
      · exact h.positive key' e' ((hOthers key' hKey).symm.trans hEntry')
    · intro r' call c hPc'
      rcases goto_pc_eq hPc' with ⟨-, hPc'⟩ | ⟨-, hOld⟩
      · cases hPc'
      · exact h.period r' call c hOld
    · intro r' key' ttl' hPc'
      rcases goto_pc_eq hPc' with ⟨-, hPc'⟩ | ⟨hr, hOld⟩
      · cases hPc'
      · have hKey : key' ≠ key := by
          rintro rfl
          exact hr (h.unique r' r _ _ _ hOld hPc)
        obtain ⟨e', hEntry', hNone⟩ := h.unlimited r' key' ttl' hOld
        exact ⟨e', (hOthers key' hKey).trans hEntry', hNone⟩
    · intro r' r'' key' ttl' ttl'' hPc' hPc''
      rcases goto_pc_eq hPc' with ⟨-, hPc'⟩ | ⟨-, hOld⟩
      · cases hPc'
      · rcases goto_pc_eq hPc'' with ⟨-, hPc''⟩ | ⟨-, hOld'⟩
        · cases hPc''
        · exact h.unique r' r'' key' ttl' ttl'' hOld hOld'
  cases delivery with
  | lost => exact h.finish r none
  | unanswered => exact hExecuted none
  | answered => exact hExecuted (some 1)

theorem Sound.step {e : Event} (h : Sound s) (next : machine.step s e = some t) : Sound t := by
  rcases step_cases next with ⟨later, -, -, rfl⟩ | ⟨r, v, k, period, -, -, rfl⟩ |
    ⟨r, delivery, call, c, -, -, rfl⟩ | ⟨r, delivery, key, ttl, -, hPc, rfl⟩ | ⟨r, -, -, rfl⟩
  · exact ⟨h.positive, h.period, h.unlimited, h.unique⟩
  · exact h.begin r v k period
  · exact h.incrStep delivery
  · exact h.expireStep hPc delivery
  · exact h.finish r none

theorem sound_of_init (h : machine.init s) : Sound s := by
  obtain ⟨hStore, hIdle⟩ := h
  have hEmpty (key : String) : s.store.entries key = none := by rw [hStore]; rfl
  constructor
  · intro key e hEntry
    rw [hEmpty] at hEntry
    cases hEntry
  · intro r call c hPc
    rw [hIdle] at hPc
    cases hPc
  · intro r key ttl hPc
    rw [hIdle] at hPc
    cases hPc
  · intro r r' key ttl ttl' hPc
    rw [hIdle] at hPc
    cases hPc

theorem sound_of_reaches {allowed : State → Event → Prop} (run : machine.Reaches allowed s) :
    Sound s :=
  run.invariant (fun _ => sound_of_init) fun _ _ _ _ h _ next => h.step next

end Invariant

/-- The step loses the EXPIRE of a counter that was just created: the caller
does not learn that it created it, its EXPIRE does not reach the server, or it
is cancelled before sending it. -/
def LosesExpire (s : State) : Event → Prop
  | .tick _ => False
  | .call _ _ _ _ => False
  | .incr r delivery => delivery = .unanswered ∧
      ∃ call c, s.pc r = .incr call c ∧ s.store.lookup s.clock c.key = none
  | .expire _ delivery => delivery = .lost
  | .cancel r => ∃ key ttl, s.pc r = .expire key ttl

instance (s : State) : (e : Event) → Decidable (LosesExpire s e)
  | .tick _ | .call _ _ _ _ => isFalse id
  | .incr r delivery =>
      match hPc : s.pc r with
      | .incr _ c => decidable_of_iff
          (delivery = .unanswered ∧ s.store.lookup s.clock c.key = none) (by simp [LosesExpire, hPc])
      | .idle | .expire _ _ | .finished _ => isFalse (by simp [LosesExpire, hPc])
  | .expire _ delivery => inferInstanceAs (Decidable (delivery = .lost))
  | .cancel r =>
      match hPc : s.pc r with
      | .expire key ttl => isTrue ⟨key, ttl, hPc⟩
      | .idle | .incr _ _ | .finished _ => isFalse (by simp [LosesExpire, hPc])

/-- No increment is under way. -/
def Quiet (s : State) : Prop := ∀ r, (s.pc r).inProgress = false

/-- A counter without expiry is waiting for one. -/
def Covered (s : State) : Prop := ∀ key, Unlimited s key → Awaited s key

/-- Nobody is going to give the counter an expiry. -/
def Orphan (s : State) (key : String) : Prop := Unlimited s key ∧ ¬Awaited s key

theorem not_awaited_of_quiet (h : Quiet s) (key : String) : ¬Awaited s key := by
  rintro ⟨r, ttl, hPc⟩
  have := h r
  rw [hPc] at this
  cases this

/-- Moving a caller takes an EXPIRE away only from its own key. -/
theorem Awaited.goto {key : String} (h : Awaited s key) {r : ℕ} (pc : Pc)
    (hr : ∀ ttl, s.pc r ≠ .expire key ttl) : Awaited (s.goto r pc) key := by
  obtain ⟨r', ttl, hPc⟩ := h
  have hNe : r' ≠ r := by
    rintro rfl
    exact hr ttl hPc
  exact ⟨r', ttl, by rw [goto_pc_of_ne hNe, hPc]⟩

theorem begin_eq (s : State) (r : ℕ) (v k : Uuid) (period : String) :
    ∃ pc, s.begin r v k period = s.goto r pc ∧ ∀ key ttl, pc ≠ .expire key ttl := by
  unfold State.begin
  simp only
  split
  · exact ⟨_, rfl, by simp⟩
  · exact ⟨_, rfl, by simp⟩

/-- Nothing brings an EXPIRE for a key but an INCR of that key. -/
theorem not_awaited_goto {key : String} (h : ¬Awaited s key) {r : ℕ} {pc : Pc}
    (hPc : ∀ ttl, pc ≠ .expire key ttl) : ¬Awaited (s.goto r pc) key := by
  rintro ⟨r', ttl, hAfter⟩
  rcases goto_pc_eq hAfter with ⟨-, hNew⟩ | ⟨-, hOld⟩
  · exact hPc ttl hNew
  · exact h ⟨r', ttl, hOld⟩

/-- A counter that nobody will give an expiry stays one. -/
theorem Orphan.step {key : String} {e : Event} (hSound : Sound s) (h : Orphan s key)
    (next : machine.step s e = some t) : Orphan t key := by
  obtain ⟨hUnlimited, hAlone⟩ := h
  rcases step_cases next with ⟨later, -, -, rfl⟩ | ⟨r, v, k, period, -, -, rfl⟩ |
    ⟨r, delivery, call, c, -, -, rfl⟩ | ⟨r, delivery, key', ttl, -, hPc, rfl⟩ | ⟨r, -, -, rfl⟩
  · exact ⟨hUnlimited, hAlone⟩
  · obtain ⟨pc, hBegin, hPc⟩ := begin_eq s r v k period
    rw [hBegin]
    exact ⟨hUnlimited, not_awaited_goto hAlone (hPc key)⟩
  · rcases incrStep_cases s r call c delivery with ⟨-, hStep⟩ |
      ⟨store, n, hIncr, ⟨-, hStep⟩ | ⟨-, hStep⟩⟩
    · rw [hStep]
      exact ⟨hUnlimited, not_awaited_goto hAlone (by simp)⟩
    · rw [hStep]
      exact ⟨(hUnlimited.incr hSound hIncr).1,
        not_awaited_goto (s := { s with store := store }) hAlone (by simp)⟩
    · rw [hStep]
      obtain ⟨hStays, hMore⟩ := hUnlimited.incr hSound hIncr
      refine ⟨hStays, not_awaited_goto (s := { s with store := store }) hAlone ?_⟩
      intro ttl hAfter
      obtain ⟨hOne, hKey, -⟩ := eq_of_afterIncr hAfter
      exact hMore hKey.symm hOne
  · have hKey : key ≠ key' := by
      rintro rfl
      exact hAlone ⟨r, ttl, hPc⟩
    have hStays : Unlimited { s with store := s.expireLive key' ttl } key := by
      obtain ⟨hOthers, -⟩ := expireLive_effect (hSound.unlimited r key' ttl hPc) ttl
      obtain ⟨e', hEntry, hNone⟩ := hUnlimited
      exact ⟨e', (hOthers key hKey).trans hEntry, hNone⟩
    cases delivery with
    | lost => exact ⟨hUnlimited, not_awaited_goto hAlone (by simp)⟩
    | unanswered =>
        exact ⟨hStays, not_awaited_goto (s := { s with store := _ }) hAlone (by simp)⟩
    | answered =>
        exact ⟨hStays, not_awaited_goto (s := { s with store := _ }) hAlone (by simp)⟩
  · exact ⟨hUnlimited, not_awaited_goto hAlone (by simp)⟩

/-- A step that loses the EXPIRE of a new counter leaves that counter behind. -/
theorem orphan_of_loses {e : Event} (hSound : Sound s) (hLoses : LosesExpire s e)
    (next : machine.step s e = some t) : ∃ key, Orphan t key := by
  -- the caller `r` is the only one to await the key, and it is sent away
  have hGone {r : ℕ} {key : String} {ttl : ℤ} (hPc : s.pc r = .expire key ttl) :
      Orphan (s.goto r (.finished none)) key := by
    refine ⟨hSound.unlimited r key ttl hPc, ?_⟩
    rintro ⟨r', ttl', hAfter⟩
    rcases goto_pc_eq hAfter with ⟨-, hNew⟩ | ⟨hr, hOld⟩
    · cases hNew
    · exact hr (hSound.unique r' r _ _ _ hOld hPc)
  rcases step_cases next with ⟨later, rfl, -, -⟩ | ⟨r, v, k, period, rfl, -, -⟩ |
    ⟨r, delivery, call, c, rfl, hPc, rfl⟩ | ⟨r, delivery, key, ttl, rfl, hPc, rfl⟩ |
    ⟨r, rfl, -, rfl⟩
  · exact hLoses.elim
  · exact hLoses.elim
  · obtain ⟨rfl, call', c', hPc', hAbsent⟩ := hLoses
    obtain ⟨rfl, rfl⟩ : call = call' ∧ c = c' := by
      rw [hPc] at hPc'
      injection hPc' with hCall hCounter
      exact ⟨hCall, hCounter⟩
    rcases incrStep_cases s r call c .unanswered with ⟨hLost, -⟩ |
      ⟨store, n, hIncr, ⟨-, hStep⟩ | ⟨hAnswered, -⟩⟩
    · cases hLost
    · have hOne : n = 1 := by
        rcases (incr_effect hSound.positive hIncr).2 with ⟨-, hOne, -⟩ | ⟨e, m, hLookup, -⟩
        · exact hOne
        · rw [hAbsent] at hLookup
          cases hLookup
      obtain ⟨hAlone, hUnlimited⟩ := (hSound.incr hIncr).2 hOne
      rw [hStep]
      exact ⟨c.key, hUnlimited,
        not_awaited_goto (s := { s with store := store }) hAlone (by simp)⟩
    · cases hAnswered
  · obtain rfl : delivery = .lost := hLoses
    exact ⟨key, hGone hPc⟩
  · obtain ⟨key, ttl, hPc⟩ := hLoses
    exact ⟨key, hGone hPc⟩

/-- What is awaited stays awaited by somebody else than a caller elsewhere. -/
theorem Covered.goto (h : Covered s) {r : ℕ} (pc : Pc)
    (hr : ∀ key ttl, s.pc r ≠ .expire key ttl) : Covered (s.goto r pc) :=
  fun key hKey => (h key hKey).goto pc (hr key)

theorem Covered.incrStep (hSound : Sound s) (h : Covered s) {r : ℕ} {call : Call} {c : Counter}
    (hPc : s.pc r = .incr call c) {delivery : Delivery}
    (hKeeps : ¬LosesExpire s (.incr r delivery)) : Covered (incrStep s r call c delivery) := by
  -- the caller awaited nothing, so only the counter that it may create is new
  have hOld (store : Store) (n : ℤ) (hIncr : s.store.incr s.clock c.key r = some (store, n))
      (pc : Pc) (key : String) (hKey : Unlimited { s with store := store } key) :
      Awaited ({ s with store := store }.goto r pc) key ∨
        key = c.key ∧ s.store.lookup s.clock c.key = none ∧ n = 1 := by
    rcases unlimited_of_incr hSound hIncr hKey with hBefore | hNew
    · have hAwaited : Awaited { s with store := store } key := h key hBefore
      exact Or.inl (hAwaited.goto pc (by simp [hPc]))
    · exact Or.inr hNew
  rcases incrStep_cases s r call c delivery with ⟨-, hStep⟩ |
    ⟨store, n, hIncr, ⟨rfl, hStep⟩ | ⟨-, hStep⟩⟩
  · rw [hStep]
    exact h.goto _ (by simp [hPc])
  · rw [hStep]
    intro key hKey
    rcases hOld store n hIncr (.finished none) key hKey with hAwaited | ⟨-, hAbsent, -⟩
    · exact hAwaited
    · exact absurd ⟨rfl, call, c, hPc, hAbsent⟩ hKeeps
  · rw [hStep]
    intro key hKey
    rcases hOld store n hIncr (afterIncr call c n) key hKey with hAwaited | ⟨rfl, -, hOne⟩
    · exact hAwaited
    · obtain ⟨ttl, hTtl⟩ := hSound.period r call c hPc
      rcases afterIncr_cases call c n with ⟨ttl', -, -, hAfter⟩ | ⟨hNone, -⟩
      · exact ⟨r, ttl', by rw [goto_pc_self, hAfter]⟩
      · rw [hNone hOne] at hTtl
        cases hTtl

theorem Covered.expireStep (hSound : Sound s) (h : Covered s) {r : ℕ} {key : String} {ttl : ℤ}
    (hPc : s.pc r = .expire key ttl) {delivery : Delivery} (hDelivery : delivery ≠ .lost) :
    Covered (expireStep s r key ttl delivery) := by
  obtain ⟨hOthers, e, hEntry, hNew⟩ := expireLive_effect (hSound.unlimited r key ttl hPc) ttl
  have hExecuted (result : Option ℤ) :
      Covered ({ s with store := s.expireLive key ttl }.goto r (.finished result)) := by
    rintro key' ⟨e', hEntry', hNone⟩
    have hKey : key' ≠ key := by
      rintro rfl
      obtain rfl := Option.some.inj (hNew.symm.trans hEntry')
      cases hNone
    have hAwaited : Awaited { s with store := s.expireLive key ttl } key' :=
      h key' ⟨e', (hOthers key' hKey).symm.trans hEntry', hNone⟩
    refine hAwaited.goto _ ?_
    intro ttl' hSame
    rw [show ({ s with store := s.expireLive key ttl } : State).pc r = s.pc r from rfl,
      hPc] at hSame
    injection hSame with hKeys
    exact hKey hKeys.symm
  cases delivery with
  | lost => exact absurd rfl hDelivery
  | unanswered => exact hExecuted none
  | answered => exact hExecuted (some 1)

/-- The invariant of the runs that lose no EXPIRE. -/
theorem Covered.step {e : Event} (hSound : Sound s) (h : Covered s) (hKeeps : ¬LosesExpire s e)
    (next : machine.step s e = some t) : Covered t := by
  rcases step_cases next with ⟨later, -, -, rfl⟩ | ⟨r, v, k, period, -, hPc, rfl⟩ |
    ⟨r, delivery, call, c, rfl, hPc, rfl⟩ | ⟨r, delivery, key, ttl, rfl, hPc, rfl⟩ |
    ⟨r, rfl, -, rfl⟩
  · exact h
  · obtain ⟨pc, hBegin, -⟩ := begin_eq s r v k period
    rw [hBegin]
    exact h.goto pc (by simp [hPc])
  · exact h.incrStep hSound hPc hKeeps
  · exact h.expireStep hSound hPc hKeeps
  · refine h.goto _ ?_
    intro key ttl hPc
    exact hKeeps ⟨key, ttl, hPc⟩

theorem covered_of_reaches (run : machine.Reaches (fun s e => ¬LosesExpire s e) s) :
    Covered s := by
  apply run.invariant (I := Covered)
  · intro s start key hKey
    obtain ⟨entry, hEntry, -⟩ := hKey
    rw [start.1] at hEntry
    cases hEntry
  · intro s t e prior h hKeeps next
    exact h.step (sound_of_reaches prior) hKeeps next

/-- A counter left behind stays behind however the run goes on. -/
theorem orphan_of_reaches {key : String} (hSound : Sound s) (h : Orphan s key)
    (later : { machine with init := fun first => first = s }.Reaches System.anyRun t) :
    Orphan t key := by
  have hBoth : Sound t ∧ Orphan t key := by
    apply later.invariant (I := fun u => Sound u ∧ Orphan u key)
    · rintro u rfl
      exact ⟨hSound, h⟩
    · intro u v e _ hu _ next
      exact ⟨hu.1.step next, hu.2.step hu.1 next⟩
  exact hBoth.2

/-- No step touches the expiry of a counter that has one. -/
theorem expiry_kept {e : Event} (hSound : Sound s) (next : machine.step s e = some t)
    {key : String} {entry : Redis.Entry ℤ Empty ℕ} {x : ℤ}
    (hLookup : s.store.lookup s.clock key = some entry) (hExpires : entry.expiresAt = some x) :
    ∃ entry', t.store.entries key = some entry' ∧ entry'.expiresAt = some x := by
  have hEntry := (Redis.Server.lookup_eq_some.mp hLookup).1
  rcases step_cases next with ⟨later, -, -, rfl⟩ | ⟨r, v, k, period, -, -, rfl⟩ |
    ⟨r, delivery, call, c, -, -, rfl⟩ | ⟨r, delivery, key', ttl, -, hPc, rfl⟩ | ⟨r, -, -, rfl⟩
  · exact ⟨entry, hEntry, hExpires⟩
  · obtain ⟨pc, hBegin, -⟩ := begin_eq s r v k period
    rw [hBegin]
    exact ⟨entry, hEntry, hExpires⟩
  · have hIncremented (store : Store) (n : ℤ)
        (hIncr : s.store.incr s.clock c.key r = some (store, n)) :
        ∃ entry', store.entries key = some entry' ∧ entry'.expiresAt = some x := by
      obtain ⟨hOthers, hSelf⟩ := incr_effect hSound.positive hIncr
      by_cases hKey : key = c.key
      · subst hKey
        rcases hSelf with ⟨hAbsent, -⟩ | ⟨e, m, hLookup', -, -, -, hNew⟩
        · rw [hLookup] at hAbsent
          cases hAbsent
        · obtain rfl : entry = e := Option.some.inj (hLookup.symm.trans hLookup')
          exact ⟨_, hNew, hExpires⟩
      · exact ⟨entry, (hOthers key hKey).trans hEntry, hExpires⟩
    rcases incrStep_cases s r call c delivery with ⟨-, hStep⟩ |
      ⟨store, n, hIncr, ⟨-, hStep⟩ | ⟨-, hStep⟩⟩
    · rw [hStep]
      exact ⟨entry, hEntry, hExpires⟩
    · rw [hStep]
      exact hIncremented store n hIncr
    · rw [hStep]
      exact hIncremented store n hIncr
  · have hUnlimited := hSound.unlimited r key' ttl hPc
    have hKey : key ≠ key' := by
      rintro rfl
      obtain ⟨e, hEntry', hNone⟩ := hUnlimited
      obtain rfl : entry = e := Option.some.inj (hEntry.symm.trans hEntry')
      rw [hNone] at hExpires
      cases hExpires
    have hStays := ((expireLive_effect hUnlimited ttl).1 key hKey).trans hEntry
    cases delivery with
    | lost => exact ⟨entry, hEntry, hExpires⟩
    | unanswered => exact ⟨entry, hStays, hExpires⟩
    | answered => exact ⟨entry, hStays, hExpires⟩
  · exact ⟨entry, hEntry, hExpires⟩

/-- Every counter that is in Redis has an expiry. -/
def Expiring (s : State) : Prop :=
  ∀ key e, s.store.lookup s.clock key = some e → ∃ x, e.expiresAt = some x

/-- Every quota counter has an expiry once no increment is under way, in the
runs that never lose the EXPIRE of a new counter, and no later step moves it. A
step that does lose it leaves a counter that no continuation of the run expires. -/
theorem counter_expires (s : State) :
    (machine.Reaches (fun s e => ¬LosesExpire s e) s → Quiet s → Expiring s) ∧
    (∀ t e, machine.Reaches System.anyRun s → machine.step s e = some t →
      ∀ key entry x, s.store.lookup s.clock key = some entry → entry.expiresAt = some x →
        ∃ entry', t.store.entries key = some entry' ∧ entry'.expiresAt = some x) ∧
    ∀ t e, machine.Reaches System.anyRun s → LosesExpire s e → machine.step s e = some t →
      ∃ key, ∀ u, { machine with init := fun first => first = t }.Reaches System.anyRun u →
        ∃ entry, u.store.lookup u.clock key = some entry ∧ entry.expiresAt = none := by
  refine ⟨fun run hQuiet key e hLookup => ?_, fun t e run next key entry x hLookup hExpires =>
    expiry_kept (sound_of_reaches run) next hLookup hExpires, fun t e run hLoses next => ?_⟩
  · have hCovered := covered_of_reaches run
    cases hExpires : e.expiresAt with
    | some x => exact ⟨x, rfl⟩
    | none =>
        exact absurd (hCovered key ⟨e, (Redis.Server.lookup_eq_some.mp hLookup).1, hExpires⟩)
          (not_awaited_of_quiet hQuiet key)
  · have hSound := sound_of_reaches run
    obtain ⟨key, hOrphan⟩ := orphan_of_loses hSound hLoses next
    exact ⟨key, fun u later => (orphan_of_reaches (hSound.step next) hOrphan later).1.lookup⟩

section Sample

def sampleStart : State := ⟨Rollover.leapNoon, .empty, fun _ => .idle⟩

theorem init_sampleStart : machine.init sampleStart := ⟨rfl, fun _ => rfl⟩

def sampleCall : Call := ⟨.nil, .nil, "daily", Rollover.leapNoon⟩

def sampleCounter : Counter := ⟨.nil, .nil, "2024-02-29"⟩

/-- The first increment of the day, up to its INCR. -/
def sampleBegun : State := sampleStart.goto 0 (.incr sampleCall sampleCounter)

def sampleCounted : State := incrStep sampleBegun 0 sampleCall sampleCounter .answered

theorem step_sampleStart :
    machine.step sampleStart (.call 0 .nil .nil "daily") = some sampleBegun := rfl

theorem step_sampleBegun :
    machine.step sampleBegun (.incr 0 .answered) = some sampleCounted := rfl

theorem sampleCounted_pc : sampleCounted.pc 0 = .expire sampleCounter.key 86400 := by
  rfl

/-- Callers other than the first have done nothing. -/
theorem sampleCounted_pc_of_ne {r : ℕ} (h : r ≠ 0) : sampleCounted.pc r = .idle := by
  rw [sampleCounted]
  rcases incrStep_cases sampleBegun 0 sampleCall sampleCounter .answered with ⟨hLost, -⟩ |
    ⟨store, n, -, ⟨hUnanswered, -⟩ | ⟨-, hStep⟩⟩
  · cases hLost
  · cases hUnanswered
  · rw [hStep, goto_pc_of_ne h]
    exact goto_pc_of_ne h _

theorem sampleCounted_unlimited : Unlimited sampleCounted sampleCounter.key := by
  exact ⟨⟨.int 1, none, 0⟩, rfl, rfl⟩

theorem quiet_of_finished {s : State} {result : Option ℤ} (hOthers : ∀ r, r ≠ 0 → s.pc r = .idle) :
    Quiet (s.goto 0 (.finished result)) := by
  intro r
  by_cases hr : r = 0
  · subst hr
    rw [goto_pc_self]
    rfl
  · rw [goto_pc_of_ne hr, hOthers r hr]
    rfl

theorem reaches_sampleCounted : machine.Reaches (fun s e => ¬LosesExpire s e) sampleCounted := by
  refine .step (.step (.init init_sampleStart) ?_ step_sampleStart) ?_ step_sampleBegun
  · exact id
  · rintro ⟨h, -⟩
    cases h

/-- The caller that a step is about. -/
def Event.caller : Event → Option ℕ
  | .tick _ => none
  | .call r _ _ _ | .incr r _ | .expire r _ | .cancel r => some r

theorem pc_step {s t : State} {e : Event} {r : ℕ} (next : machine.step s e = some t)
    (hOther : e.caller ≠ some r) : t.pc r = s.pc r := by
  rcases step_cases next with ⟨later, -, -, rfl⟩ | ⟨r', v, k, period, rfl, -, rfl⟩ |
    ⟨r', delivery, call, c, rfl, -, rfl⟩ | ⟨r', delivery, key, ttl, rfl, -, rfl⟩ | ⟨r', rfl, -, rfl⟩
  · rfl
  all_goals have hNe : r ≠ r' := fun h => hOther (congrArg some h.symm)
  · unfold State.begin
    dsimp only
    split <;> exact goto_pc_of_ne hNe _
  · rcases incrStep_cases s r' call c delivery with ⟨-, hStep⟩ |
      ⟨store, n, -, ⟨-, hStep⟩ | ⟨-, hStep⟩⟩ <;> rw [hStep] <;> exact goto_pc_of_ne hNe _
  · cases delivery <;> exact goto_pc_of_ne hNe _
  · exact goto_pc_of_ne hNe _

/-- A run of the first `n` callers. -/
def AmongFirst (n : ℕ) (s : State) (e : Event) : Prop :=
  ¬LosesExpire s e ∧ ∀ r ∈ e.caller, r < n

instance (n : ℕ) (s : State) (e : Event) : Decidable (AmongFirst n s e) :=
  inferInstanceAs (Decidable (¬LosesExpire s e ∧ ∀ r ∈ e.caller, r < n))

theorem quiet_of_amongFirst {n : ℕ} {s : State} (run : machine.Reaches (AmongFirst n) s)
    (hFirst : ∀ r ∈ List.range n, (s.pc r).inProgress = false) : Quiet s := by
  have hIdle : ∀ r, n ≤ r → s.pc r = .idle := by
    clear hFirst
    induction run with
    | init start => exact fun r _ => start.2 r
    | step _ hAllowed next ih =>
        intro r hr
        rw [pc_step next fun hCaller => absurd (hAllowed.2 r hCaller) (not_lt.mpr hr)]
        exact ih r hr
  intro r
  rcases lt_or_ge r n with hLess | hMore
  · exact hFirst r (List.mem_range.mpr hLess)
  · rw [hIdle r hMore]
    rfl

/-- Two callers count, and the answer of the second INCR is lost; a third one is
cancelled before its INCR. -/
def harmless : List Event :=
  [.call 0 .nil .nil "daily", .call 1 .nil .nil "daily", .call 2 .nil .nil "daily",
    .incr 0 .answered, .incr 1 .unanswered, .cancel 2, .expire 0 .answered]

theorem counter_expires_sample :
    ∃ s, quotaUsage ((s.store.entries sampleCounter.key).map Redis.Entry.value) = some 2 ∧
      Expiring s := by
  have hCheck : (machine.exec (AmongFirst 3) sampleStart harmless).any (fun s =>
      decide (quotaUsage ((s.store.entries sampleCounter.key).map Redis.Entry.value) = some 2 ∧
        ∀ r ∈ List.range 3, (s.pc r).inProgress = false)) = true := by
    decide +kernel
  obtain ⟨s, run, hEnd⟩ := (System.Reaches.init init_sampleStart).exec_any hCheck
  obtain ⟨hUsage, hFirst⟩ := of_decide_eq_true hEnd
  exact ⟨s, hUsage, (counter_expires s).1 (run.mono fun _ _ hAllowed => hAllowed.1)
    (quiet_of_amongFirst run hFirst)⟩

/-- The increment is cancelled between its two commands: nothing is under way
and the counter has no expiry. -/
theorem counter_without_expiry :
    ¬∀ s, machine.Reaches System.anyRun s → Quiet s → Expiring s := by
  intro hAll
  have hStep : machine.step sampleCounted (.cancel 0) =
      some (sampleCounted.goto 0 (.finished none)) := by
    simp only [machine, sampleCounted_pc, Pc.inProgress, if_true]
  have hExpiring := hAll _ (.step (reaches_sampleCounted.mono fun _ _ _ => trivial) trivial hStep)
    (quiet_of_finished fun _ h => sampleCounted_pc_of_ne h)
  obtain ⟨e, hLookup, hNone⟩ := sampleCounted_unlimited.lookup
  obtain ⟨x, hExpires⟩ := hExpiring _ e hLookup
  rw [hNone] at hExpires
  cases hExpires

end Sample

end Gateway.Quota.Callers
