import Mathlib.Logic.Function.Basic
import Mathlib.Order.Lattice
import Mathlib.Tactic.Common

/-! The part of a Redis server that concurrent clients share: string keys with
expiry, the counters, and pub/sub connections. Times are points of an arbitrary
linear order. Every entry and every message carries the client that wrote it;
no reply depends on this provenance. -/
namespace Redis

variable {Time Key Payload Client : Type*}

/-- A stored string is either an integer in decimal or some other text. -/
inductive Value (Payload : Type*) where
  | int (n : Int)
  | text (payload : Payload)
  deriving DecidableEq

structure Entry (Time Payload Client : Type*) where
  value : Value Payload
  expiresAt : Option Time
  writer : Client

/-- What a subscribed connection reads: first the confirmation of its own
SUBSCRIBE, then the published messages in order. -/
inductive Frame (Payload Client : Type*) where
  | subscribe
  | message (payload : Payload) (publisher : Client)

structure Subscription (Key Payload Client : Type*) where
  channel : Key
  frames : List (Frame Payload Client)

structure Server (Time Key Payload Client : Type*) where
  entries : Key → Option (Entry Time Payload Client)
  subscriptions : Client → Option (Subscription Key Payload Client)

/-- A server with no key and no subscriber. -/
def Server.empty : Server Time Key Payload Client := ⟨fun _ => none, fun _ => none⟩

section Expiry

variable [LinearOrder Time]

/-- A key is gone from the very instant of its expiry on. -/
def Entry.live (now : Time) (e : Entry Time Payload Client) : Bool :=
  e.expiresAt.all fun t => decide (now < t)

theorem Entry.live_anti {now later : Time} (hle : now ≤ later) {e : Entry Time Payload Client}
    (h : e.live later = true) : e.live now = true := by
  cases hExp : e.expiresAt with
  | none => simp [Entry.live, hExp]
  | some t =>
      have hLater : later < t := by simpa [Entry.live, hExp] using h
      simpa [Entry.live, hExp] using lt_of_le_of_lt hle hLater

end Expiry

namespace Server

section Read

variable [LinearOrder Time]

/-- The unexpired entry under a key. -/
def lookup (s : Server Time Key Payload Client) (now : Time) (k : Key) :
    Option (Entry Time Payload Client) :=
  (s.entries k).filter fun e => e.live now

/-- GET -/
def get (s : Server Time Key Payload Client) (now : Time) (k : Key) : Option (Value Payload) :=
  (s.lookup now k).map Entry.value

theorem lookup_eq_some {s : Server Time Key Payload Client} {now : Time} {k : Key}
    {e : Entry Time Payload Client} :
    s.lookup now k = some e ↔ s.entries k = some e ∧ e.live now = true := by
  simp [lookup, Option.filter_eq_some_iff]

theorem lookup_eq_none {s : Server Time Key Payload Client} {now : Time} {k : Key} :
    s.lookup now k = none ↔ ∀ e, s.entries k = some e → e.live now = false := by
  simp [lookup, Option.filter_eq_none_iff]

theorem get_eq_some {s : Server Time Key Payload Client} {now : Time} {k : Key}
    {v : Value Payload} :
    s.get now k = some v ↔ ∃ e, s.lookup now k = some e ∧ e.value = v := by
  simp [get]

theorem get_eq_none {s : Server Time Key Payload Client} {now : Time} {k : Key} :
    s.get now k = none ↔ s.lookup now k = none := by
  simp [get]

theorem lookup_congr {s s' : Server Time Key Payload Client} {k : Key}
    (h : s'.entries k = s.entries k) (now : Time) : s'.lookup now k = s.lookup now k := by
  simp [lookup, h]

/-- As time passes an entry can only disappear. -/
theorem lookup_anti {s : Server Time Key Payload Client} {now later : Time} (hle : now ≤ later)
    {k : Key} {e : Entry Time Payload Client} (h : s.lookup later k = some e) :
    s.lookup now k = some e := by
  rw [lookup_eq_some] at h ⊢
  exact ⟨h.1, Entry.live_anti hle h.2⟩

end Read

section Write

variable [DecidableEq Key]

/-- SET, with the instant of expiry that `EX` gives, if any. -/
def set (s : Server Time Key Payload Client) (k : Key) (v : Value Payload)
    (expiresAt : Option Time) (c : Client) : Server Time Key Payload Client :=
  { s with entries := Function.update s.entries k (some ⟨v, expiresAt, c⟩) }

/-- DEL -/
def del (s : Server Time Key Payload Client) (k : Key) : Server Time Key Payload Client :=
  { s with entries := Function.update s.entries k none }

/-- DEL of several keys at once. -/
def delMany (s : Server Time Key Payload Client) (ks : List Key) :
    Server Time Key Payload Client :=
  { s with entries := fun k => if k ∈ ks then none else s.entries k }

/-- EXPIRE keeps the value of a present key and moves its instant of expiry. -/
def expire (s : Server Time Key Payload Client) (k : Key) (t : Time) :
    Server Time Key Payload Client :=
  { s with
    entries := Function.update s.entries k
      ((s.entries k).map fun e => ⟨e.value, some t, e.writer⟩) }

@[simp] theorem set_entries_self (s : Server Time Key Payload Client) (k : Key)
    (v : Value Payload) (t : Option Time) (c : Client) :
    (s.set k v t c).entries k = some ⟨v, t, c⟩ := by
  simp [set]

theorem set_entries_of_ne (s : Server Time Key Payload Client) {k k' : Key} (h : k' ≠ k)
    (v : Value Payload) (t : Option Time) (c : Client) :
    (s.set k v t c).entries k' = s.entries k' := by
  simp [set, h]

theorem eq_of_lookup_set [LinearOrder Time] {s : Server Time Key Payload Client} {k : Key}
    {v : Value Payload} {t : Option Time} {c : Client} {now : Time} {e : Entry Time Payload Client}
    (h : (s.set k v t c).lookup now k = some e) : e = ⟨v, t, c⟩ := by
  have hEntry := (lookup_eq_some.mp h).1
  rw [set_entries_self] at hEntry
  exact (Option.some.inj hEntry).symm

@[simp] theorem del_entries_self (s : Server Time Key Payload Client) (k : Key) :
    (s.del k).entries k = none := by
  simp [del]

theorem del_entries_of_ne (s : Server Time Key Payload Client) {k k' : Key} (h : k' ≠ k) :
    (s.del k).entries k' = s.entries k' := by
  simp [del, h]

theorem delMany_entries_eq_some {s : Server Time Key Payload Client} {ks : List Key} {k : Key}
    {e : Entry Time Payload Client} :
    (s.delMany ks).entries k = some e ↔ k ∉ ks ∧ s.entries k = some e := by
  by_cases hk : k ∈ ks <;> simp [delMany, hk]

theorem lookup_delMany_eq_some [LinearOrder Time] {s : Server Time Key Payload Client}
    {ks : List Key} {k : Key} {now : Time} {e : Entry Time Payload Client} :
    (s.delMany ks).lookup now k = some e ↔ k ∉ ks ∧ s.lookup now k = some e := by
  rw [lookup_eq_some, lookup_eq_some, delMany_entries_eq_some, and_assoc]

theorem expire_entries_self (s : Server Time Key Payload Client) (k : Key) (t : Time) :
    (s.expire k t).entries k = (s.entries k).map fun e => ⟨e.value, some t, e.writer⟩ := by
  simp [expire]

theorem expire_entries_of_ne (s : Server Time Key Payload Client) {k k' : Key} (h : k' ≠ k)
    (t : Time) : (s.expire k t).entries k' = s.entries k' := by
  simp [expire, h]

end Write

section ConditionalWrite

variable [DecidableEq Key] [LinearOrder Time]

/-- SET NX: nothing happens when the key is present. -/
def setNx (s : Server Time Key Payload Client) (now : Time) (k : Key) (v : Value Payload)
    (expiresAt : Option Time) (c : Client) : Server Time Key Payload Client × Bool :=
  match s.lookup now k with
  | some _ => (s, false)
  | none => (s.set k v expiresAt c, true)

/-- INCR: an absent key starts from zero without expiry, a present one keeps
its expiry. The command is refused on a text. -/
def incr (s : Server Time Key Payload Client) (now : Time) (k : Key) (c : Client) :
    Option (Server Time Key Payload Client × Int) :=
  match s.lookup now k with
  | none => some (s.set k (.int 1) none c, 1)
  | some ⟨.int n, expiresAt, _⟩ => some (s.set k (.int (n + 1)) expiresAt c, n + 1)
  | some ⟨.text _, _, _⟩ => none

theorem setNx_of_some {s : Server Time Key Payload Client} {now : Time} {k : Key}
    {e : Entry Time Payload Client} (h : s.lookup now k = some e) (v : Value Payload)
    (t : Option Time) (c : Client) : s.setNx now k v t c = (s, false) := by
  simp [setNx, h]

theorem setNx_of_none {s : Server Time Key Payload Client} {now : Time} {k : Key}
    (h : s.lookup now k = none) (v : Value Payload) (t : Option Time) (c : Client) :
    s.setNx now k v t c = (s.set k v t c, true) := by
  simp [setNx, h]

theorem setNx_entries_of_ne (s : Server Time Key Payload Client) {k k' : Key} (h : k' ≠ k)
    (now : Time) (v : Value Payload) (t : Option Time) (c : Client) :
    (s.setNx now k v t c).1.entries k' = s.entries k' := by
  unfold setNx
  split
  · rfl
  · exact set_entries_of_ne s h v t c

@[simp] theorem setNx_subscriptions (s : Server Time Key Payload Client) (now : Time) (k : Key)
    (v : Value Payload) (t : Option Time) (c : Client) :
    (s.setNx now k v t c).1.subscriptions = s.subscriptions := by
  unfold setNx
  split <;> rfl

/-- An increment stores the integer it answers: one without expiry under an
absent key, else one more than before under the same expiry. -/
theorem incr_cases {s s' : Server Time Key Payload Client} {now : Time} {k : Key} {c : Client}
    {n : Int} (h : s.incr now k c = some (s', n)) :
    (s.lookup now k = none ∧ n = 1 ∧ s' = s.set k (.int 1) none c) ∨
      ∃ m t d, s.lookup now k = some ⟨.int m, t, d⟩ ∧ n = m + 1 ∧
        s' = s.set k (.int (m + 1)) t c := by
  unfold incr at h
  split at h
  case h_1 hLookup =>
    cases h
    exact Or.inl ⟨hLookup, rfl, rfl⟩
  case h_2 m t d hLookup =>
    cases h
    exact Or.inr ⟨m, t, d, hLookup, rfl, rfl⟩
  case h_3 => cases h

theorem incr_frame {s s' : Server Time Key Payload Client} {now : Time} {k : Key} {c : Client}
    {n : Int} (h : s.incr now k c = some (s', n)) :
    (∀ k', k' ≠ k → s'.entries k' = s.entries k') ∧ s'.subscriptions = s.subscriptions := by
  rcases incr_cases h with ⟨_, _, rfl⟩ | ⟨m, t, d, _, _, rfl⟩
  · exact ⟨fun k' hk => set_entries_of_ne s hk _ _ _, rfl⟩
  · exact ⟨fun k' hk => set_entries_of_ne s hk _ _ _, rfl⟩

end ConditionalWrite

section PubSub

variable [DecidableEq Client]

/-- SUBSCRIBE on a fresh connection of the client. -/
def subscribe (s : Server Time Key Payload Client) (c : Client) (channel : Key) :
    Server Time Key Payload Client :=
  { s with subscriptions :=
      Function.update s.subscriptions c (some ⟨channel, [.subscribe]⟩) }

/-- UNSUBSCRIBE and close of the client's connection. -/
def unsubscribe (s : Server Time Key Payload Client) (c : Client) :
    Server Time Key Payload Client :=
  { s with subscriptions := Function.update s.subscriptions c none }

/-- One read of the client's connection takes the oldest unread frame. -/
def poll (s : Server Time Key Payload Client) (c : Client) :
    Server Time Key Payload Client × Option (Frame Payload Client) :=
  match s.subscriptions c with
  | some ⟨channel, frame :: rest⟩ =>
      ({ s with subscriptions := Function.update s.subscriptions c (some ⟨channel, rest⟩) },
        some frame)
  | _ => (s, none)

/-- PUBLISH reaches every connection subscribed at that moment. -/
def publish [DecidableEq Key] (s : Server Time Key Payload Client) (channel : Key)
    (payload : Payload) (c : Client) : Server Time Key Payload Client :=
  { s with subscriptions := fun d => (s.subscriptions d).map fun sub =>
      if sub.channel = channel then { sub with frames := sub.frames ++ [.message payload c] }
      else sub }

@[simp] theorem poll_entries (s : Server Time Key Payload Client) (c : Client) :
    (s.poll c).1.entries = s.entries := by
  unfold poll
  split <;> rfl

theorem poll_cons {s : Server Time Key Payload Client} {c : Client} {channel : Key}
    {frame : Frame Payload Client} {rest : List (Frame Payload Client)}
    (h : s.subscriptions c = some ⟨channel, frame :: rest⟩) :
    (s.poll c).2 = some frame ∧ (s.poll c).1.subscriptions c = some ⟨channel, rest⟩ := by
  simp [poll, h]

theorem poll_nil {s : Server Time Key Payload Client} {c : Client} {channel : Key}
    (h : s.subscriptions c = some ⟨channel, []⟩) : s.poll c = (s, none) := by
  simp [poll, h]

theorem poll_subscriptions_of_ne (s : Server Time Key Payload Client) {c d : Client}
    (h : d ≠ c) : (s.poll c).1.subscriptions d = s.subscriptions d := by
  unfold poll
  split <;> simp [h]

/-- A frame is waiting to be read on the client's connection. -/
def Unread (s : Server Time Key Payload Client) (c : Client) (frame : Frame Payload Client) :
    Prop :=
  ∃ sub, s.subscriptions c = some sub ∧ frame ∈ sub.frames

theorem unread_of_poll {s : Server Time Key Payload Client} {c : Client}
    {frame : Frame Payload Client} (h : (s.poll c).2 = some frame) : s.Unread c frame := by
  unfold poll at h
  split at h
  case h_1 channel first rest hSub =>
    obtain rfl := Option.some.inj h
    exact ⟨_, hSub, List.mem_cons_self⟩
  case h_2 => cases h

theorem Unread.of_poll {s : Server Time Key Payload Client} {c d : Client}
    {frame : Frame Payload Client} (h : (s.poll d).1.Unread c frame) : s.Unread c frame := by
  by_cases hc : c = d
  · subst hc
    unfold poll at h
    split at h
    case h_1 channel first rest hSub =>
      obtain ⟨sub, hAfter, hMem⟩ := h
      obtain rfl : _ = sub := by simpa using hAfter
      exact ⟨_, hSub, List.mem_cons_of_mem _ hMem⟩
    case h_2 => exact h
  · obtain ⟨sub, hAfter, hMem⟩ := h
    exact ⟨sub, (poll_subscriptions_of_ne s hc) ▸ hAfter, hMem⟩

theorem Unread.of_subscribe {s : Server Time Key Payload Client} {c d : Client} {channel : Key}
    {payload : Payload} {x : Client} (h : (s.subscribe d channel).Unread c (.message payload x)) :
    s.Unread c (.message payload x) := by
  obtain ⟨sub, hAfter, hMem⟩ := h
  by_cases hc : c = d
  · subst hc
    obtain rfl : _ = sub := by simpa [subscribe] using hAfter
    simp at hMem
  · exact ⟨sub, by simpa [subscribe, hc] using hAfter, hMem⟩

theorem Unread.of_unsubscribe {s : Server Time Key Payload Client} {c d : Client}
    {frame : Frame Payload Client} (h : (s.unsubscribe d).Unread c frame) : s.Unread c frame := by
  obtain ⟨sub, hAfter, hMem⟩ := h
  by_cases hc : c = d
  · simp [unsubscribe, hc] at hAfter
  · exact ⟨sub, by simpa [unsubscribe, hc] using hAfter, hMem⟩

omit [DecidableEq Client] in
/-- A message that is unread after a PUBLISH was unread before it, or is its own
message on a connection subscribed to its channel. -/
theorem Unread.of_publish [DecidableEq Key] {s : Server Time Key Payload Client} {c d x : Client}
    {channel : Key} {payload q : Payload}
    (h : (s.publish channel payload d).Unread c (.message q x)) :
    s.Unread c (.message q x) ∨
      q = payload ∧ x = d ∧ ∃ sub, s.subscriptions c = some sub ∧ sub.channel = channel := by
  obtain ⟨sub, hAfter, hMem⟩ := h
  obtain ⟨before, hBefore, rfl⟩ := Option.map_eq_some_iff.mp hAfter
  split_ifs at hMem with hChannel
  · rcases List.mem_append.mp hMem with hOld | hNew
    · exact Or.inl ⟨before, hBefore, hOld⟩
    · have hFrame := List.mem_singleton.mp hNew
      injection hFrame with hPayload hPublisher
      exact Or.inr ⟨hPayload, hPublisher, before, hBefore, hChannel⟩
  · exact Or.inl ⟨before, hBefore, hMem⟩

end PubSub

end Server

end Redis
