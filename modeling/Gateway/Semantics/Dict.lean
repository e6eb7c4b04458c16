import Mathlib.Data.List.Nodup

/-! Dictionaries that remember the order in which their keys were first
inserted. An update of a present key keeps its place. -/

structure Dict (Key Value : Type*) where
  items : List (Key × Value)
  nodup : (items.map Prod.fst).Nodup

namespace Dict

variable {Key Value : Type*}

@[ext] theorem ext {d d' : Dict Key Value} (h : d.items = d'.items) : d = d' := by
  cases d
  cases d'
  simpa using h

def keys (d : Dict Key Value) : List Key := d.items.map Prod.fst

def empty : Dict Key Value := ⟨[], List.nodup_nil⟩

/-- The entries whose key satisfies a test, as a comprehension with `if` builds them. -/
def filterKeys (d : Dict Key Value) (p : Key → Bool) : Dict Key Value :=
  ⟨d.items.filter fun e => p e.1, (List.filter_sublist.map Prod.fst).nodup d.nodup⟩

/-- A filter that keeps everything present changes nothing, and conversely. -/
theorem filterKeys_eq_self {d : Dict Key Value} {p : Key → Bool} :
    d.filterKeys p = d ↔ ∀ k ∈ d.keys, p k = true := by
  constructor
  · intro h k hk
    obtain ⟨e, he, rfl⟩ := List.mem_map.mp hk
    rw [← h] at he
    exact (List.mem_filter.mp he).2
  · intro h
    apply ext
    exact List.filter_eq_self.mpr fun e he => h e.1 (List.mem_map_of_mem he)

/-- A filter that keeps a known entry keeps only that one exactly if it keeps no
other key. -/
theorem filter_eq_singleton {d : Dict Key Value} {p : Key → Bool} {k : Key} {v : Value}
    (h : (k, v) ∈ d.items) (hp : p k = true) :
    (d.items.filter fun e => p e.1) = [(k, v)] ↔ ∀ k' ∈ d.keys, p k' = true → k' = k := by
  have hMem : (k, v) ∈ d.items.filter fun e => p e.1 := List.mem_filter.mpr ⟨h, hp⟩
  have hNodup : ((d.items.filter fun e => p e.1).map Prod.fst).Nodup :=
    (List.filter_sublist.map Prod.fst).nodup d.nodup
  constructor
  · intro hOnly k' hk' hp'
    obtain ⟨e, he, rfl⟩ := List.mem_map.mp hk'
    have hKept : e ∈ d.items.filter fun e => p e.1 := List.mem_filter.mpr ⟨he, hp'⟩
    rw [hOnly, List.mem_singleton] at hKept
    rw [hKept]
  · intro hOnly
    have hKey : ∀ e ∈ d.items.filter fun e => p e.1, e.1 = k := by
      intro e he
      obtain ⟨he, hp'⟩ := List.mem_filter.mp he
      exact hOnly e.1 (List.mem_map_of_mem he) hp'
    generalize (d.items.filter fun e => p e.1) = kept at hMem hNodup hKey
    cases kept with
    | nil => cases hMem
    | cons e rest =>
        cases rest with
        | nil => rw [List.mem_singleton.mp hMem]
        | cons e' rest =>
            have hSame : e.1 = e'.1 := by
              rw [hKey e (by simp), hKey e' (by simp)]
            simp [hSame] at hNodup

theorem filterKeys_filterKeys (d : Dict Key Value) (p q : Key → Bool) :
    (d.filterKeys p).filterKeys q = d.filterKeys fun k => p k && q k := by
  apply ext
  simp [filterKeys, List.filter_filter, Bool.and_comm]

section Update

variable [DecidableEq Key]

/-- The items after `d[k] = v`. -/
def insertItems (items : List (Key × Value)) (k : Key) (v : Value) : List (Key × Value) :=
  if k ∈ items.map Prod.fst then items.map fun e => if e.1 = k then (k, v) else e
  else items ++ [(k, v)]

theorem insertItems_keys (items : List (Key × Value)) (k : Key) (v : Value) :
    (insertItems items k v).map Prod.fst =
      if k ∈ items.map Prod.fst then items.map Prod.fst else items.map Prod.fst ++ [k] := by
  unfold insertItems
  split_ifs with h
  · rw [List.map_map]
    apply List.map_congr_left
    intro e _
    by_cases he : e.1 = k <;> simp [he]
  · simp

def insert (d : Dict Key Value) (k : Key) (v : Value) : Dict Key Value where
  items := insertItems d.items k v
  nodup := by
    rw [insertItems_keys]
    split_ifs with h
    · exact d.nodup
    · exact List.nodup_append.mpr ⟨d.nodup, List.nodup_singleton k, by
        intro a ha b hb
        rw [List.mem_singleton.mp hb]
        rintro rfl
        exact h ha⟩

/-- Pairs inserted from left to right: the last value of a repeated key wins. -/
def ofList (pairs : List (Key × Value)) : Dict Key Value :=
  pairs.foldl (fun d e => d.insert e.1 e.2) empty

def get? (d : Dict Key Value) (k : Key) : Option Value :=
  (d.items.find? fun e => decide (e.1 = k)).map Prod.snd

theorem insert_filterKeys (d : Dict Key Value) (p : Key → Bool) (k : Key) (v : Value) :
    (d.insert k v).filterKeys p =
      if p k then (d.filterKeys p).insert k v else d.filterKeys p := by
  have hMem : p k = true →
      (k ∈ (d.items.filter fun e => p e.1).map Prod.fst ↔ k ∈ d.items.map Prod.fst) := by
    intro hp
    simp [hp]
  have hUpdate (items : List (Key × Value)) :
      ((items.map fun e => if e.1 = k then (k, v) else e).filter fun e => p e.1) =
        (items.filter fun e => p e.1).map fun e => if e.1 = k then (k, v) else e := by
    rw [List.filter_map]
    congr 1
    apply List.filter_congr
    intro e _
    by_cases he : e.1 = k <;> simp [he]
  have hSame (items : List (Key × Value)) (hp : ¬p k = true) :
      ((items.filter fun e => p e.1).map fun e => if e.1 = k then (k, v) else e) =
        items.filter fun e => p e.1 := by
    refine (List.map_congr_left fun e he => ?_).trans (List.map_id _)
    have hne : e.1 ≠ k := by
      rintro rfl
      exact hp (List.mem_filter.mp he).2
    simp [hne]
  apply ext
  by_cases hp : p k = true
  · rw [if_pos hp]
    simp only [filterKeys, insert, insertItems, hMem hp]
    split_ifs with hk
    · exact hUpdate d.items
    · simp [hp]
  · rw [if_neg hp]
    simp only [filterKeys, insert, insertItems]
    split_ifs with hk
    · rw [hUpdate, hSame _ hp]
    · simp [hp]

theorem foldl_insert_filterKeys (p : Key → Bool) (pairs : List (Key × Value))
    (d : Dict Key Value) :
    (pairs.foldl (fun d e => d.insert e.1 e.2) d).filterKeys p =
      (pairs.filter fun e => p e.1).foldl (fun d e => d.insert e.1 e.2) (d.filterKeys p) := by
  induction pairs generalizing d with
  | nil => rfl
  | cons e pairs ih =>
      rw [List.foldl_cons, ih, insert_filterKeys, List.filter_cons]
      split_ifs <;> rfl

/-- Filtering the pairs before or after building the dictionary is the same. -/
theorem ofList_filterKeys (p : Key → Bool) (pairs : List (Key × Value)) :
    (ofList pairs).filterKeys p = ofList (pairs.filter fun e => p e.1) :=
  foldl_insert_filterKeys p pairs empty

theorem insert_keys (d : Dict Key Value) (k : Key) (v : Value) :
    (d.insert k v).keys = if k ∈ d.keys then d.keys else d.keys ++ [k] :=
  insertItems_keys d.items k v

theorem mem_keys_insert {d : Dict Key Value} {k k' : Key} {v : Value} :
    k' ∈ (d.insert k v).keys ↔ k' = k ∨ k' ∈ d.keys := by
  rw [insert_keys]
  split_ifs with h
  · constructor
    · exact Or.inr
    · rintro (rfl | h')
      · exact h
      · exact h'
  · simp [or_comm]

theorem mem_keys_foldl_insert {pairs : List (Key × Value)} {d : Dict Key Value} {k : Key} :
    k ∈ (pairs.foldl (fun d e => d.insert e.1 e.2) d).keys ↔
      k ∈ pairs.map Prod.fst ∨ k ∈ d.keys := by
  induction pairs generalizing d with
  | nil => simp
  | cons e pairs ih =>
      rw [List.foldl_cons, ih, mem_keys_insert, List.map_cons, List.mem_cons]
      tauto

theorem mem_keys_ofList {pairs : List (Key × Value)} {k : Key} :
    k ∈ (ofList pairs).keys ↔ k ∈ pairs.map Prod.fst := by
  rw [ofList, mem_keys_foldl_insert]
  simp [keys, empty]

/-- A new key comes behind the others. -/
theorem items_insert {d : Dict Key Value} {k : Key} {v : Value} (h : k ∉ d.keys) :
    (d.insert k v).items = d.items ++ [(k, v)] :=
  if_neg h

omit [DecidableEq Key] in
/-- A pair whose name is not repeated brings a new key. -/
theorem notMem_keys_of_nodup {d : Dict Key Value} {e : Key × Value} {pairs : List (Key × Value)}
    (h : ((d.items ++ e :: pairs).map Prod.fst).Nodup) : e.1 ∉ d.keys := by
  intro hOld
  rw [List.map_append, List.nodup_append] at h
  exact h.2.2 e.1 hOld e.1 (by simp) rfl

theorem foldl_insert_items {pairs : List (Key × Value)} {d : Dict Key Value}
    (hNodup : ((d.items ++ pairs).map Prod.fst).Nodup) :
    (pairs.foldl (fun d e => d.insert e.1 e.2) d).items = d.items ++ pairs := by
  induction pairs generalizing d with
  | nil => simp
  | cons e pairs ih =>
      have hInsert : (d.insert e.1 e.2).items = d.items ++ [e] :=
        items_insert (notMem_keys_of_nodup hNodup)
      rw [List.foldl_cons, ih, hInsert]
      · simp
      · rw [hInsert]
        simpa using hNodup

/-- Pairs with different keys are the items of their dictionary. -/
theorem ofList_items {pairs : List (Key × Value)} (hNodup : (pairs.map Prod.fst).Nodup) :
    (ofList pairs).items = pairs := by
  have hEmpty : (((empty : Dict Key Value).items ++ pairs).map Prod.fst).Nodup := by
    simpa [empty] using hNodup
  rw [ofList, foldl_insert_items hEmpty]
  rfl

theorem mem_items_insert {d : Dict Key Value} {k : Key} {v : Value} {e : Key × Value} :
    e ∈ (d.insert k v).items ↔ e = (k, v) ∨ e ∈ d.items ∧ e.1 ≠ k := by
  simp only [insert, insertItems]
  split_ifs with hk
  · rw [List.mem_map]
    constructor
    · rintro ⟨e', he', rfl⟩
      by_cases hSame : e'.1 = k
      · rw [if_pos hSame]
        exact Or.inl rfl
      · rw [if_neg hSame]
        exact Or.inr ⟨he', hSame⟩
    · rintro (rfl | ⟨he, hNe⟩)
      · obtain ⟨e', he', hSame⟩ := List.mem_map.mp hk
        exact ⟨e', he', if_pos hSame⟩
      · exact ⟨e, he, if_neg hNe⟩
  · rw [List.mem_append, List.mem_singleton]
    constructor
    · rintro (he | he)
      · exact Or.inr ⟨he, fun hSame => hk (hSame ▸ List.mem_map_of_mem he)⟩
      · exact Or.inl he
    · rintro (he | ⟨he, _⟩)
      · exact Or.inr he
      · exact Or.inl he

/-- The entries of the other keys stay, and the key has one entry. -/
theorem insert_items_perm (d : Dict Key Value) (k : Key) (v : Value) :
    (d.insert k v).items.Perm ((d.items.filter fun e => decide (e.1 ≠ k)) ++ [(k, v)]) := by
  have hKept : (d.items.filter fun e => decide (e.1 ≠ k)).Nodup :=
    d.nodup.of_map.sublist List.filter_sublist
  rw [List.perm_ext_iff_of_nodup (d.insert k v).nodup.of_map]
  · intro e
    rw [mem_items_insert, List.mem_append, List.mem_singleton, List.mem_filter,
      decide_eq_true_iff]
    exact or_comm
  · rw [List.nodup_append]
    refine ⟨hKept, List.nodup_singleton _, ?_⟩
    intro a ha b hb hSame
    rw [List.mem_singleton] at hb
    subst hb
    subst hSame
    exact of_decide_eq_true (List.mem_filter.mp ha).2 rfl

/-- The items of a dictionary are the pairs exactly if their keys differ. -/
theorem ofList_perm_iff {pairs : List (Key × Value)} :
    (ofList pairs).items.Perm pairs ↔ (pairs.map Prod.fst).Nodup := by
  constructor
  · intro h
    exact ((h.map Prod.fst).nodup_iff).mp (ofList pairs).nodup
  · intro h
    rw [ofList_items h]

/-- An update brings no entry of its own. -/
theorem of_mem_foldl_insert {pairs : List (Key × Value)} {d : Dict Key Value} {e : Key × Value}
    (h : e ∈ (pairs.foldl (fun d e => d.insert e.1 e.2) d).items) : e ∈ pairs ∨ e ∈ d.items := by
  induction pairs generalizing d with
  | nil => exact Or.inr h
  | cons pair pairs ih =>
      cases ih h with
      | inl hRest => exact Or.inl (List.mem_cons_of_mem _ hRest)
      | inr hNew =>
          cases mem_items_insert.mp hNew with
          | inl hSame => exact Or.inl (hSame ▸ List.mem_cons_self)
          | inr hOld => exact Or.inr hOld.1

theorem of_mem_ofList {pairs : List (Key × Value)} {e : Key × Value}
    (h : e ∈ (ofList pairs).items) : e ∈ pairs := by
  cases of_mem_foldl_insert h with
  | inl hPair => exact hPair
  | inr hNone => cases hNone

/-- `d.update(pairs)` -/
def update (d : Dict Key Value) (pairs : List (Key × Value)) : Dict Key Value :=
  pairs.foldl (fun d e => d.insert e.1 e.2) d

theorem mem_keys_update {d : Dict Key Value} {pairs : List (Key × Value)} {k : Key} :
    k ∈ (d.update pairs).keys ↔ k ∈ pairs.map Prod.fst ∨ k ∈ d.keys :=
  mem_keys_foldl_insert

theorem mem_items_update_of_notMem {d : Dict Key Value} {pairs : List (Key × Value)}
    {e : Key × Value} (he : e ∈ d.items) (hNew : e.1 ∉ pairs.map Prod.fst) :
    e ∈ (d.update pairs).items := by
  induction pairs generalizing d with
  | nil => exact he
  | cons pair pairs ih =>
      obtain ⟨hHead, hTail⟩ : e.1 ≠ pair.1 ∧ e.1 ∉ pairs.map Prod.fst := by
        simpa using hNew
      exact ih (mem_items_insert.mpr (Or.inr ⟨he, hHead⟩)) hTail

/-- Pairs with different keys are all there after an update. -/
theorem mem_items_update {d : Dict Key Value} {pairs : List (Key × Value)} {e : Key × Value}
    (hNodup : (pairs.map Prod.fst).Nodup) (he : e ∈ pairs) : e ∈ (d.update pairs).items := by
  induction pairs generalizing d with
  | nil => cases he
  | cons pair pairs ih =>
      obtain ⟨hHead, hTail⟩ := List.nodup_cons.mp hNodup
      cases he with
      | head =>
          change e ∈ ((d.insert e.1 e.2).update pairs).items
          exact mem_items_update_of_notMem (mem_items_insert.mpr (Or.inl rfl)) hHead
      | tail _ hRest => exact ih hTail hRest

theorem get?_eq_some {d : Dict Key Value} {k : Key} {v : Value} :
    d.get? k = some v ↔ (k, v) ∈ d.items := by
  have hFind (items : List (Key × Value)) (hNodup : (items.map Prod.fst).Nodup) :
      (items.find? fun e => decide (e.1 = k)).map Prod.snd = some v ↔ (k, v) ∈ items := by
    induction items with
    | nil => simp
    | cons e items ih =>
        obtain ⟨hHead, hTail⟩ := List.nodup_cons.mp hNodup
        by_cases he : e.1 = k
        · have hNot : (k, v) ∉ items := fun hMem => hHead (he ▸ List.mem_map_of_mem hMem)
          rw [List.find?_cons_of_pos (by simpa using he), List.mem_cons]
          constructor
          · intro h
            exact Or.inl (Prod.ext he.symm (Option.some.inj h).symm)
          · rintro (h | h)
            · rw [← h]
              rfl
            · exact absurd h hNot
        · have hNe : (k, v) ≠ e := fun h => he (h ▸ rfl)
          rw [List.find?_cons_of_neg (by simpa using he), ih hTail, List.mem_cons]
          simp [hNe]
  exact hFind d.items d.nodup

/-- The order of the entries does not matter for a lookup. -/
theorem get?_perm {d d' : Dict Key Value} (h : d.items.Perm d'.items) (k : Key) :
    d.get? k = d'.get? k := by
  apply Option.ext
  intro v
  rw [get?_eq_some, get?_eq_some, h.mem_iff]

end Update

end Dict
