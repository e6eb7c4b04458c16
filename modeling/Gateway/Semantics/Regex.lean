import Mathlib.Data.List.Basic
import Mathlib.Tactic.Common

/-! Regular expressions of Python's `re` as far as they repeat single characters:
the ways in which a pattern matches, in the order in which a backtracking search
tries them. `re.match` takes the first. -/
namespace Text

inductive Pattern where
  | empty
  /-- One character of a set. -/
  | set (p : Char → Bool)
  /-- Greedily, characters of a set. -/
  | star (p : Char → Bool)
  | seq (a b : Pattern)
  /-- The left alternative is tried first. -/
  | alt (a b : Pattern)
  | group (n : ℕ) (a : Pattern)
  /-- `^` -/
  | start
  /-- `$`, which also matches before a line feed at the end. -/
  | stop

/-- The text that is matched, what follows it, and the groups, the latest first. -/
structure Match where
  text : List Char
  rest : List Char
  groups : List (ℕ × List Char)

/-- `m.group(n)`; `none` if the group took no part. -/
def Match.group (m : Match) (n : ℕ) : Option String := (m.groups.lookup n).map String.ofList

def Match.append (m m' : Match) : Match := ⟨m.text ++ m'.text, m'.rest, m'.groups ++ m.groups⟩

/-- A text cut after some characters of a set, the most first. -/
def spans (p : Char → Bool) : List Char → List (List Char × List Char)
  | [] => [([], [])]
  | c :: s => if p c then (spans p s).map (fun cut => (c :: cut.1, cut.2)) ++ [([], c :: s)]
      else [([], c :: s)]

namespace Pattern

def ways : Pattern → ℕ → List Char → List Match
  | .empty, _, s => [⟨[], s, []⟩]
  | .set _, _, [] => []
  | .set p, _, c :: s => if p c then [⟨[c], s, []⟩] else []
  | .star p, _, s => (spans p s).map fun cut => ⟨cut.1, cut.2, []⟩
  | .seq a b, position, s =>
      (a.ways position s).flatMap fun m =>
        (b.ways (position + m.text.length) m.rest).map m.append
  | .alt a b, position, s => a.ways position s ++ b.ways position s
  | .group n a, position, s =>
      (a.ways position s).map fun m => { m with groups := (n, m.text) :: m.groups }
  | .start, position, s => if position = 0 then [⟨[], s, []⟩] else []
  | .stop, _, s => if s = [] ∨ s = ['\n'] then [⟨[], s, []⟩] else []

/-- The characters of a text, one after the other. -/
def lit : List Char → Pattern
  | [] => .empty
  | c :: s => .seq (.set fun d => d == c) (lit s)

/-- `[..]+` -/
def plus (p : Char → Bool) : Pattern := .seq (.set p) (.star p)

/-- `(..)?` -/
def opt (a : Pattern) : Pattern := .alt a .empty

/-- `re.match` -/
def match? (a : Pattern) (s : String) : Option Match := (a.ways 0 s.toList).head?

end Pattern

section Ways

variable {p : Char → Bool} {a b : Pattern} {position n : ℕ} {s t : List Char} {m m' : Match}

theorem spans_cons {c : Char} : spans p (c :: s) =
    if p c then (spans p s).map (fun cut => (c :: cut.1, cut.2)) ++ [([], c :: s)]
    else [([], c :: s)] := rfl

@[simp] theorem ways_empty : Pattern.empty.ways position s = [⟨[], s, []⟩] := rfl

@[simp] theorem ways_set_nil : (Pattern.set p).ways position [] = [] := rfl

theorem ways_set_cons {c : Char} : (Pattern.set p).ways position (c :: s) =
    if p c then [⟨[c], s, []⟩] else [] := rfl

theorem ways_star : (Pattern.star p).ways position s =
    (spans p s).map fun cut => ⟨cut.1, cut.2, []⟩ := rfl

theorem ways_seq : (Pattern.seq a b).ways position s = (a.ways position s).flatMap fun m =>
    (b.ways (position + m.text.length) m.rest).map m.append := rfl

theorem ways_alt : (Pattern.alt a b).ways position s = a.ways position s ++ b.ways position s := rfl

theorem ways_group : (Pattern.group n a).ways position s =
    (a.ways position s).map fun m => { m with groups := (n, m.text) :: m.groups } := rfl

theorem ways_start : Pattern.start.ways position s = if position = 0 then [⟨[], s, []⟩] else [] :=
  rfl

theorem ways_stop : Pattern.stop.ways position s =
    if s = [] ∨ s = ['\n'] then [⟨[], s, []⟩] else [] := rfl

theorem lit_nil : Pattern.lit [] = .empty := rfl

theorem lit_cons {c : Char} : Pattern.lit (c :: s) = .seq (.set fun d => d == c) (.lit s) := rfl

/-- A cut is one, and only characters of the set are in front of it. -/
theorem of_mem_spans {cut : List Char × List Char} (h : cut ∈ spans p s) :
    s = cut.1 ++ cut.2 ∧ ∀ c ∈ cut.1, p c = true := by
  induction s generalizing cut with
  | nil =>
      obtain rfl := List.mem_singleton.mp h
      exact ⟨rfl, fun c hc => absurd hc List.not_mem_nil⟩
  | cons c s ih =>
      have hLast : cut = ([], c :: s) → c :: s = cut.1 ++ cut.2 ∧ ∀ d ∈ cut.1, p d = true := by
        rintro rfl
        exact ⟨rfl, fun d hd => absurd hd List.not_mem_nil⟩
      rw [spans] at h
      split_ifs at h with hc
      · rcases List.mem_append.mp h with hLonger | hNow
        · obtain ⟨shorter, hMem, rfl⟩ := List.mem_map.mp hLonger
          obtain ⟨hCut, hAll⟩ := ih hMem
          refine ⟨congrArg (c :: ·) hCut, ?_⟩
          intro d hd
          rcases List.mem_cons.mp hd with rfl | hOld
          · exact hc
          · exact hAll d hOld
        · exact hLast (List.mem_singleton.mp hNow)
      · exact hLast (List.mem_singleton.mp h)

/-- The first cut is after all the characters of the set. -/
theorem head_spans : (spans p s).head? = some (s.takeWhile p, s.dropWhile p) := by
  induction s with
  | nil => rfl
  | cons c s ih =>
      rw [spans_cons]
      split_ifs with hc
      · rw [List.head?_append, List.head?_map, ih, List.takeWhile_cons_of_pos hc,
          List.dropWhile_cons_of_pos hc]
        rfl
      · rw [List.takeWhile_cons_of_neg hc, List.dropWhile_cons_of_neg hc]
        rfl

theorem mem_seq : m ∈ (Pattern.seq a b).ways position s ↔
    ∃ first ∈ a.ways position s, ∃ second ∈ b.ways (position + first.text.length) first.rest,
      m = first.append second := by
  simp [ways_seq, eq_comm]

theorem mem_group : m ∈ (Pattern.group n a).ways position s ↔
    ∃ inner ∈ a.ways position s, m = { inner with groups := (n, inner.text) :: inner.groups } := by
  simp [ways_group, eq_comm]

theorem mem_alt : m ∈ (Pattern.alt a b).ways position s ↔
    m ∈ a.ways position s ∨ m ∈ b.ways position s := List.mem_append

theorem mem_start : m ∈ Pattern.start.ways position s ↔ position = 0 ∧ m = ⟨[], s, []⟩ := by
  rw [ways_start]
  split_ifs <;> simp_all

theorem mem_stop : m ∈ Pattern.stop.ways position s ↔
    (s = [] ∨ s = ['\n']) ∧ m = ⟨[], s, []⟩ := by
  rw [ways_stop]
  split_ifs <;> simp_all

theorem mem_set : m ∈ (Pattern.set p).ways position s ↔
    ∃ c rest, s = c :: rest ∧ p c = true ∧ m = ⟨[c], rest, []⟩ := by
  cases s with
  | nil => simp
  | cons c s =>
      rw [ways_set_cons]
      split_ifs with hc <;> simp_all

/-- A literal text matches itself and nothing else. -/
theorem mem_lit : m ∈ (Pattern.lit t).ways position s ↔
    ∃ rest, s = t ++ rest ∧ m = ⟨t, rest, []⟩ := by
  induction t generalizing position s m with
  | nil => simp [lit_nil]
  | cons c t ih =>
      rw [lit_cons, mem_seq]
      constructor
      · rintro ⟨first, hFirst, second, hSecond, rfl⟩
        obtain ⟨d, rest, rfl, hd, rfl⟩ := mem_set.mp hFirst
        obtain ⟨rest', rfl, rfl⟩ := ih.mp hSecond
        obtain rfl : d = c := by simpa using hd
        exact ⟨rest', rfl, rfl⟩
      · rintro ⟨rest, rfl, rfl⟩
        exact ⟨⟨[c], t ++ rest, []⟩, mem_set.mpr ⟨c, _, rfl, by simp, rfl⟩, ⟨t, rest, []⟩,
          ih.mpr ⟨rest, rfl, rfl⟩, rfl⟩

/-- A repetition stays inside its set and captures nothing. -/
theorem of_mem_star (h : m ∈ (Pattern.star p).ways position s) :
    s = m.text ++ m.rest ∧ (∀ c ∈ m.text, p c = true) ∧ m.groups = [] := by
  obtain ⟨cut, hCut, rfl⟩ := List.mem_map.mp h
  exact ⟨(of_mem_spans hCut).1, (of_mem_spans hCut).2, rfl⟩

theorem of_mem_plus (h : m ∈ (Pattern.plus p).ways position s) :
    s = m.text ++ m.rest ∧ m.text ≠ [] ∧ (∀ c ∈ m.text, p c = true) ∧ m.groups = [] := by
  obtain ⟨first, hFirst, second, hSecond, rfl⟩ := mem_seq.mp h
  obtain ⟨c, rest, rfl, hc, rfl⟩ := mem_set.mp hFirst
  obtain ⟨hRest, hAll, hGroups⟩ := of_mem_star hSecond
  refine ⟨congrArg (c :: ·) hRest, by simp [Match.append], ?_, by simp [Match.append, hGroups]⟩
  intro d hd
  rcases List.mem_cons.mp hd with rfl | hd
  · exact hc
  · exact hAll d hd

end Ways

/-- The way that a backtracking search finds first. -/
def First (a : Pattern) (position : ℕ) (s : List Char) (m : Match) : Prop :=
  (a.ways position s).head? = some m

section First

variable {p : Char → Bool} {a b : Pattern} {position n : ℕ} {s t : List Char} {m m' : Match}

theorem First.mem (h : First a position s m) : m ∈ a.ways position s := List.mem_of_head? h

/-- The search goes on behind the first way and need not come back. -/
theorem First.seq (h : First a position s m) (h' : First b (position + m.text.length) m.rest m') :
    First (.seq a b) position s (m.append m') := by
  obtain ⟨others, hFirst⟩ := List.head?_eq_some_iff.mp h
  obtain ⟨others', hSecond⟩ := List.head?_eq_some_iff.mp h'
  rw [First, ways_seq, hFirst, List.flatMap_cons, hSecond, List.map_cons]
  rfl

theorem First.alt_left (h : First a position s m) : First (.alt a b) position s m := by
  obtain ⟨others, hFirst⟩ := List.head?_eq_some_iff.mp h
  rw [First, ways_alt, hFirst]
  rfl

theorem First.alt_right (hNone : a.ways position s = []) (h : First b position s m) :
    First (.alt a b) position s m := by
  rw [First, ways_alt, hNone]
  exact h

theorem First.group (h : First a position s m) :
    First (.group n a) position s { m with groups := (n, m.text) :: m.groups } := by
  obtain ⟨others, hFirst⟩ := List.head?_eq_some_iff.mp h
  rw [First, ways_group, hFirst]
  rfl

theorem first_star : First (.star p) position s ⟨s.takeWhile p, s.dropWhile p, []⟩ := by
  rw [First, ways_star, List.head?_map, head_spans]
  rfl

theorem first_start : First .start 0 s ⟨[], s, []⟩ := rfl

theorem first_stop (h : s = [] ∨ s = ['\n']) : First .stop position s ⟨[], s, []⟩ := by
  rw [First, ways_stop, if_pos h]
  rfl

theorem first_set {c : Char} (h : p c = true) : First (.set p) position (c :: s) ⟨[c], s, []⟩ := by
  rw [First, ways_set_cons, if_pos h]
  rfl

theorem first_lit : First (.lit t) position (t ++ s) ⟨t, s, []⟩ := by
  induction t generalizing position with
  | nil => rfl
  | cons c t ih => exact (first_set (by simp)).seq ih

theorem first_plus (h : s.takeWhile p ≠ []) :
    First (.plus p) position s ⟨s.takeWhile p, s.dropWhile p, []⟩ := by
  cases s with
  | nil => exact absurd rfl h
  | cons c s =>
      by_cases hc : p c = true
      · rw [List.takeWhile_cons_of_pos hc, List.dropWhile_cons_of_pos hc]
        exact (first_set hc).seq first_star
      · exact absurd (List.takeWhile_cons_of_neg hc) h

end First

end Text
