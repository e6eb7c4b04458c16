import Gateway.Semantics.Text
import Mathlib.Data.List.Infix
import Mathlib.Algebra.Order.Ring.Int

/-! Glob patterns in the manner of Redis, read and matched byte by byte. A token
tests one letter or stands for any run of letters. -/
namespace Glob

inductive Token (α : Type*) where
  | one (test : α → Bool)
  | star

section Matching

variable {α : Type*}

/-- The tokens match the whole text. -/
def accepts : List (Token α) → List α → Bool
  | [], s => s.isEmpty
  | .star :: ts, s => s.tails.any fun rest => accepts ts rest
  | .one _ :: _, [] => false
  | .one test :: ts, c :: s => test c && accepts ts s

/-- The number of tokens before the first star. -/
def headLength : List (Token α) → ℕ
  | [] => 0
  | .star :: _ => 0
  | .one _ :: ts => headLength ts + 1

variable {ts us : List (Token α)} {s v : List α}

theorem accepts_star : accepts (.star :: ts) s = true ↔ ∃ u v, s = u ++ v ∧ accepts ts v = true := by
  simp only [accepts, List.any_eq_true, List.mem_tails]
  constructor
  · rintro ⟨v, ⟨u, hSplit⟩, hRest⟩
    exact ⟨u, v, hSplit.symm, hRest⟩
  · rintro ⟨u, v, hSplit, hRest⟩
    exact ⟨v, ⟨u, hSplit.symm⟩, hRest⟩

@[simp] theorem accepts_star_nil : accepts [.star] s = true :=
  accepts_star.mpr ⟨s, [], by simp, rfl⟩

theorem length_of_accepts (h : accepts ts s = true) (hStar : .star ∉ ts) :
    s.length = ts.length := by
  induction ts generalizing s with
  | nil => simpa [accepts] using h
  | cons t ts ih =>
      cases t with
      | star => simp at hStar
      | one test =>
          cases s with
          | nil => cases h
          | cons c s =>
              have hRest : accepts ts s = true := by simp_all [accepts]
              simp [ih hRest (by simpa using hStar)]

/-- What is put in where the first star stands is matched as well. -/
theorem accepts_insert (h : accepts ts s = true) (hStar : .star ∈ ts) :
    ∃ u v, s = u ++ v ∧ u.length = headLength ts ∧
      ∀ more, accepts ts (u ++ (more ++ v)) = true := by
  induction ts generalizing s with
  | nil => cases hStar
  | cons t ts ih =>
      cases t with
      | star =>
          refine ⟨[], s, rfl, rfl, fun more => ?_⟩
          obtain ⟨u, v, rfl, hRest⟩ := accepts_star.mp h
          exact accepts_star.mpr ⟨more ++ u, v, by simp, hRest⟩
      | one test =>
          cases s with
          | nil => cases h
          | cons c s =>
              obtain ⟨hTest, hRest⟩ := Bool.and_eq_true_iff.mp h
              obtain ⟨u, v, rfl, hLength, hMore⟩ := ih hRest (by simpa using hStar)
              refine ⟨c :: u, v, rfl, by simp [headLength, hLength], fun more => ?_⟩
              simp [accepts, hTest, hMore]

theorem headLength_lt (hStar : .star ∈ ts) : headLength ts < ts.length := by
  induction ts with
  | nil => cases hStar
  | cons t ts ih =>
      cases t with
      | star => simp [headLength]
      | one test => simpa [headLength] using ih (by simpa using hStar)

end Matching

section Syntax

open Text

def asterisk : UInt8 := '*'.toUInt8

def question : UInt8 := '?'.toUInt8

def bracket : UInt8 := '['.toUInt8

def closing : UInt8 := ']'.toUInt8

def caret : UInt8 := '^'.toUInt8

def dash : UInt8 := '-'.toUInt8

def escape : UInt8 := Char.toUInt8 (Char.ofNat 92)

-- the value of a `char`, which is signed on some platforms
variable (value : UInt8 → ℤ)

/-- The order of the two bounds does not matter. -/
def inRange (low high c : UInt8) : Bool :=
  decide (min (value low) (value high) ≤ value c ∧ value c ≤ max (value low) (value high))

/-- One more item of a set. -/
def orItem (test : UInt8 → Bool) (set : (UInt8 → Bool) × Bytes) : (UInt8 → Bool) × Bytes :=
  (fun c => test c || set.1 c, set.2)

/-- The items of a set and what follows its closing bracket. A set that is not
closed ends with the pattern. -/
def parseSet : ℕ → Bytes → (UInt8 → Bool) × Bytes
  | 0, rest => (fun _ => false, rest)
  | _ + 1, [] => (fun _ => false, [])
  | n + 1, c :: rest =>
      match decide (c = escape), rest with
      | true, d :: rest => orItem (· == d) (parseSet n rest)
      | _, rest =>
          if c = closing then (fun _ => false, rest)
          else
            match rest with
            | d :: high :: rest' =>
                if d = dash then orItem (inRange value c high) (parseSet n rest')
                else orItem (· == c) (parseSet n rest)
            | _ => orItem (· == c) (parseSet n rest)

/-- The tokens of a pattern, with its length as fuel. -/
def parse : ℕ → Bytes → List (Token UInt8)
  | 0, _ => []
  | _ + 1, [] => []
  | n + 1, c :: rest =>
      if c = asterisk then .star :: parse n rest
      else if c = question then .one (fun _ => true) :: parse n rest
      else if c = bracket then
        if rest.head? = some caret then
          let set := parseSet value n rest.tail
          .one (fun c => !set.1 c) :: parse n set.2
        else
          let set := parseSet value n rest
          .one set.1 :: parse n set.2
      else
        match decide (c = escape), rest with
        | true, d :: rest => .one (· == d) :: parse n rest
        | _, rest => .one (· == c) :: parse n rest

/-- `stringmatchlen`, for a text that is not empty. -/
def globMatches (pattern text : String) : Bool :=
  accepts (parse value (utf8 pattern).length (utf8 pattern)) (utf8 text)

example : globMatches (fun c => c.toNat) "a[^b-d]?*" "aex" = true := by decide

/-- A byte that makes a pattern shorter or longer than what it matches. -/
def Elastic (c : UInt8) : Prop := c = asterisk ∨ c = bracket ∨ c = escape

instance (c : UInt8) : Decidable (Elastic c) := inferInstanceAs (Decidable (_ ∨ _ ∨ _))

/-- The token of a byte that is not elastic. -/
def simple (c : UInt8) : Token UInt8 := .one fun d => decide (c = question) || d == c

variable {value} {n : ℕ} {a b : Bytes} {c : UInt8}

theorem length_parseSet_cons (hNext : ∀ p, (parseSet value n p).2.length ≤ p.length) :
    (parseSet value (n + 1) (c :: a)).2.length ≤ a.length := by
  unfold parseSet
  split
  case h_1 d rest _ =>
    show (parseSet value n rest).2.length ≤ (d :: rest).length
    exact (hNext rest).trans (by simp)
  case h_2 =>
    split_ifs
    · exact le_rfl
    · split
      case h_1 d high rest _ =>
        split_ifs
        · show (parseSet value n rest).2.length ≤ (d :: high :: rest).length
          have hRest := hNext rest
          simp only [List.length_cons]
          omega
        · exact hNext (d :: high :: rest)
      case h_2 => exact hNext _

theorem length_parseSet_le (value : UInt8 → ℤ) (n : ℕ) (p : Bytes) : (parseSet value n p).2.length ≤ p.length := by
  induction n generalizing p with
  | zero => exact le_rfl
  | succ n ih =>
      cases p with
      | nil => exact le_rfl
      | cons c rest => exact (length_parseSet_cons ih).trans (by simp)

theorem length_parse_le (value : UInt8 → ℤ) (n : ℕ) (p : Bytes) : (parse value n p).length ≤ p.length := by
  induction n generalizing p with
  | zero => exact Nat.zero_le _
  | succ n ih =>
      cases p with
      | nil => exact le_rfl
      | cons c rest =>
          unfold parse
          split_ifs
          · simpa using ih rest
          · simpa using ih rest
          · have hRest := ih (parseSet value n rest.tail).2
            have hSet := length_parseSet_le value n rest.tail
            simp only [List.length_cons, List.length_tail] at *
            omega
          · have hRest := ih (parseSet value n rest).2
            have hSet := length_parseSet_le value n rest
            simp only [List.length_cons] at *
            omega
          · split
            case h_1 d rest _ =>
              have hRest := ih rest
              simp only [List.length_cons]
              omega
            case h_2 => simpa using ih _

theorem parse_simple (hSimple : ∀ c ∈ a, ¬Elastic c) :
    parse value (a.length + n) (a ++ b) = a.map simple ++ parse value n b := by
  induction a with
  | nil => simp
  | cons c a ih =>
      have hNot : ¬Elastic c := hSimple c List.mem_cons_self
      have hRest := ih fun d hd => hSimple d (List.mem_cons_of_mem _ hd)
      simp only [Elastic, not_or] at hNot
      simp only [List.length_cons, Nat.add_right_comm _ 1, List.cons_append, parse, hNot.1,
        hNot.2.1, hNot.2.2, decide_false, if_false, hRest, List.map_cons, simple]
      split_ifs with hQuestion
      · simp [hQuestion]
      · simp [hQuestion]

theorem headLength_simple {ts : List (Token UInt8)} :
    headLength (a.map simple ++ ts) = a.length + headLength ts := by
  induction a with
  | nil => simp
  | cons c a ih =>
      simp only [List.map_cons, List.cons_append, simple, headLength, List.length_cons] at ih ⊢
      omega

/-- Without a question mark the bytes match themselves only. -/
theorem accepts_simple {ts : List (Token UInt8)} {s : Bytes} (hPlain : question ∉ a) :
    accepts (a.map simple ++ ts) s = true ↔ ∃ rest, s = a ++ rest ∧ accepts ts rest = true := by
  induction a generalizing s with
  | nil => simp
  | cons c a ih =>
      have hNot : c ≠ question := fun h => hPlain (h ▸ List.mem_cons_self)
      have hRest := ih (s := s.tail) fun h => hPlain (List.mem_cons_of_mem _ h)
      cases s with
      | nil => simp [accepts, simple]
      | cons d s =>
          simp only [List.tail_cons] at hRest
          simp only [List.map_cons, List.cons_append, simple, accepts, decide_eq_false hNot,
            Bool.false_or, Bool.and_eq_true, beq_iff_eq, hRest, List.cons.injEq]
          constructor
          · rintro ⟨rfl, rest, rfl, hTail⟩
            exact ⟨rest, ⟨rfl, rfl⟩, hTail⟩
          · rintro ⟨rest, ⟨rfl, rfl⟩, hTail⟩
            exact ⟨rfl, rest, rfl, hTail⟩

/-- A question mark matches any byte. -/
theorem accepts_question {ts : List (Token UInt8)} {a' : Bytes}
    (hSame : List.Forall₂ (fun c d => c = question ∨ d = c) a a') {s : Bytes}
    (hRest : accepts ts s = true) : accepts (a.map simple ++ ts) (a' ++ s) = true := by
  induction hSame with
  | nil => exact hRest
  | cons hHead _ ih =>
      rcases hHead with rfl | rfl <;> simp_all [accepts, simple]

/-- Behind an elastic byte the tokens before the star fall behind the bytes. -/
theorem headLength_elastic (hElastic : Elastic c) (hb : b ≠ []) (hFuel : b.length ≤ n)
    (hStar : .star ∈ parse value (n + 1) (c :: b)) :
    headLength (parse value (n + 1) (c :: b)) < b.length := by
  have hPos : 0 < b.length := List.length_pos_iff.mpr hb
  have hBehind (test : UInt8 → Bool) (rest : Bytes) (hRest : rest.length < b.length)
      (hParse : parse value (n + 1) (c :: b) = .one test :: parse value n rest) :
      headLength (parse value (n + 1) (c :: b)) < b.length := by
    rw [hParse] at hStar ⊢
    have hHead := headLength_lt (show .star ∈ parse value n rest by simpa using hStar)
    have hTokens := length_parse_le value n rest
    simp only [headLength]
    omega
  rcases hElastic with rfl | rfl | rfl
  · simpa [parse, headLength] using hPos
  · have hNext := length_parseSet_le value
    obtain ⟨m, rfl⟩ : ∃ m, n = m + 1 := ⟨n - 1, by omega⟩
    obtain ⟨d, rest, rfl⟩ := List.exists_cons_of_ne_nil hb
    by_cases hCaret : d = caret
    · apply hBehind (fun c => !(parseSet value (m + 1) rest).1 c) (parseSet value (m + 1) rest).2
      · exact (hNext (m + 1) rest).trans_lt (by simp)
      · simp [parse, hCaret, show bracket ≠ asterisk by decide, show bracket ≠ question by decide]
    · apply hBehind (parseSet value (m + 1) (d :: rest)).1 (parseSet value (m + 1) (d :: rest)).2
      · exact Nat.lt_succ_of_le (length_parseSet_cons (hNext m))
      · simp [parse, hCaret, show bracket ≠ asterisk by decide, show bracket ≠ question by decide]
  · obtain ⟨d, rest, rfl⟩ := List.exists_cons_of_ne_nil hb
    refine hBehind (· == d) rest (by simp) ?_
    simp [parse, show escape ≠ asterisk by decide, show escape ≠ question by decide,
      show escape ≠ bracket by decide]

/-- The first elastic byte. -/
theorem exists_first_elastic (h : ∃ c ∈ a, Elastic c) :
    ∃ front c back, a = front ++ c :: back ∧ Elastic c ∧ ∀ d ∈ front, ¬Elastic d := by
  obtain ⟨c, hFind⟩ := Option.isSome_iff_exists.mp
    (List.find?_isSome (p := fun c => decide (Elastic c)) |>.mpr (by simpa using h))
  obtain ⟨hElastic, front, back, hSplit, hFront⟩ := List.find?_eq_some_iff_append.mp hFind
  exact ⟨front, c, back, hSplit, of_decide_eq_true hElastic, fun d hd => by simpa using hFront d hd⟩

/-- A pattern with an elastic byte that matches a longer text matches it also
behind anything that begins like the pattern. -/
theorem accepts_again {base tail w : Bytes} (hElastic : ∃ c ∈ base, Elastic c)
    (hTail : tail.length = 2) (hLong : tail.length < w.length)
    (h : accepts (parse value (base ++ tail).length (base ++ tail)) (base ++ w) = true)
    (more : Bytes) :
    accepts (parse value (base ++ tail).length (base ++ tail)) (base ++ (more ++ (base ++ w))) =
      true := by
  have hStar : .star ∈ parse value (base ++ tail).length (base ++ tail) := by
    by_contra hNot
    have hLength := length_of_accepts h hNot
    have hTokens := length_parse_le value (base ++ tail).length (base ++ tail)
    simp only [List.length_append] at hLength hTokens
    omega
  have hHead : headLength (parse value (base ++ tail).length (base ++ tail)) ≤ base.length := by
    obtain ⟨front, c, back, rfl, hc, hFront⟩ := exists_first_elastic hElastic
    have hSplit : front ++ c :: back ++ tail = front ++ c :: (back ++ tail) := by simp
    have hFuel : (front ++ c :: (back ++ tail)).length =
        front.length + ((back ++ tail).length + 1) := by simp
    rw [hSplit, hFuel, parse_simple hFront] at hStar ⊢
    have hBehind := headLength_elastic hc (List.append_ne_nil_of_right_ne_nil back
      (List.ne_nil_of_length_eq_add_one hTail)) le_rfl
      (show .star ∈ parse value ((back ++ tail).length + 1) (c :: (back ++ tail)) by
        simpa [simple] using hStar)
    rw [headLength_simple]
    simp only [List.length_append, List.length_cons] at hBehind ⊢
    omega
  obtain ⟨u, v, hSplit, hLength, hMore⟩ := accepts_insert h hStar
  obtain ⟨gap, rfl⟩ : u <+: base :=
    List.prefix_of_prefix_length_le ⟨v, hSplit.symm⟩ (List.prefix_append base w) (by omega)
  have hRest : v = gap ++ w := by
    rw [List.append_assoc] at hSplit
    exact (List.append_cancel_left hSplit).symm
  have hAgain := hMore (gap ++ (more ++ u))
  rw [hRest] at hAgain
  simpa [List.append_assoc] using hAgain

end Syntax

end Glob
