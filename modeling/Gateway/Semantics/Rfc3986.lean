import Mathlib.Data.List.TakeWhile
import Mathlib.Tactic.Common

/-! The generic syntax of URIs: a reference falls into its components at the
first `:`, `/`, `?` and `#`, and dot segments are removed from a path. -/
namespace Rfc3986

/-- The components of a URI reference. -/
structure Reference where
  scheme : Option (List Char)
  authority : Option (List Char)
  path : List Char
  query : Option (List Char)
  fragment : Option (List Char)

/-- The component in front of the first of some characters. -/
def before (stops : List Char) (s : List Char) : List Char := s.takeWhile (· ∉ stops)

def after (stops : List Char) (s : List Char) : List Char := s.dropWhile (· ∉ stops)

def splitScheme (s : List Char) : Option (List Char) × List Char :=
  match before [':', '/', '?', '#'] s, after [':', '/', '?', '#'] s with
  | c :: name, ':' :: rest => (some (c :: name), rest)
  | _, _ => (none, s)

def splitAuthority : List Char → Option (List Char) × List Char
  | '/' :: '/' :: s => (some (before ['/', '?', '#'] s), after ['/', '?', '#'] s)
  | s => (none, s)

def splitQuery : List Char → Option (List Char) × List Char
  | '?' :: s => (some (before ['#'] s), after ['#'] s)
  | s => (none, s)

def splitFragment : List Char → Option (List Char)
  | '#' :: s => some s
  | _ => none

def parse (s : List Char) : Reference :=
  let (scheme, s) := splitScheme s
  let (authority, s) := splitAuthority s
  let path := before ['?', '#'] s
  let (query, s) := splitQuery (after ['?', '#'] s)
  ⟨scheme, authority, path, query, splitFragment s⟩

section Components

variable {stops s t : List Char} {c : Char}

theorem before_append_after : before stops s ++ after stops s = s :=
  List.takeWhile_append_dropWhile

theorem notMem_before : ∀ c ∈ before stops s, c ∉ stops := by
  intro c hc
  exact of_decide_eq_true (List.mem_takeWhile_imp (p := fun c => decide (c ∉ stops)) hc)

theorem before_append (h : ∀ c ∈ s, c ∉ stops) : before stops (s ++ t) = s ++ before stops t :=
  List.takeWhile_append_of_pos fun c hc => decide_eq_true (h c hc)

theorem after_append (h : ∀ c ∈ s, c ∉ stops) : after stops (s ++ t) = after stops t :=
  List.dropWhile_append_of_pos fun c hc => decide_eq_true (h c hc)

theorem before_cons (h : c ∈ stops) : before stops (c :: s) = [] := by
  simp [before, h]

theorem after_cons (h : c ∈ stops) : after stops (c :: s) = c :: s := by
  simp [after, h]

theorem before_eq_self (h : ∀ c ∈ s, c ∉ stops) : before stops s = s := by
  have hAppend := before_append (t := []) h
  simpa [before] using hAppend

theorem after_eq_nil (h : ∀ c ∈ s, c ∉ stops) : after stops s = [] := by
  have hAppend := after_append (t := []) h
  simpa [after] using hAppend

/-- What follows a component begins with a stop. -/
theorem after_eq_cons (h : after stops s = c :: t) : c ∈ stops := by
  have hHead := List.head?_dropWhile_not (fun c => decide (c ∉ stops)) s
  rw [show s.dropWhile (fun c => decide (c ∉ stops)) = c :: t from h] at hHead
  simpa using hHead

end Components

/-- A scheme and an authority. -/
structure Site where
  scheme : List Char
  authority : List Char
  scheme_ne : scheme ≠ []
  authority_ne : authority ≠ []
  scheme_clean : ∀ c ∈ scheme, c ∉ [':', '/', '?', '#']
  authority_clean : ∀ c ∈ authority, c ∉ ['/', '?', '#']

def Site.text (site : Site) : List Char := site.scheme ++ ':' :: '/' :: '/' :: site.authority

/-- A path below an authority. -/
def Rooted (path : List Char) : Prop := path = [] ∨ ∃ rest, path = '/' :: rest

section Parsing

variable {s rest name authority path : List Char}

theorem splitScheme_append (hNe : name ≠ []) (hClean : ∀ c ∈ name, c ∉ [':', '/', '?', '#']) :
    splitScheme (name ++ ':' :: rest) = (some name, rest) := by
  obtain ⟨c, name, rfl⟩ := List.exists_cons_of_ne_nil hNe
  rw [splitScheme, before_append hClean, after_append hClean, before_cons (by simp),
    after_cons (by simp), List.append_nil]
  rfl

theorem of_splitScheme (h : splitScheme s = (some name, rest)) :
    s = name ++ ':' :: rest ∧ name ≠ [] ∧ ∀ c ∈ name, c ∉ [':', '/', '?', '#'] := by
  unfold splitScheme at h
  split at h
  case h_1 c name' rest' hBefore hAfter =>
    cases h
    have hText : before [':', '/', '?', '#'] s ++ after [':', '/', '?', '#'] s = s :=
      before_append_after
    rw [hBefore, hAfter] at hText
    rw [← hBefore] at hText ⊢
    refine ⟨hText.symm, by simp [hBefore], notMem_before⟩
  case h_2 => cases h

theorem splitAuthority_append (hClean : ∀ c ∈ authority, c ∉ ['/', '?', '#'])
    (hRooted : Rooted rest) :
    splitAuthority ('/' :: '/' :: (authority ++ rest)) = (some authority, rest) := by
  rw [splitAuthority, before_append hClean, after_append hClean]
  rcases hRooted with rfl | ⟨tail, rfl⟩
  · simp [before, after]
  · rw [before_cons (by simp), after_cons (by simp), List.append_nil]

theorem of_splitAuthority (h : splitAuthority s = (some authority, rest)) :
    s = '/' :: '/' :: (authority ++ rest) ∧ (∀ c ∈ authority, c ∉ ['/', '?', '#']) ∧
      ∀ c tail, rest = c :: tail → c ∈ ['/', '?', '#'] := by
  unfold splitAuthority at h
  split at h
  case h_1 tail =>
    cases h
    refine ⟨by rw [before_append_after], notMem_before, ?_⟩
    intro c tail hCons
    exact after_eq_cons hCons
  case h_2 => cases h

/-- The components of a path below a site. -/
theorem parse_site (site : Site) (hRooted : Rooted path) :
    (parse (site.text ++ path)).scheme = some site.scheme ∧
      (parse (site.text ++ path)).authority = some site.authority ∧
      (parse (site.text ++ path)).path = before ['?', '#'] path ∧
      ((∀ c ∈ path, c ∉ ['?', '#']) → (parse (site.text ++ path)).query = none) := by
  have hText : site.text ++ path =
      site.scheme ++ ':' :: '/' :: '/' :: (site.authority ++ path) := by
    simp [Site.text]
  have hParse : parse (site.text ++ path) =
      ⟨some site.scheme, some site.authority, before ['?', '#'] path,
        (splitQuery (after ['?', '#'] path)).1,
        splitFragment (splitQuery (after ['?', '#'] path)).2⟩ := by
    rw [hText, parse, splitScheme_append site.scheme_ne site.scheme_clean]
    simp only [splitAuthority_append site.authority_clean hRooted]
  rw [hParse]
  refine ⟨rfl, rfl, rfl, ?_⟩
  intro hClean
  simp [after_eq_nil hClean, splitQuery]

/-- An absolute URL with neither a query nor a fragment is a path below a site. -/
theorem exists_site (hScheme : (parse s).scheme.isSome = true)
    (hAuthority : ∃ authority, authority ≠ [] ∧ (parse s).authority = some authority)
    (hQuery : (parse s).query = none) (hFragment : (parse s).fragment = none) :
    ∃ (site : Site) (path : List Char), s = site.text ++ path ∧ Rooted path ∧
      ∀ c ∈ path, c ∉ ['?', '#'] := by
  unfold parse at hScheme hAuthority hQuery hFragment
  generalize hSchemeEq : splitScheme s = schemeRest at *
  obtain ⟨scheme, s₁⟩ := schemeRest
  simp only at hScheme hAuthority hQuery hFragment
  generalize hAuthorityEq : splitAuthority s₁ = authorityRest at *
  obtain ⟨authority, s₂⟩ := authorityRest
  simp only at hAuthority hQuery hFragment
  obtain ⟨name, rfl⟩ := Option.isSome_iff_exists.mp hScheme
  obtain ⟨authority, hNe, rfl⟩ := hAuthority
  obtain ⟨rfl, hNameNe, hNameClean⟩ := of_splitScheme hSchemeEq
  obtain ⟨rfl, hClean, hHead⟩ := of_splitAuthority hAuthorityEq
  have hNone : after ['?', '#'] s₂ = [] := by
    generalize hTail : after ['?', '#'] s₂ = tail at *
    cases tail with
    | nil => rfl
    | cons c tail =>
        have hStop := after_eq_cons hTail
        rw [List.mem_cons, List.mem_singleton] at hStop
        rcases hStop with rfl | rfl
        · simp [splitQuery] at hQuery
        · simp [splitQuery, splitFragment] at hFragment
  have hPath : ∀ c ∈ s₂, c ∉ ['?', '#'] := by
    have hWhole : before ['?', '#'] s₂ ++ after ['?', '#'] s₂ = s₂ := before_append_after
    rw [hNone, List.append_nil] at hWhole
    rw [← hWhole]
    exact notMem_before
  refine ⟨⟨name, authority, hNameNe, hNe, hNameClean, hClean⟩, s₂, by simp [Site.text], ?_, hPath⟩
  cases s₂ with
  | nil => exact Or.inl rfl
  | cons c tail =>
      have hStop := hHead c tail rfl
      have hNot := hPath c List.mem_cons_self
      rw [List.mem_cons] at hStop
      rcases hStop with rfl | hStop
      · exact Or.inr ⟨tail, rfl⟩
      · exact absurd hStop hNot

end Parsing

section DotSegments

def isDot (segment : List Char) : Bool := segment = ['.'] ∨ segment = ['.', '.']

/-- The segments so far, the last one first, and one more. -/
def push (out : List (List Char)) (segment : List Char) : List (List Char) :=
  if segment = ['.'] then out else if segment = ['.', '.'] then out.tail else segment :: out

/-- A dot segment at the end leaves a slash there. -/
def removeDots (segments : List (List Char)) : List (List Char) :=
  (segments.foldl push []).reverse ++ if segments.getLast?.any isDot then [[]] else []

def render (segments : List (List Char)) : List Char := segments.flatMap fun s => '/' :: s

/-- A path below an authority without its dot segments. -/
def normalPath : List Char → List Char
  | '/' :: rest => render (removeDots (rest.splitOn '/'))
  | path => path

variable {out l m : List (List Char)} {s segment path x : List Char} {c : Char}

theorem push_of_not_isDot (h : isDot segment = false) : push out segment = segment :: out := by
  have hNot : segment ≠ ['.'] ∧ segment ≠ ['.', '.'] := by simpa [isDot] using h
  rw [push, if_neg hNot.1, if_neg hNot.2]

theorem push_of_isDot (h : isDot segment = true) :
    push out segment = out ∨ push out segment = out.tail := by
  unfold push
  split_ifs with hOne hTwo
  · exact Or.inl rfl
  · exact Or.inr rfl
  · simp [isDot, hOne, hTwo] at h

theorem foldl_push_of_clean (h : ∀ s ∈ l, isDot s = false) : l.foldl push out = l.reverse ++ out := by
  induction l generalizing out with
  | nil => rfl
  | cons s l ih =>
      rw [List.foldl_cons, push_of_not_isDot (h s List.mem_cons_self),
        ih fun s' hs' => h s' (List.mem_cons_of_mem _ hs')]
      simp

/-- What is pushed is a segment that is not a dot segment. -/
theorem of_mem_foldl_push (h : segment ∈ l.foldl push out) :
    segment ∈ out ∨ segment ∈ l ∧ isDot segment = false := by
  induction l generalizing out with
  | nil => exact Or.inl h
  | cons s l ih =>
      rcases ih h with hOut | ⟨hMem, hClean⟩
      · cases hDot : isDot s with
        | false =>
            rw [push_of_not_isDot hDot] at hOut
            rcases List.mem_cons.mp hOut with rfl | hOld
            · exact Or.inr ⟨List.mem_cons_self, hDot⟩
            · exact Or.inl hOld
        | true =>
            have hPush : push out s = out ∨ push out s = out.tail := push_of_isDot hDot
            rcases hPush with hSame | hTail
            · exact Or.inl (hSame ▸ hOut)
            · exact Or.inl (List.mem_of_mem_tail (hTail ▸ hOut))
      · exact Or.inr ⟨List.mem_cons_of_mem _ hMem, hClean⟩

theorem of_mem_removeDots (h : segment ∈ removeDots l) :
    segment = [] ∨ segment ∈ l ∧ isDot segment = false := by
  unfold removeDots at h
  rcases List.mem_append.mp h with hFold | hLast
  · rcases of_mem_foldl_push (List.mem_reverse.mp hFold) with hNone | hSome
    · cases hNone
    · exact Or.inr hSome
  · split_ifs at hLast
    · exact Or.inl (List.mem_singleton.mp hLast)
    · cases hLast

theorem removeDots_append (hNe : m ≠ []) (hClean : ∀ s ∈ m, isDot s = false) :
    removeDots (l ++ m) = (l.foldl push []).reverse ++ m := by
  have hLast : (l ++ m).getLast?.any isDot = false := by
    rw [List.getLast?_append, List.getLast?_eq_some_getLast hNe]
    exact hClean _ (List.getLast_mem hNe)
  rw [removeDots, hLast, List.foldl_append, foldl_push_of_clean hClean]
  simp

theorem removeDots_ne_nil (hNe : l ≠ []) : removeDots l ≠ [] := by
  intro hNil
  have hLast := List.getLast?_eq_some_getLast hNe
  cases hDot : isDot (l.getLast hNe) with
  | true => simp [removeDots, hLast, hDot] at hNil
  | false =>
      rw [← List.dropLast_concat_getLast hNe,
        removeDots_append (List.cons_ne_nil _ _) (by simpa using hDot)] at hNil
      simp at hNil

theorem render_append : render (l ++ m) = render l ++ render m := List.flatMap_append

theorem render_eq_intercalate (hNe : l ≠ []) : render l = '/' :: ['/'].intercalate l := by
  induction l with
  | nil => exact absurd rfl hNe
  | cons s l ih =>
      cases l with
      | nil => simp [render]
      | cons s' l =>
          rw [List.intercalate_cons_cons, ← List.singleton_append, render_append,
            ih (List.cons_ne_nil _ _)]
          simp [render]

theorem render_splitOn : render (s.splitOn '/') = '/' :: s := by
  rw [render_eq_intercalate (List.splitOn_ne_nil _ _), List.intercalate_splitOn]

/-- Segments are determined by their path. -/
theorem render_inj (hl : ∀ s ∈ l, '/' ∉ s) (hm : ∀ s ∈ m, '/' ∉ s) (hlNe : l ≠ []) (hmNe : m ≠ [])
    (h : render l = render m) : l = m := by
  rw [render_eq_intercalate hlNe, render_eq_intercalate hmNe] at h
  rw [← List.splitOn_intercalate '/' hl hlNe, ← List.splitOn_intercalate '/' hm hmNe,
    (List.cons.inj h).2]

/-- A segment has characters of the text other than slashes. -/
theorem of_mem_splitOn (hSegment : segment ∈ s.splitOn '/') (hc : c ∈ segment) :
    c ∈ s ∧ c ≠ '/' := by
  induction s generalizing segment with
  | nil =>
      rw [List.splitOn_nil, List.mem_singleton] at hSegment
      rw [hSegment] at hc
      cases hc
  | cons d s ih =>
      rw [List.splitOn_cons_eq_if_modifyHead] at hSegment
      split_ifs at hSegment with hd
      · rcases List.mem_cons.mp hSegment with rfl | hRest
        · cases hc
        · exact ⟨List.mem_cons_of_mem _ (ih hRest hc).1, (ih hRest hc).2⟩
      · generalize hSplit : s.splitOn '/' = segments at *
        cases segments with
        | nil => cases hSegment
        | cons head rest =>
            rw [List.modifyHead_cons] at hSegment
            rcases List.mem_cons.mp hSegment with rfl | hRest
            · rcases List.mem_cons.mp hc with rfl | hHead
              · exact ⟨List.mem_cons_self, by simpa using hd⟩
              · have hOld := ih List.mem_cons_self hHead
                exact ⟨List.mem_cons_of_mem _ hOld.1, hOld.2⟩
            · have hOld := ih (List.mem_cons_of_mem _ hRest) hc
              exact ⟨List.mem_cons_of_mem _ hOld.1, hOld.2⟩

theorem slash_notMem_splitOn (hSegment : segment ∈ s.splitOn '/') : '/' ∉ segment := fun h =>
  (of_mem_splitOn hSegment h).2 rfl

theorem slash_notMem_removeDots (h : ∀ s ∈ l, '/' ∉ s) :
    ∀ s ∈ removeDots l, '/' ∉ s := by
  intro s hs
  rcases of_mem_removeDots hs with rfl | ⟨hOld, -⟩
  · simp
  · exact h s hOld

theorem slash_notMem_kept (h : ∀ s ∈ l, '/' ∉ s) :
    ∀ s ∈ (l.foldl push []).reverse, '/' ∉ s := by
  intro s hs
  rcases of_mem_foldl_push (List.mem_reverse.mp hs) with hNone | ⟨hOld, -⟩
  · cases hNone
  · exact h s hOld

/-- The segments in front of what follows a rooted path and a slash. -/
theorem exists_segments (hRooted : Rooted path) :
    ∃ l : List (List Char), (∀ s ∈ l, '/' ∉ s) ∧ ∀ x, normalPath (path ++ '/' :: x) =
      render (removeDots (l ++ x.splitOn '/')) := by
  rcases hRooted with rfl | ⟨rest, rfl⟩
  · exact ⟨[], by simp, fun x => rfl⟩
  · refine ⟨rest.splitOn '/', fun s hs => slash_notMem_splitOn hs, fun x => ?_⟩
    rw [← List.splitOn_append_cons_self]
    rfl

end DotSegments

end Rfc3986
