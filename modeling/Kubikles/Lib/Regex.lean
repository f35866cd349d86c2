/-
Regular expressions without groups and alternatives.

# Patterns

A pattern of this kind is a row of atoms, each of which may be repeated:
a character for itself, a dot for any of them, or a class of characters
and ranges in brackets. `parse` reads one as it is written, and refuses
what is of another kind.

# Matches

`matchAll` tells whether a pattern matches a text in full. What it does
is said atom by atom: one that stands once takes one character
(`matchAll_once`), one that is repeated takes some that are all of its
kind (`matchAll_plus`), and two rows one behind the other take the two
parts of a text (`matchAll_append`).
-/
import Mathlib.Data.List.Basic

namespace Regex

-- ======== patterns

/-- What a single character is tested for. -/
inductive Atom where
  | char (c : Char)
  /-- `.` -/
  | any
  | range (ranges : List (Char × Char))
  deriving DecidableEq

def Atom.test : Atom → Char → Bool
  | .char c', c => c = c'
  | .any, _ => true
  | .range ranges, c =>
    ranges.any fun r => decide (r.1 ≤ c) && decide (c ≤ r.2)

/-- How often an atom stands. -/
inductive Times where
  | once
  /-- `+` -/
  | plus
  /-- `*` -/
  | star
  deriving DecidableEq

/-- An atom, and how often it stands. -/
abbrev Item := Atom × Times

/-- What a pattern is read into first. -/
inductive Token where
  | atom (a : Atom)
  | plus
  | star
  deriving DecidableEq

def special : List Char :=
  ['?', '(', ')', '|', '{', '}', '\\', '^', '$', ']']

/-- The tokens of a pattern; the ranges are those of a class that has been
opened. -/
def tokens : Option (List (Char × Char)) → List Char → Option (List Token)
  | none, [] => some []
  | some _, [] => none
  | none, c :: s =>
    if c = '[' then tokens (some []) s
    else if c = '+' then (tokens none s).map (.plus :: ·)
    else if c = '*' then (tokens none s).map (.star :: ·)
    else if c = '.' then (tokens none s).map (.atom .any :: ·)
    else if c ∈ special then none
    else (tokens none s).map (.atom (.char c) :: ·)
  | some ranges, ']' :: s => (tokens none s).map (.atom (.range ranges) :: ·)
  | some ranges, c :: '-' :: c' :: s => tokens (some (ranges ++ [(c, c')])) s
  | some ranges, c :: s => tokens (some (ranges ++ [(c, c)])) s

def items : List Token → Option (List Item)
  | [] => some []
  | .atom a :: .plus :: ts => (items ts).map ((a, .plus) :: ·)
  | .atom a :: .star :: ts => (items ts).map ((a, .star) :: ·)
  | .atom a :: ts => (items ts).map ((a, .once) :: ·)
  | _ => none

def parse (pattern : List Char) : Option (List Item) :=
  (tokens none pattern).bind items

-- ======== matches

def takeOne (test : Char → Bool) (rest : List Char → Bool) :
    List Char → Bool
  | [] => false
  | c :: s => test c && rest s

def takeSome (test : Char → Bool) (rest : List Char → Bool) :
    List Char → Bool
  | [] => false
  | c :: s => test c && (rest s || takeSome test rest s)

def matchAll : List Item → List Char → Bool
  | [] => List.isEmpty
  | (a, .once) :: l => takeOne a.test (matchAll l)
  | (a, .plus) :: l => takeSome a.test (matchAll l)
  | (a, .star) :: l => fun s =>
    matchAll l s || takeSome a.test (matchAll l) s

theorem takeOne_iff {test : Char → Bool} {rest : List Char → Bool}
    {s : List Char} :
    takeOne test rest s = true ↔
      ∃ c t, s = c :: t ∧ test c = true ∧ rest t = true := by
  cases s with
  | nil => simp [takeOne]
  | cons c s => simp [takeOne]

theorem takeSome_iff {test : Char → Bool} {rest : List Char → Bool}
    {s : List Char} :
    takeSome test rest s = true ↔
      ∃ t u, s = t ++ u ∧ t ≠ [] ∧ (∀ c ∈ t, test c = true) ∧
        rest u = true := by
  induction s with
  | nil => simp [takeSome]
  | cons c s ih =>
    rw [takeSome, Bool.and_eq_true, Bool.or_eq_true, ih]
    constructor
    · rintro ⟨hc, hrest | ⟨t, u, rfl, -, ht, hu⟩⟩
      · exact ⟨[c], s, rfl, by simp, by simpa using hc, hrest⟩
      · refine ⟨c :: t, u, rfl, by simp, ?_, hu⟩
        intro c' hc'
        cases hc' with
        | head => exact hc
        | tail _ hc' => exact ht c' hc'
    · rintro ⟨t, u, hs, hne, ht, hu⟩
      cases t with
      | nil => exact absurd rfl hne
      | cons c' t =>
        rw [List.cons_append, List.cons.injEq] at hs
        obtain ⟨rfl, rfl⟩ := hs
        refine ⟨ht c List.mem_cons_self, ?_⟩
        cases t with
        | nil => exact .inl hu
        | cons c' t =>
          exact .inr ⟨c' :: t, u, rfl, by simp,
            fun x hx => ht x (List.mem_cons_of_mem _ hx), hu⟩

theorem matchAll_once {a : Atom} {l : List Item} {s : List Char} :
    matchAll ((a, .once) :: l) s = true ↔
      ∃ c t, s = c :: t ∧ a.test c = true ∧ matchAll l t = true :=
  takeOne_iff

theorem matchAll_plus {a : Atom} {l : List Item} {s : List Char} :
    matchAll ((a, .plus) :: l) s = true ↔
      ∃ t u, s = t ++ u ∧ t ≠ [] ∧ (∀ c ∈ t, a.test c = true) ∧
        matchAll l u = true :=
  takeSome_iff

theorem matchAll_star {a : Atom} {l : List Item} {s : List Char} :
    matchAll ((a, .star) :: l) s = true ↔
      ∃ t u, s = t ++ u ∧ (∀ c ∈ t, a.test c = true) ∧
        matchAll l u = true := by
  rw [matchAll, Bool.or_eq_true, takeSome_iff]
  constructor
  · rintro (h | ⟨t, u, hs, -, ht, hu⟩)
    · exact ⟨[], s, rfl, by simp, h⟩
    · exact ⟨t, u, hs, ht, hu⟩
  · rintro ⟨t, u, hs, ht, hu⟩
    by_cases hne : t = []
    · subst hne
      rw [List.nil_append] at hs
      rw [hs]
      exact .inl hu
    · exact .inr ⟨t, u, hs, hne, ht, hu⟩

/-- Two rows take the two parts of a text. -/
theorem matchAll_append {l l' : List Item} {s : List Char} :
    matchAll (l ++ l') s = true ↔
      ∃ t u, s = t ++ u ∧ matchAll l t = true ∧ matchAll l' u = true := by
  induction l generalizing s with
  | nil =>
    constructor
    · intro h
      exact ⟨[], s, rfl, rfl, h⟩
    · rintro ⟨t, u, rfl, ht, hu⟩
      rw [List.isEmpty_iff.mp ht]
      exact hu
  | cons item l ih =>
    obtain ⟨a, times⟩ := item
    rw [List.cons_append]
    cases times with
    | once =>
      rw [matchAll_once]
      constructor
      · rintro ⟨c, s, rfl, hc, hs⟩
        obtain ⟨t, u, rfl, ht, hu⟩ := ih.mp hs
        exact ⟨c :: t, u, rfl, matchAll_once.mpr ⟨c, t, rfl, hc, ht⟩,
          hu⟩
      · rintro ⟨t, u, rfl, ht, hu⟩
        obtain ⟨c, t, rfl, hc, ht⟩ := matchAll_once.mp ht
        exact ⟨c, t ++ u, rfl, hc, ih.mpr ⟨t, u, rfl, ht, hu⟩⟩
    | plus =>
      rw [matchAll_plus]
      constructor
      · rintro ⟨r, s, rfl, hne, hr, hs⟩
        obtain ⟨t, u, rfl, ht, hu⟩ := ih.mp hs
        exact ⟨r ++ t, u, (List.append_assoc ..).symm,
          matchAll_plus.mpr ⟨r, t, rfl, hne, hr, ht⟩, hu⟩
      · rintro ⟨t, u, rfl, ht, hu⟩
        obtain ⟨r, t, rfl, hne, hr, ht⟩ := matchAll_plus.mp ht
        exact ⟨r, t ++ u, List.append_assoc .., hne, hr,
          ih.mpr ⟨t, u, rfl, ht, hu⟩⟩
    | star =>
      rw [matchAll_star]
      constructor
      · rintro ⟨r, s, rfl, hr, hs⟩
        obtain ⟨t, u, rfl, ht, hu⟩ := ih.mp hs
        exact ⟨r ++ t, u, (List.append_assoc ..).symm,
          matchAll_star.mpr ⟨r, t, rfl, hr, ht⟩, hu⟩
      · rintro ⟨t, u, rfl, ht, hu⟩
        obtain ⟨r, t, rfl, hr, ht⟩ := matchAll_star.mp ht
        exact ⟨r, t ++ u, List.append_assoc .., hr,
          ih.mpr ⟨t, u, rfl, ht, hu⟩⟩

end Regex
