/-
Sorting by a comparison function, in whatever way.

A sorter loses nothing, and where the comparison is a strict weak order it
puts nothing in front of what is less. It need not be stable, so nothing
is said about the order of equal elements; but it is a function, and so
does the same to the same list. Compared by a key, a sorted list is in the
order of the keys (`Sorter.ordered_key`, `Sorter.ordered_key_down`).

# The newest

The newest of some elements: the front of a list that was sorted by a key,
from large keys to small.

# Selections

Elements are the newest `n` of all if there are no more than `n`, none
that is left over is newer than one of them, and nothing is left over
unless there are `n` (`Newest`). Where keys are equal there can be several
such selections.

# A part for the whole

What is sorted may not be all there is, and may hold something else. Its
front are the newest of all nevertheless, whatever a sorter does with
equal keys, exactly if what is missing has `n` elements before it that are
not older, and what is too much has them before it that are newer, or of
its own right (`Enough`, `newest_iff`).
-/
import Mathlib.Data.List.Sort
import Mathlib.Data.List.Perm.Subperm

/-- The comparison is a strict weak order: what is not less is passed on. -/
structure WeakOrder {α : Type*} (less : α → α → Bool) : Prop where
  asymm : ∀ a b, less a b = true → less b a = false
  trans : ∀ a b c, less b a = false → less c b = false → less c a = false

/-- A way to sort lists. -/
structure Sorter (α : Type*) where
  sort : (α → α → Bool) → List α → List α
  perm : ∀ less l, (sort less l).Perm l
  ordered : ∀ less, WeakOrder less → ∀ l,
    (sort less l).Pairwise fun a b => less b a = false

namespace Sorter

variable {α κ : Type*} [LinearOrder κ]

theorem weakOrder_key (key : α → κ) :
    WeakOrder fun a b => decide (key a < key b) where
  asymm a b h := by
    have hlt := of_decide_eq_true h
    exact decide_eq_false (not_lt_of_gt hlt)
  trans a b c hab hbc := by
    have hle := not_lt.mp (of_decide_eq_false hab)
    have hle' := not_lt.mp (of_decide_eq_false hbc)
    exact decide_eq_false (not_lt.mpr (hle.trans hle'))

theorem weakOrder_key_down (key : α → κ) :
    WeakOrder fun a b => decide (key b < key a) :=
  weakOrder_key fun a => OrderDual.toDual (key a)

theorem ordered_key (s : Sorter α) (key : α → κ) (l : List α) :
    (s.sort (fun a b => decide (key a < key b)) l).Pairwise
      fun a b => key a ≤ key b := by
  refine (s.ordered _ (weakOrder_key key) l).imp fun h => ?_
  exact not_lt.mp (of_decide_eq_false h)

theorem ordered_key_down (s : Sorter α) (key : α → κ) (l : List α) :
    (s.sort (fun a b => decide (key b < key a)) l).Pairwise
      fun a b => key b ≤ key a := by
  refine (s.ordered _ (weakOrder_key_down key) l).imp fun h => ?_
  exact not_lt.mp (of_decide_eq_false h)

def insertion (α : Type*) : Sorter α where
  sort less l := l.insertionSort fun a b => less b a = false
  perm less l := List.perm_insertionSort ..
  ordered less h l := by
    have : Std.Total fun a b : α => less b a = false := by
      refine ⟨fun a b => ?_⟩
      cases hba : less b a with
      | false => exact .inl rfl
      | true => exact .inr (h.asymm b a hba)
    have : IsTrans α fun a b => less b a = false := ⟨h.trans⟩
    exact List.pairwise_insertionSort _ l

end Sorter

/-- The newest of all elements, from the newest on. -/
structure Newest {α κ : Type*} [LinearOrder κ] (key : α → κ) (n : Nat)
    (all r : List α) : Prop where
  ordered : r.Pairwise fun a b => key b ≤ key a
  length_le : r.length ≤ n
  rest : ∃ rest, (r ++ rest).Perm all
    ∧ (∀ a ∈ r, ∀ b ∈ rest, key b ≤ key a)
    ∧ (rest = [] ∨ r.length = n)

namespace Newest

section

variable {α κ : Type*} [LinearOrder κ] {key : α → κ} {n : Nat}

def newer (key : α → κ) (l : List α) (x : α) : Nat :=
  l.countP fun a => key x < key a

def notOlder (key : α → κ) (l : List α) (x : α) : Nat :=
  l.countP fun a => key x ≤ key a

/-- Where enough elements are not older than one, the front of a sorted
list has no other. -/
theorem le_of_mem_take {s : List α}
    (hs : s.Pairwise fun a b => key b ≤ key a) {x : α}
    (hn : n ≤ notOlder key s x) : ∀ a ∈ s.take n, key x ≤ key a := by
  induction s generalizing n with
  | nil => simp
  | cons a s ih =>
    obtain ⟨hhead, htail⟩ := List.pairwise_cons.mp hs
    unfold notOlder at ih hn
    cases n with
    | zero => simp
    | succ n =>
      by_cases ha : key x ≤ key a
      · rw [List.countP_cons_of_pos (by simpa)] at hn
        rw [List.take_succ_cons, List.forall_mem_cons]
        exact ⟨ha, ih htail (Nat.le_of_succ_le_succ hn)⟩
      · have hnone : (a :: s).countP (fun b => key x ≤ key b) = 0 := by
          apply List.countP_eq_zero.mpr
          intro b hb hle
          rcases List.mem_cons.mp hb with rfl | hb
          · exact ha (of_decide_eq_true hle)
          · exact ha ((of_decide_eq_true hle).trans (hhead b hb))
        omega

end

variable {α κ : Type*} [DecidableEq α] [LinearOrder κ] {key : α → κ}
variable {n : Nat} {found all l s : List α}

/-- What was found is enough to tell the newest of all by. -/
structure Enough (key : α → κ) (n : Nat) (found all : List α) : Prop where
  extra : ∀ x, all.count x < found.count x →
    n ≤ newer key found x + all.count x
  missing : ∀ x, found.count x < all.count x →
    n ≤ notOlder key found x

-- ======== fronts

/-- The copies of an element at the front of a sorted list have those in
front of them that are newer. -/
theorem count_take_le (hs : s.Pairwise fun a b => key b ≤ key a) {x : α}
    (hx : x ∈ s.take n) : (s.take n).count x + newer key s x ≤ n := by
  induction s generalizing n with
  | nil => simp at hx
  | cons a s ih =>
    obtain ⟨hhead, htail⟩ := List.pairwise_cons.mp hs
    cases n with
    | zero => simp at hx
    | succ n =>
      unfold newer at ih ⊢
      rw [List.take_succ_cons] at hx ⊢
      by_cases ha : key x < key a
      · have hne : a ≠ x := fun h => absurd ha (h ▸ lt_irrefl _)
        have hmem : x ∈ s.take n :=
          (List.mem_cons.mp hx).resolve_left hne.symm
        have hrest := ih htail hmem
        rw [List.count_cons_of_ne hne, List.countP_cons_of_pos (by simpa)]
        omega
      · have hnone : (a :: s).countP (fun b => key x < key b) = 0 := by
          apply List.countP_eq_zero.mpr
          intro b hb hlt
          rcases List.mem_cons.mp hb with rfl | hb
          · exact ha (of_decide_eq_true hlt)
          · exact ha (lt_of_lt_of_le (of_decide_eq_true hlt)
              (hhead b hb))
        rw [hnone, ← List.take_succ_cons]
        exact (List.count_le_length ..).trans (List.length_take_le ..)

/-- The front of what was found is the newest of all, if it is enough. -/
theorem newest_take (hs : s.Pairwise fun a b => key b ≤ key a)
    (hperm : s.Perm found) (h : Enough key n found all) :
    Newest key n all (s.take n) := by
  have hcount : ∀ x, s.count x = found.count x := hperm.count_eq
  have htake : ∀ x, (s.take n).count x ≤ s.count x := fun x =>
    (List.take_sublist n s).count_le x
  have hall : ∀ x ∈ s.take n, (s.take n).count x ≤ all.count x := by
    intro x hx
    by_cases hextra : all.count x < found.count x
    · have hle := h.extra x hextra
      have hfront := count_take_le hs hx
      have hnewer : newer key s x = newer key found x := hperm.countP_eq _
      omega
    · have := htake x
      have := hcount x
      omega
  -- What is left over has been sorted behind the front, or is missing.
  have hleft : ∀ b, (s.take n).count b < all.count b →
      (∀ a ∈ s.take n, key b ≤ key a) ∧ (s.take n).length = n := by
    intro b hb
    by_cases hbehind : (s.take n).count b < s.count b
    · have hmem : b ∈ s.drop n := by
        apply List.count_pos_iff.mp
        have happend : (s.take n ++ s.drop n).count b
            = (s.take n).count b + (s.drop n).count b :=
          List.count_append
        rw [List.take_append_drop] at happend
        omega
      have hpairs := hs
      rw [← List.take_append_drop n s, List.pairwise_append] at hpairs
      refine ⟨fun a ha => hpairs.2.2 a ha b hmem, ?_⟩
      have hpos := List.length_pos_of_mem hmem
      rw [List.length_drop] at hpos
      rw [List.length_take]
      omega
    · have hmissing := h.missing b (by
        have := hcount b
        omega)
      have hn : n ≤ notOlder key s b := by
        rw [notOlder, hperm.countP_eq]
        exact hmissing
      refine ⟨le_of_mem_take hs hn, ?_⟩
      have hlength : n ≤ s.length := hn.trans (List.countP_le_length ..)
      rw [List.length_take]
      omega
  have hparts : (s.take n ++ all.diff (s.take n)).Perm all :=
    List.subperm_append_diff_self_of_count_le hall
  have hdiff : ∀ b ∈ all.diff (s.take n),
      (s.take n).count b < all.count b := by
    intro b hb
    have hpos := List.count_pos_iff.mpr hb
    have hsum := hparts.count_eq b
    rw [List.count_append] at hsum
    omega
  refine ⟨hs.sublist (List.take_sublist n s), List.length_take_le n s,
    all.diff (s.take n), hparts, ?_, ?_⟩
  · intro a ha b hb
    exact (hleft b (hdiff b hb)).1 a ha
  · cases hrest : all.diff (s.take n) with
    | nil => exact .inl rfl
    | cons b rest =>
      have hb : b ∈ all.diff (s.take n) := by
        rw [hrest]
        exact List.mem_cons_self
      exact .inr (hleft b (hdiff b hb)).2

-- ======== favourites

/-- One element comes before another, if the first is less, or neither is
and the second is a favourite only if the first is. -/
def Favours (less : α → α → Bool) (x a b : α) : Prop :=
  less b a = false ∧ (less a b = true ∨ a = x ∨ b ≠ x)

instance favoursDecidable (less : α → α → Bool) (x : α) :
    DecidableRel (Favours less x) :=
  fun _ _ => inferInstanceAs (Decidable (_ ∧ _))

theorem favours_total {less : α → α → Bool} (h : WeakOrder less)
    (x a b : α) : Favours less x a b ∨ Favours less x b a := by
  unfold Favours
  cases hab : less a b with
  | true => exact .inl ⟨h.asymm a b hab, .inl rfl⟩
  | false =>
    cases hba : less b a with
    | true => exact .inr ⟨rfl, .inl rfl⟩
    | false =>
      by_cases ha : a = x
      · exact .inl ⟨rfl, .inr (.inl ha)⟩
      · exact .inr ⟨rfl, .inr (.inr ha)⟩

omit [DecidableEq α] in
theorem favours_trans {less : α → α → Bool} (h : WeakOrder less)
    {x a b c : α} (hab : Favours less x a b) (hbc : Favours less x b c) :
    Favours less x a c := by
  obtain ⟨hba, hab⟩ := hab
  obtain ⟨hcb, hbc⟩ := hbc
  refine ⟨h.trans a b c hba hcb, ?_⟩
  cases hac : less a c with
  | true => exact .inl rfl
  | false =>
    right
    -- Neither of the two steps goes up.
    have hnot : ¬less a b = true := by
      intro hlt
      have hnlt := h.trans b c a hcb hac
      rw [hlt] at hnlt
      cases hnlt
    have hnot' : ¬less b c = true := by
      intro hlt
      have hnlt := h.trans c a b hac hba
      rw [hlt] at hnlt
      cases hnlt
    rcases hab.resolve_left hnot with ha | hb
    · exact .inl ha
    · exact .inr ((hbc.resolve_left hnot').resolve_left hb)

theorem pairwise_favours {less : α → α → Bool} (h : WeakOrder less)
    (x : α) (l : List α) :
    (l.insertionSort (Favours less x)).Pairwise (Favours less x) := by
  have : Std.Total (Favours less x) := ⟨favours_total h x⟩
  have : IsTrans α (Favours less x) := ⟨fun _ _ _ => favours_trans h⟩
  exact List.pairwise_insertionSort (Favours less x) l

/-- A sorter that puts an element before others that are equal to it. -/
def favouring (x : α) : Sorter α where
  sort less l := l.insertionSort (Favours less x)
  perm _ _ := List.perm_insertionSort ..
  ordered _ h l := (pairwise_favours h x l).imp And.left

/-- As many copies of its favourite as there is room for behind the newer
elements are at the front of what it sorts. -/
theorem le_count_take {x : α}
    (hs : s.Pairwise (Favours (fun a b => decide (key b < key a)) x)) :
    min (s.count x) (n - newer key s x) ≤ (s.take n).count x := by
  induction s generalizing n with
  | nil => simp
  | cons a s ih =>
    obtain ⟨hhead, htail⟩ := List.pairwise_cons.mp hs
    cases n with
    | zero => simp
    | succ n =>
      have hrest := ih (n := n) htail
      unfold newer at hrest ⊢
      rw [List.take_succ_cons]
      by_cases hnewer : key x < key a
      · have hne : a ≠ x := fun h => absurd hnewer (h ▸ lt_irrefl _)
        rw [List.count_cons_of_ne hne, List.count_cons_of_ne hne,
          List.countP_cons_of_pos (by simpa)]
        omega
      · have hnone : s.countP (fun b => key x < key b) = 0 := by
          apply List.countP_eq_zero.mpr
          intro b hb hlt
          have hle := not_lt.mp (of_decide_eq_false (hhead b hb).1)
          exact hnewer (lt_of_lt_of_le (of_decide_eq_true hlt) hle)
        rw [List.countP_cons_of_neg (by simpa using hnewer)]
        by_cases ha : a = x
        · subst ha
          rw [List.count_cons_self, List.count_cons_self]
          omega
        · have hzero : s.count x = 0 := by
            apply List.count_eq_zero.mpr
            intro hx
            rcases (hhead x hx).2 with hlt | heq | hne
            · exact hnewer (of_decide_eq_true hlt)
            · exact ha heq
            · exact hne rfl
          rw [List.count_cons_of_ne ha, hzero]
          omega

/-- If the front that favours an element is the newest of all, the element
has no more copies at it than there are. -/
theorem le_of_extra {x : α}
    (hs : s.Pairwise (Favours (fun a b => decide (key b < key a)) x))
    (hperm : s.Perm found) (h : Newest key n all (s.take n))
    (hx : all.count x < found.count x) :
    n ≤ newer key found x + all.count x := by
  obtain ⟨rest, hparts, -, -⟩ := h.rest
  have hfront := le_count_take (n := n) hs
  have hsum := hparts.count_eq x
  rw [List.count_append] at hsum
  have hcount := hperm.count_eq x
  have hnewer : newer key s x = newer key found x := hperm.countP_eq _
  omega

theorem le_of_missing {x : α} (hperm : s.Perm found)
    (h : Newest key n all (s.take n)) (hx : found.count x < all.count x) :
    n ≤ notOlder key found x := by
  obtain ⟨rest, hparts, hleft, hfull⟩ := h.rest
  have hsum := hparts.count_eq x
  rw [List.count_append] at hsum
  have hfront := (List.take_sublist n s).count_le x
  have hcount := hperm.count_eq x
  have hmem : x ∈ rest := List.count_pos_iff.mp (by omega)
  have hlength := hfull.resolve_left (List.ne_nil_of_mem hmem)
  have hall : (s.take n).countP (fun a => key x ≤ key a)
      = (s.take n).length := by
    apply List.countP_eq_length.mpr
    intro a ha
    exact decide_eq_true (hleft a ha x hmem)
  calc n = (s.take n).countP (fun a => key x ≤ key a) := by
        rw [hall, hlength]
    _ ≤ notOlder key s x := (List.take_sublist n s).countP_le
    _ = notOlder key found x := hperm.countP_eq _

/-- The front of what was found is the newest of all, however equal keys
are sorted, exactly if what was found is enough. -/
theorem newest_iff (hperm : l.Perm found) :
    (∀ sorter : Sorter α, Newest key n all
      ((sorter.sort (fun a b => decide (key b < key a)) l).take n))
      ↔ Enough key n found all := by
  constructor
  · intro h
    have hweak : WeakOrder fun a b : α => decide (key b < key a) :=
      Sorter.weakOrder_key_down key
    constructor
    · intro x hx
      exact le_of_extra (pairwise_favours hweak x l)
        (((favouring x).perm _ l).trans hperm) (h (favouring x)) hx
    · intro x hx
      exact le_of_missing (((favouring x).perm _ l).trans hperm)
        (h (favouring x)) hx
  · intro h sorter
    exact newest_take (sorter.ordered_key_down key l)
      ((sorter.perm _ l).trans hperm) h

end Newest
