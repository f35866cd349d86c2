/-
Stable sorting by a key, and the ends of a sorted list.

# What stable means

`sortBy key` is insertion sort, and any stable sort is equal to it: a
list in key order is determined by its classes, the sublists of one key
each in their order (`eq_of_classes`). More generally a sort leaves
alone every sublist that is in key order already (`filter_sortBy`).

# The ends

The first `n` of a merge are the first `n` of the merge of the first
`n` (`take_merge`), so where many sorted lists are put one behind the
other and sorted, nothing behind the first `n` of one of them can be
among the first `n` of all (`take_sortBy_flatten`). The last `n` are the
first `n` of the reversal, which is the sort by the opposite order.
-/
import Mathlib.Data.List.Sort

namespace StableSort

variable {α κ : Type*} [LinearOrder κ] (key : α → κ)

-- ======== the sort

def Ordered (l : List α) : Prop := l.Pairwise fun a b => key a ≤ key b

instance (l : List α) : Decidable (Ordered key l) :=
  inferInstanceAs (Decidable (l.Pairwise _))

def sortBy (l : List α) : List α :=
  l.insertionSort fun a b => key a ≤ key b

instance byKey_total : Std.Total fun a b : α => key a ≤ key b :=
  ⟨fun a b => le_total (key a) (key b)⟩

instance byKey_trans : IsTrans α fun a b => key a ≤ key b :=
  ⟨fun _ _ _ => le_trans⟩

variable {key} {l l' : List α}

theorem sortBy_perm (l : List α) : (sortBy key l).Perm l :=
  List.perm_insertionSort ..

theorem sortBy_ordered (l : List α) : Ordered key (sortBy key l) :=
  List.pairwise_insertionSort _ l

theorem sortBy_of_ordered (h : Ordered key l) : sortBy key l = l :=
  List.Pairwise.insertionSort_eq h

theorem filter_sortBy {p : α → Bool} (h : Ordered key (l.filter p)) :
    (sortBy key l).filter p = l.filter p := by
  have hsub : (l.filter p).Sublist (sortBy key l) :=
    List.sublist_insertionSort h List.filter_sublist
  have hsub' := hsub.filter p
  rw [List.filter_filter] at hsub'
  simp only [Bool.and_self] at hsub'
  exact (hsub'.eq_of_length ((sortBy_perm l).filter p).length_eq.symm).symm

abbrev classOf (key : α → κ) (k : κ) (l : List α) : List α :=
  l.filter fun a => key a = k

theorem classOf_ordered (k : κ) (l : List α) :
    Ordered key (classOf key k l) := by
  refine List.pairwise_of_forall_mem_list fun a ha b hb => ?_
  have ha := (List.mem_filter.mp ha).2
  have hb := (List.mem_filter.mp hb).2
  simp only [decide_eq_true_eq] at ha hb
  rw [ha, hb]

theorem classOf_sortBy (k : κ) (l : List α) :
    classOf key k (sortBy key l) = classOf key k l :=
  filter_sortBy (classOf_ordered k l)

/-- A list in order is determined by its classes. -/
theorem eq_of_classes (h : Ordered key l) (h' : Ordered key l')
    (hclass : ∀ k, classOf key k l = classOf key k l') : l = l' := by
  induction l generalizing l' with
  | nil =>
    cases l' with
    | nil => rfl
    | cons b l' =>
      have hb := hclass (key b)
      simp [classOf] at hb
  | cons a l ih =>
    have ha : a ∈ l' := by
      have hmem : a ∈ classOf key (key a) (a :: l) := by simp [classOf]
      rw [hclass] at hmem
      exact (List.mem_filter.mp hmem).1
    cases l' with
    | nil => cases ha
    | cons b l' =>
      have hb : b ∈ a :: l := by
        have hmem : b ∈ classOf key (key b) (b :: l') := by
          simp [classOf]
        rw [← hclass] at hmem
        exact (List.mem_filter.mp hmem).1
      have hle : key a ≤ key b := by
        rcases List.mem_cons.mp hb with rfl | hb
        · exact le_refl _
        · exact (List.pairwise_cons.mp h).1 b hb
      have hge : key b ≤ key a := by
        rcases List.mem_cons.mp ha with rfl | ha
        · exact le_refl _
        · exact (List.pairwise_cons.mp h').1 a ha
      have hkey : key b = key a := le_antisymm hge hle
      have hfirst := hclass (key a)
      simp only [classOf, List.filter_cons, hkey, decide_true,
        if_true] at hfirst
      injection hfirst with hab hrest
      refine hab ▸ congrArg (a :: ·) ?_
      refine ih (List.pairwise_cons.mp h).2 (List.pairwise_cons.mp h').2
        fun k => ?_
      by_cases hk : key a = k
      · exact hk ▸ hrest
      · have hothers := hclass k
        simpa only [classOf, List.filter_cons, hkey, hk, decide_false,
          Bool.false_eq_true, if_false] using hothers

-- ======== the merge

/-- Merge two lists by key, those of the first before those of the
second. -/
def mergeBy (key : α → κ) (l l' : List α) : List α :=
  List.merge l l' fun a b => key a ≤ key b

@[simp] theorem mergeBy_nil_left (l : List α) : mergeBy key [] l = l := by
  simp [mergeBy]

@[simp] theorem mergeBy_nil_right (l : List α) : mergeBy key l [] = l := by
  simp [mergeBy]

theorem mergeBy_cons (a b : α) (l l' : List α) :
    mergeBy key (a :: l) (b :: l')
      = if key a ≤ key b then a :: mergeBy key l (b :: l')
        else b :: mergeBy key (a :: l) l' := by
  simp [mergeBy, List.merge]

theorem take_mergeBy (n : Nat) (l l' : List α) :
    (mergeBy key l l').take n
      = (mergeBy key (l.take n) (l'.take n)).take n := by
  induction n generalizing l l' with
  | zero => rfl
  | succ n ih =>
    cases l with
    | nil => simp [List.take_take]
    | cons a l =>
      cases l' with
      | nil => simp [List.take_take]
      | cons b l' =>
        have htake : ∀ (c : α) (m : List α),
            (c :: m.take n).take n = (c :: m).take n := by
          intro c m
          rw [← List.take_succ_cons, List.take_take,
            Nat.min_eq_left (Nat.le_succ n)]
        simp only [List.take_succ_cons, mergeBy_cons]
        split
        · rw [List.take_succ_cons, List.take_succ_cons, ih l (b :: l'),
            ih (l.take n) (b :: l'.take n), List.take_take,
            Nat.min_self, htake]
        · rw [List.take_succ_cons, List.take_succ_cons, ih (a :: l) l',
            ih (a :: l.take n) (l'.take n), List.take_take,
            Nat.min_self, htake]

theorem orderedInsert_mergeBy (x : α) (l l' : List α) :
    (mergeBy key l l').orderedInsert (fun a b => key a ≤ key b) x
      = mergeBy key (l.orderedInsert (fun a b => key a ≤ key b) x) l' := by
  induction l generalizing l' with
  | nil =>
    induction l' with
    | nil => simp
    | cons b l' ih =>
      simp only [mergeBy_nil_left, List.orderedInsert_cons,
        List.orderedInsert_nil, mergeBy_cons] at ih ⊢
      rw [ih]
  | cons a l ihl =>
    induction l' with
    | nil => simp
    | cons b l' ih =>
      rw [mergeBy_cons]
      by_cases hab : key a ≤ key b
      · rw [if_pos hab, List.orderedInsert_cons, List.orderedInsert_cons]
        by_cases hxa : key x ≤ key a
        · rw [if_pos hxa, if_pos hxa, mergeBy_cons,
            if_pos (le_trans hxa hab), mergeBy_cons, if_pos hab]
        · rw [if_neg hxa, if_neg hxa, mergeBy_cons, if_pos hab, ihl]
      · rw [if_neg hab, List.orderedInsert_cons]
        by_cases hxb : key x ≤ key b
        · -- then `x` goes before `a` too
          have hxa : key x ≤ key a := le_trans hxb (le_of_not_ge hab)
          rw [if_pos hxb, List.orderedInsert_cons, if_pos hxa,
            mergeBy_cons, if_pos hxb, mergeBy_cons, if_neg hab]
        · rw [if_neg hxb, ih, List.orderedInsert_cons]
          by_cases hxa : key x ≤ key a
          · rw [if_pos hxa, mergeBy_cons x b, if_neg hxb]
          · rw [if_neg hxa, mergeBy_cons a b, if_neg hab]

theorem sortBy_append (l l' : List α) :
    sortBy key (l ++ l') = mergeBy key (sortBy key l) (sortBy key l') := by
  induction l with
  | nil => exact (mergeBy_nil_left _).symm
  | cons a l ih =>
    show (sortBy key (l ++ l')).orderedInsert _ a = _
    rw [ih, orderedInsert_mergeBy]
    rfl

-- ======== the ends

/-- Where many ordered lists are sorted as one, the first `n` of each
decide the first `n`. -/
theorem take_sortBy_flatten (n : Nat) {ls : List (List α)}
    (h : ∀ l ∈ ls, Ordered key l) :
    (sortBy key ls.flatten).take n
      = (sortBy key (ls.map (·.take n)).flatten).take n := by
  induction ls with
  | nil => rfl
  | cons l ls ih =>
    have hl : Ordered key l := h l (List.mem_cons_self ..)
    have ih := ih fun m hm => h m (List.mem_cons_of_mem _ hm)
    have hl' : Ordered key (l.take n) := List.Pairwise.take hl
    rw [List.map_cons, List.flatten_cons, List.flatten_cons,
      sortBy_append, sortBy_append, sortBy_of_ordered hl,
      sortBy_of_ordered hl']
    calc (mergeBy key l (sortBy key ls.flatten)).take n
      _ = (mergeBy key (l.take n)
            ((sortBy key ls.flatten).take n)).take n := take_mergeBy ..
      _ = (mergeBy key ((l.take n).take n)
            ((sortBy key (ls.map (·.take n)).flatten).take n)).take n := by
          rw [ih, List.take_take, Nat.min_self]
      _ = (mergeBy key (l.take n)
            (sortBy key (ls.map (·.take n)).flatten)).take n :=
          (take_mergeBy ..).symm

/-- The last `n`. -/
def lastN (n : Nat) (l : List α) : List α := l.drop (l.length - n)

theorem lastN_eq (n : Nat) (l : List α) :
    lastN n l = (l.reverse.take n).reverse := by
  rw [lastN, List.take_reverse, List.reverse_reverse]

theorem reverse_sortBy (l : List α) :
    (sortBy key l).reverse
      = sortBy (fun a => OrderDual.toDual (key a)) l.reverse := by
  have hordered : Ordered (fun a => OrderDual.toDual (key a))
      (sortBy key l).reverse :=
    List.pairwise_reverse.mpr (sortBy_ordered l)
  refine eq_of_classes hordered (sortBy_ordered _) fun k => ?_
  have hclass : ∀ m : List α,
      classOf (fun a => OrderDual.toDual (key a)) k m
        = classOf key (OrderDual.ofDual k) m := fun m => rfl
  have hreverse : ∀ (k : κ) (m : List α),
      classOf key k m.reverse = (classOf key k m).reverse :=
    fun k m => List.filter_reverse
  rw [classOf_sortBy, hclass, hclass, hreverse, hreverse]
  exact congrArg List.reverse (classOf_sortBy (OrderDual.ofDual k) l)

/-- Where many ordered lists are sorted as one, the last `n` of each
decide the last `n`. -/
theorem lastN_sortBy_flatten (n : Nat) {ls : List (List α)}
    (h : ∀ l ∈ ls, Ordered key l) :
    lastN n (sortBy key ls.flatten)
      = lastN n (sortBy key (ls.map (lastN n)).flatten) := by
  have hrev : ∀ l ∈ (ls.map List.reverse).reverse,
      Ordered (fun a => OrderDual.toDual (key a)) l := by
    intro l hl
    rw [List.mem_reverse, List.mem_map] at hl
    obtain ⟨m, hm, rfl⟩ := hl
    exact List.pairwise_reverse.mpr (h m hm)
  have hmap : (ls.map List.reverse).reverse.map (·.take n)
      = ((ls.map (lastN n)).map List.reverse).reverse := by
    rw [List.map_reverse, List.map_map, List.map_map]
    congr 1
    refine List.map_congr_left fun l _ => ?_
    simp only [Function.comp, lastN_eq, List.reverse_reverse]
  rw [lastN_eq, lastN_eq, reverse_sortBy, reverse_sortBy,
    List.reverse_flatten, List.reverse_flatten,
    take_sortBy_flatten n hrev, hmap]

end StableSort
