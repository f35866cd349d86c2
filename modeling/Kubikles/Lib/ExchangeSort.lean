/-
Sorting by exchanging what is out of order.

# The loops

The outer loop fixes one place after the other. The inner loop compares
it with each place behind it and exchanges the two if they are out of
order (`sortInPlace`). So it carries an element along and, where it finds
one that comes before it, puts it down and goes on with that one
(`carry`). What it is left with is the first of the least elements
(`sortInPlace_eq`).

# Ties

An element that is put down goes behind what is equal to it and has been
passed. For a key, the elements before it do not count, nor do those
behind it, but each element that goes before it takes its place in front
once, and the elements of the key that have no such element between them
move on by one place, in a circle. So each gap between two elements of
the key turns all that are in front of it, once for each element in it
(`filter_sort`), and all are in their old order in the end exactly if each
gap turns them all the way round (`stable_iff`).
-/
import Mathlib.Data.List.Rotate
import Mathlib.Order.Lattice

namespace ExchangeSort

variable {α β κ : Type*}

-- ======== the loops

def swap (l : List α) (i j : Nat) : List α :=
  match l[i]?, l[j]? with
  | some x, some y => (l.set i y).set j x
  | _, _ => l

/-- Exchange two elements if the second comes before the first. -/
def exchange (before : α → α → Bool) (i : Nat) (l : List α) (j : Nat) :
    List α :=
  match l[i]?, l[j]? with
  | some x, some y => if before y x then swap l i j else l
  | _, _ => l

/-- `for j := i + 1; j < len(l); j++`. -/
def innerLoop (before : α → α → Bool) (l : List α) (i : Nat) : List α :=
  (List.range' (i + 1) (l.length - (i + 1))).foldl (exchange before i) l

/-- `for i := 0; i < len(l) - 1; i++`. -/
def sortInPlace (before : α → α → Bool) (l : List α) : List α :=
  (List.range (l.length - 1)).foldl (innerLoop before) l

variable [LinearOrder κ] (key : α → κ)

/-- Carry an element along a list: put it down where there is one that
comes before it, and go on with that one. The one that is left, and the
list. -/
def carry (x : α) : List α → α × List α
  | [] => (x, [])
  | y :: ys =>
    if key y < key x then
      let (least, rest) := carry y ys
      (least, x :: rest)
    else
      let (least, rest) := carry x ys
      (least, y :: rest)

variable {key}

theorem carry_length (x : α) (ys : List α) :
    (carry key x ys).2.length = ys.length := by
  induction ys generalizing x with
  | nil => rfl
  | cons y ys ih =>
    rw [carry]
    split
    · exact congrArg (· + 1) (ih y)
    · exact congrArg (· + 1) (ih x)

variable (key)

def sort : List α → List α
  | [] => []
  | x :: xs =>
    (carry key x xs).1 :: sort (carry key x xs).2
termination_by l => l.length
decreasing_by
  rw [carry_length]
  exact Nat.lt_succ_self _

theorem exchange_next (front between : List α) (x y : α) (ys : List α) :
    exchange (fun a b => decide (key a < key b)) front.length
        (front ++ x :: (between ++ y :: ys))
        (front.length + 1 + between.length)
      = if key y < key x then front ++ y :: (between ++ x :: ys)
        else front ++ x :: (between ++ y :: ys) := by
  have hx : (front ++ x :: (between ++ y :: ys))[front.length]? = some x := by
    rw [List.getElem?_append_right le_rfl, Nat.sub_self]
    rfl
  have hy : (front ++ x :: (between ++ y :: ys))[front.length + 1
      + between.length]? = some y := by
    rw [List.getElem?_append_right (by omega)]
    have hsub : front.length + 1 + between.length - front.length
        = between.length + 1 := by omega
    rw [hsub, List.getElem?_cons_succ,
      List.getElem?_append_right le_rfl, Nat.sub_self]
    rfl
  unfold exchange swap
  rw [hx, hy]
  dsimp only
  by_cases hlt : key y < key x
  · rw [if_pos (by simpa using hlt), if_pos hlt]
    have hset : (front ++ x :: (between ++ y :: ys)).set front.length y
        = front ++ y :: (between ++ y :: ys) := by
      rw [List.set_append_right _ _ le_rfl, Nat.sub_self]
      rfl
    rw [hset, List.set_append_right _ _ (by omega)]
    have hsub : front.length + 1 + between.length - front.length
        = between.length + 1 := by omega
    rw [hsub, List.set_cons_succ, List.set_append_right _ _ le_rfl,
      Nat.sub_self]
    rfl
  · rw [if_neg (by simpa using hlt), if_neg hlt]

theorem innerLoop_from (front between : List α) (x : α) (ys : List α) :
    (List.range' (front.length + 1 + between.length) ys.length).foldl
        (exchange (fun a b => decide (key a < key b)) front.length)
        (front ++ x :: (between ++ ys))
      = front ++ (carry key x ys).1
        :: (between ++ (carry key x ys).2) := by
  induction ys generalizing between x with
  | nil => rfl
  | cons y ys ih =>
    have hnext : ∀ z, front.length + 1 + between.length + 1
        = front.length + 1 + (between ++ [z]).length := by
      intro z
      rw [List.length_append, List.length_singleton]
      omega
    rw [List.length_cons, List.range'_succ, List.foldl_cons,
      exchange_next, carry]
    split
    next hlt =>
      have hih := ih (between ++ [x]) y
      rw [← hnext x] at hih
      simp only [List.append_assoc, List.cons_append, List.nil_append]
        at hih
      exact hih
    next hle =>
      have hih := ih (between ++ [y]) x
      rw [← hnext y] at hih
      simp only [List.append_assoc, List.cons_append, List.nil_append]
        at hih
      exact hih

theorem innerLoop_eq (front : List α) (x : α) (xs : List α) :
    innerLoop (fun a b => decide (key a < key b)) (front ++ x :: xs)
        front.length
      = front ++ (carry key x xs).1 :: (carry key x xs).2 := by
  have hfrom := innerLoop_from key front [] x xs
  unfold innerLoop
  rw [List.length_append, List.length_cons]
  have hlength : front.length + (xs.length + 1) - (front.length + 1)
      = xs.length := by omega
  rw [hlength]
  exact hfrom

theorem outerLoop_from (front l : List α) :
    (List.range' front.length (l.length - 1)).foldl
        (innerLoop fun a b => decide (key a < key b)) (front ++ l)
      = front ++ sort key l := by
  induction hlength : l.length generalizing front l with
  | zero =>
    rw [List.length_eq_zero_iff.mp hlength, sort]
    rfl
  | succ n ih =>
    obtain ⟨x, xs, rfl⟩ := List.exists_cons_of_length_eq_add_one hlength
    rw [List.length_cons] at hlength
    rw [sort]
    cases n with
    | zero =>
      rw [List.length_eq_zero_iff.mp (Nat.succ.inj hlength)]
      have hnil : sort key ([] : List α) = [] := by rw [sort]
      rw [carry, hnil]
      rfl
    | succ n =>
      have hrest : (carry key x xs).2.length = n + 1 := by
        rw [carry_length]
        omega
      have hih := ih (front ++ [(carry key x xs).1])
        (carry key x xs).2 hrest
      rw [List.length_append, List.length_singleton,
        List.append_assoc, List.append_assoc] at hih
      rw [Nat.add_sub_cancel, List.range'_succ, List.foldl_cons,
        innerLoop_eq]
      exact hih

theorem sortInPlace_eq (l : List α) :
    sortInPlace (fun a b => decide (key a < key b)) l = sort key l := by
  have hfrom := outerLoop_from key [] l
  rw [List.length_nil, ← List.range_eq_range'] at hfrom
  exact hfrom

-- ======== the order

variable {key} {k : κ} {x : α} {l xs : List α}

theorem carry_perm (x : α) (ys : List α) :
    ((carry key x ys).1 :: (carry key x ys).2).Perm (x :: ys) := by
  induction ys generalizing x with
  | nil => exact List.Perm.refl _
  | cons y ys ih =>
    rw [carry]
    split
    · exact (List.Perm.swap ..).trans ((ih y).cons x)
    · exact (List.Perm.swap ..).trans
        (((ih x).cons y).trans (List.Perm.swap ..))

theorem carry_le (x : α) (ys : List α) :
    ∀ z ∈ x :: ys, key (carry key x ys).1 ≤ key z := by
  induction ys generalizing x with
  | nil =>
    intro z hz
    rw [List.mem_singleton.mp hz]
    exact le_rfl
  | cons y ys ih =>
    intro z hz
    rw [carry]
    split
    next hlt =>
      rcases List.mem_cons.mp hz with rfl | hz
      · exact (ih y y (List.mem_cons_self ..)).trans hlt.le
      · exact ih y z hz
    next hle =>
      have hx := ih x x (List.mem_cons_self ..)
      rcases List.mem_cons.mp hz with rfl | hz
      · exact hx
      · rcases List.mem_cons.mp hz with rfl | hz
        · exact hx.trans (not_lt.mp hle)
        · exact ih x z (List.mem_cons_of_mem _ hz)

theorem mem_of_mem_carry {ys : List α} {z : α} (h : z ∈ (carry key x ys).2) :
    z ∈ x :: ys :=
  (carry_perm x ys).subset (List.mem_cons_of_mem _ h)

theorem sort_perm (l : List α) : (sort key l).Perm l := by
  induction l using sort.induct key with
  | case1 =>
    rw [sort]
  | case2 x xs ih =>
    rw [sort]
    exact (ih.cons _).trans (carry_perm x xs)

theorem sort_ordered (l : List α) :
    (sort key l).Pairwise fun a b => key a ≤ key b := by
  induction l using sort.induct key with
  | case1 =>
    rw [sort]
    exact List.Pairwise.nil
  | case2 x xs ih =>
    rw [sort]
    refine List.pairwise_cons.mpr ⟨fun z hz => ?_, ih⟩
    exact carry_le x xs z (mem_of_mem_carry ((sort_perm _).subset hz))

theorem carry_map (f : β → α) (x : β) (ys : List β) :
    carry key (f x) (ys.map f)
      = (f (carry (key ∘ f) x ys).1, (carry (key ∘ f) x ys).2.map f) := by
  induction ys generalizing x with
  | nil => rfl
  | cons y ys ih =>
    rw [List.map_cons, carry, carry, ih x, ih y]
    simp only [Function.comp_apply]
    split
    · rfl
    · rfl

theorem sort_map (f : β → α) (l : List β) :
    sort key (l.map f) = (sort (key ∘ f) l).map f := by
  induction l using sort.induct (key ∘ f) with
  | case1 =>
    rw [sort, List.map_nil, sort]
  | case2 x xs ih =>
    rw [sort, List.map_cons, sort, carry_map, List.map_cons, ← ih]

-- ======== the gaps

/-- The elements of a key, each with the number of elements that go before
it and stand between it and the next of the key; and how many stand
before the first. -/
def gaps (key : α → κ) (k : κ) : List α → Nat × List (α × Nat)
  | [] => (0, [])
  | x :: l =>
    let (first, marked) := gaps key k l
    if key x < k then (first + 1, marked)
    else if key x = k then (0, (x, first) :: marked)
    else (first, marked)

def turned : List α → List (α × Nat) → List α
  | front, [] => front
  | front, (x, gap) :: marked => turned ((front ++ [x]).rotate gap) marked

/-- An element of the key is carried past others to the end of the first
gap that is not empty, and put down where that gap ends one earlier. -/
def pass (x : α) : Nat → List (α × Nat) → List (α × Nat)
  | gap + 1, marked => (x, gap) :: marked
  | 0, [] => [(x, 0)]
  | 0, (y, gap) :: marked => (y, 0) :: pass x gap marked

/-- What becomes of the gaps where the least element goes to the front. -/
def step : Nat × List (α × Nat) → Nat × List (α × Nat)
  | (first + 1, marked) => (first, marked)
  | (0, []) => (0, [])
  | (0, (x, gap) :: marked) => (0, pass x gap marked)

theorem gaps_of_lt (h : key x < k) :
    gaps key k (x :: l) = ((gaps key k l).1 + 1, (gaps key k l).2) :=
  if_pos h

theorem gaps_of_eq (h : key x = k) :
    gaps key k (x :: l) = (0, (x, (gaps key k l).1) :: (gaps key k l).2) :=
  (if_neg h.not_lt).trans (if_pos h)

theorem gaps_of_gt (h : k < key x) : gaps key k (x :: l) = gaps key k l :=
  (if_neg h.not_gt).trans (if_neg h.ne')

theorem gaps_carry_lt (h : key x < k) (ys : List α) :
    gaps key k (carry key x ys).2 = gaps key k ys := by
  induction ys generalizing x with
  | nil => rfl
  | cons y ys ih =>
    rw [carry]
    split
    next hlt =>
      have hy := hlt.trans h
      rw [gaps_of_lt h, gaps_of_lt hy, ih hy]
    next =>
      rcases lt_trichotomy (key y) k with hy | hy | hy
      · rw [gaps_of_lt hy, gaps_of_lt hy, ih h]
      · rw [gaps_of_eq hy, gaps_of_eq hy, ih h]
      · rw [gaps_of_gt hy, gaps_of_gt hy, ih h]

theorem gaps_carry_eq (h : key x = k) {ys : List α}
    (hless : ∃ z ∈ ys, key z < k) :
    gaps key k (carry key x ys).2
      = (0, pass x (gaps key k ys).1 (gaps key k ys).2) := by
  induction ys with
  | nil =>
    obtain ⟨z, hz, -⟩ := hless
    exact absurd hz List.not_mem_nil
  | cons y ys ih =>
    rw [carry]
    split
    next hlt =>
      have hy := hlt.trans_eq h
      rw [gaps_of_eq h, gaps_of_lt hy, gaps_carry_lt hy, pass]
    next hle =>
      have hrest : ∃ z ∈ ys, key z < k := by
        obtain ⟨z, hz, hlt⟩ := hless
        rcases List.mem_cons.mp hz with rfl | hz
        · exact absurd (h ▸ hlt) hle
        · exact ⟨z, hz, hlt⟩
      rcases (h ▸ not_lt.mp hle : k ≤ key y).eq_or_lt with hy | hy
      · rw [gaps_of_eq hy.symm, gaps_of_eq hy.symm, ih hrest]
        rfl
      · rw [gaps_of_gt hy, gaps_of_gt hy, ih hrest]

theorem gaps_carry_gt (h : k < key x) {ys : List α}
    (hless : ∃ z ∈ ys, key z < k) :
    gaps key k (carry key x ys).2 = step (gaps key k ys) := by
  induction ys generalizing x with
  | nil =>
    obtain ⟨z, hz, -⟩ := hless
    exact absurd hz List.not_mem_nil
  | cons y ys ih =>
    have hrest : ¬ key y < k → ∃ z ∈ ys, key z < k := by
      intro hy
      obtain ⟨z, hz, hlt⟩ := hless
      rcases List.mem_cons.mp hz with rfl | hz
      · exact absurd hlt hy
      · exact ⟨z, hz, hlt⟩
    rw [carry]
    split
    next hlt =>
      rw [gaps_of_gt h]
      rcases lt_trichotomy (key y) k with hy | hy | hy
      · rw [gaps_carry_lt hy, gaps_of_lt hy]
        rfl
      · rw [gaps_carry_eq hy (hrest hy.not_lt), gaps_of_eq hy]
        rfl
      · rw [gaps_of_gt hy, ih hy (hrest hy.not_gt)]
    next hle =>
      have hy : k < key y := h.trans_le (not_lt.mp hle)
      rw [gaps_of_gt hy, gaps_of_gt hy, ih h (hrest hy.not_gt)]

theorem gaps_carry {ys : List α} (hless : ∃ z ∈ x :: ys, key z < k) :
    gaps key k (carry key x ys).2 = step (gaps key k (x :: ys)) := by
  have hrest : ¬ key x < k → ∃ z ∈ ys, key z < k := by
    intro hx
    obtain ⟨z, hz, hlt⟩ := hless
    rcases List.mem_cons.mp hz with rfl | hz
    · exact absurd hlt hx
    · exact ⟨z, hz, hlt⟩
  rcases lt_trichotomy (key x) k with hx | hx | hx
  · rw [gaps_carry_lt hx, gaps_of_lt hx]
    rfl
  · rw [gaps_carry_eq hx (hrest hx.not_lt), gaps_of_eq hx]
    rfl
  · rw [gaps_carry_gt hx (hrest hx.not_gt), gaps_of_gt hx]

-- ======== the turns

def Open (g : Nat × List (α × Nat)) : Prop :=
  0 < g.1 ∨ ∃ p ∈ g.2, 0 < p.2

/-- Some element goes before the key, so some gap is not empty or some
element stands before the first of the key. -/
theorem gaps_open (h : ∃ z ∈ l, key z < k) : Open (gaps key k l) := by
  induction l with
  | nil =>
    obtain ⟨z, hz, -⟩ := h
    exact absurd hz List.not_mem_nil
  | cons x l ih =>
    have hrest : ¬ key x < k → Open (gaps key k l) := by
      intro hx
      obtain ⟨z, hz, hlt⟩ := h
      rcases List.mem_cons.mp hz with rfl | hz
      · exact absurd hlt hx
      · exact ih ⟨z, hz, hlt⟩
    rcases lt_trichotomy (key x) k with hx | hx | hx
    · rw [gaps_of_lt hx]
      exact Or.inl (Nat.succ_pos _)
    · rw [gaps_of_eq hx]
      rcases hrest hx.not_lt with hopen | ⟨p, hp, hpos⟩
      · exact Or.inr ⟨_, List.mem_cons_self .., hopen⟩
      · exact Or.inr ⟨p, List.mem_cons_of_mem _ hp, hpos⟩
    · rw [gaps_of_gt hx]
      exact hrest hx.not_gt

/-- To carry an element to the first open gap is one turn of those in
front of it. -/
theorem turned_pass (x : α) (gap : Nat) (marked : List (α × Nat))
    (hopen : Open (gap, marked)) (front : List α) :
    turned front (pass x gap marked)
      = turned ((x :: front).rotate gap) marked := by
  induction marked generalizing front gap with
  | nil =>
    rcases hopen with hpos | ⟨p, hp, -⟩
    · obtain ⟨n, rfl⟩ := Nat.exists_eq_succ_of_ne_zero hpos.ne'
      rw [pass, turned, turned, turned, List.rotate_cons_succ]
    · exact absurd hp List.not_mem_nil
  | cons p marked ih =>
    obtain ⟨y, gap'⟩ := p
    cases gap with
    | succ n =>
      rw [pass, turned, List.rotate_cons_succ]
    | zero =>
      have hopen' : Open (gap', marked) := by
        rcases hopen with hpos | ⟨p, hp, hpos⟩
        · exact absurd hpos (lt_irrefl 0)
        · rcases List.mem_cons.mp hp with rfl | hp
          · exact Or.inl hpos
          · exact Or.inr ⟨p, hp, hpos⟩
      rw [pass, turned, turned, List.rotate_zero, List.rotate_zero,
        ih gap' hopen']
      rfl

theorem turned_step {g : Nat × List (α × Nat)} (h : Open g) :
    turned [] (step g).2 = turned [] g.2 := by
  obtain ⟨first, marked⟩ := g
  cases first with
  | succ n => rfl
  | zero =>
    cases marked with
    | nil => rfl
    | cons p marked =>
      obtain ⟨x, gap⟩ := p
      have hopen : Open (gap, marked) := by
        rcases h with hpos | ⟨p, hp, hpos⟩
        · exact absurd hpos (lt_irrefl 0)
        · rcases List.mem_cons.mp hp with rfl | hp
          · exact Or.inl hpos
          · exact Or.inr ⟨p, hp, hpos⟩
      exact turned_pass x gap marked hopen []

theorem gaps_fst (k : κ) (l : List α) :
    (gaps key k l).2.map Prod.fst = l.filter (key · = k) := by
  induction l with
  | nil => rfl
  | cons x l ih =>
    rcases lt_trichotomy (key x) k with hx | hx | hx
    · rw [gaps_of_lt hx, List.filter_cons_of_neg (by simp [hx.ne]), ih]
    · rw [gaps_of_eq hx, List.filter_cons_of_pos (by simp [hx]),
        List.map_cons, ih]
    · rw [gaps_of_gt hx, List.filter_cons_of_neg (by simp [hx.ne']), ih]

theorem gaps_zero (h : ∀ z ∈ l, k ≤ key z) :
    (gaps key k l).1 = 0 ∧ ∀ p ∈ (gaps key k l).2, p.2 = 0 := by
  induction l with
  | nil => exact ⟨rfl, fun p hp => absurd hp List.not_mem_nil⟩
  | cons x l ih =>
    obtain ⟨hfirst, hmarked⟩ := ih fun z hz =>
      h z (List.mem_cons_of_mem _ hz)
    rcases (h x (List.mem_cons_self ..)).eq_or_lt with hx | hx
    · rw [gaps_of_eq hx.symm]
      refine ⟨rfl, fun p hp => ?_⟩
      rcases List.mem_cons.mp hp with rfl | hp
      · exact hfirst
      · exact hmarked p hp
    · rw [gaps_of_gt hx]
      exact ⟨hfirst, hmarked⟩

theorem turned_zero {marked : List (α × Nat)} (h : ∀ p ∈ marked, p.2 = 0)
    (front : List α) : turned front marked = front ++ marked.map Prod.fst := by
  induction marked generalizing front with
  | nil => exact (List.append_nil front).symm
  | cons p marked ih =>
    obtain ⟨x, gap⟩ := p
    have hgap : gap = 0 := h _ (List.mem_cons_self ..)
    rw [turned, hgap, List.rotate_zero,
      ih (fun q hq => h q (List.mem_cons_of_mem _ hq))]
    simp

/-- Goes nothing before the key, its elements are carried in order. -/
theorem filter_carry {ys : List α} (h : ∀ z ∈ x :: ys, k ≤ key z) :
    ((carry key x ys).1 :: (carry key x ys).2).filter (key · = k)
      = (x :: ys).filter (key · = k) := by
  induction ys generalizing x with
  | nil => rfl
  | cons y ys ih =>
    have hx := h x (List.mem_cons_self ..)
    have hy := h y (List.mem_cons_of_mem _ (List.mem_cons_self ..))
    have hys : ∀ z ∈ ys, k ≤ key z := fun z hz =>
      h z (List.mem_cons_of_mem _ (List.mem_cons_of_mem _ hz))
    rw [carry]
    split
    next hlt =>
      have hne : ¬ key x = k := (hy.trans_lt hlt).ne'
      have hih := ih (List.forall_mem_cons.mpr ⟨hy, hys⟩)
      rw [List.filter_cons (x := x), if_neg (by simpa using hne), ← hih]
      simp [List.filter_cons, hne]
    next hle =>
      have hih := ih (List.forall_mem_cons.mpr ⟨hx, hys⟩)
      by_cases hyk : key y = k
      · -- Then the element that is carried is of the key, and so is what
        -- it is left with.
        have hxk : key x = k := le_antisymm (hyk ▸ not_lt.mp hle) hx
        have hleast : key (carry key x ys).1 = k :=
          le_antisymm (hxk ▸ carry_le x ys x (List.mem_cons_self ..))
            (h _ (List.mem_cons.mpr ((List.mem_cons.mp
              ((carry_perm x ys).subset (List.mem_cons_self ..))).imp_right
                (List.mem_cons_of_mem _))))
        rw [List.filter_cons_of_pos (by simpa using hleast),
          List.filter_cons_of_pos (by simpa using hxk)] at hih
        obtain ⟨hhead, htail⟩ := List.cons.inj hih
        simp only [List.filter_cons, hleast, hyk, hxk, decide_true,
          if_true]
        rw [hhead, htail]
      · simp only [List.filter_cons, hyk, decide_false,
          Bool.false_eq_true, if_false] at hih ⊢
        exact hih

theorem filter_sort_of_le (h : ∀ z ∈ l, k ≤ key z) :
    (sort key l).filter (key · = k) = l.filter (key · = k) := by
  induction l using sort.induct key with
  | case1 => rw [sort]
  | case2 x xs ih =>
    have hrest := ih fun z hz => h z (mem_of_mem_carry hz)
    rw [sort, ← filter_carry h, List.filter_cons, List.filter_cons, hrest]

theorem filter_sort (k : κ) (l : List α) :
    (sort key l).filter (key · = k) = turned [] (gaps key k l).2 := by
  induction l using sort.induct key with
  | case1 =>
    rw [sort]
    rfl
  | case2 x xs ih =>
    by_cases hless : ∃ z ∈ x :: xs, key z < k
    · obtain ⟨z, hz, hlt⟩ := id hless
      have hleast : key (carry key x xs).1 < k :=
        (carry_le x xs z hz).trans_lt hlt
      rw [sort, List.filter_cons_of_neg (by simp [hleast.ne]), ih,
        gaps_carry hless, turned_step (gaps_open hless)]
    · have hle : ∀ z ∈ x :: xs, k ≤ key z := fun z hz =>
        not_lt.mp fun hlt => hless ⟨z, hz, hlt⟩
      rw [filter_sort_of_le hle, turned_zero (gaps_zero hle).2, gaps_fst]
      rfl

-- ======== all the way round

theorem turned_concat (front : List α) (marked : List (α × Nat)) (x : α)
    (gap : Nat) :
    turned front (marked ++ [(x, gap)])
      = (turned front marked ++ [x]).rotate gap := by
  induction marked generalizing front with
  | nil => rfl
  | cons p marked ih => exact ih _

theorem turned_perm (front : List α) (marked : List (α × Nat)) :
    (turned front marked).Perm (front ++ marked.map Prod.fst) := by
  induction marked generalizing front with
  | nil =>
    rw [turned, List.map_nil, List.append_nil]
  | cons p marked ih =>
    have hfront : front ++ (p :: marked).map Prod.fst
        = (front ++ [p.1]) ++ marked.map Prod.fst := by
      rw [List.map_cons, List.append_assoc, List.singleton_append]
    rw [hfront]
    exact (ih _).trans ((List.rotate_perm _ _).append_right _)

theorem rotate_concat_iff {l l' : List α} {x : α} {n : Nat}
    (hnodup : (l' ++ [x]).Nodup) (hperm : l.Perm l') :
    (l ++ [x]).rotate n = l' ++ [x] ↔ (l.length + 1) ∣ n ∧ l = l' := by
  have hlength : (l ++ [x]).length = l.length + 1 := by
    rw [List.length_append, List.length_singleton]
  constructor
  · intro h
    have hturns : (l.length + 1) ∣ n := by
      have hlast : ((l ++ [x]).rotate n)[l.length]?
          = (l' ++ [x])[l.length]? := by rw [h]
      rw [List.getElem?_rotate (by omega), hlength,
        hperm.length_eq, List.getElem?_concat_length,
        ← hperm.length_eq] at hlast
      have hnodup' : (l ++ [x]).Nodup :=
        ((hperm.append_right [x]).nodup_iff).mpr hnodup
      have hplace : (l ++ [x])[l.length]? = some x :=
        List.getElem?_concat_length
      have hlt : (l.length + n) % (l.length + 1) < (l ++ [x]).length := by
        rw [hlength]
        exact Nat.mod_lt _ (Nat.succ_pos l.length)
      have heq : (l.length + n) % (l.length + 1) = l.length :=
        (List.getElem?_inj hlt hnodup').mp (hlast.trans hplace.symm)
      have hdiv := Nat.div_add_mod (l.length + n) (l.length + 1)
      rw [heq, Nat.add_comm _ l.length] at hdiv
      exact ⟨_, (Nat.add_left_cancel hdiv).symm⟩
    obtain ⟨m, rfl⟩ := hturns
    rw [← hlength, List.rotate_length_mul] at h
    exact ⟨Nat.dvd_mul_right _ m, List.append_cancel_right h⟩
  · rintro ⟨⟨m, rfl⟩, rfl⟩
    rw [← hlength, List.rotate_length_mul]

/-- All are in their old order exactly if each gap turns those in front of
it all the way round. -/
theorem turned_iff (front : List α) (marked : List (α × Nat))
    (hnodup : (front ++ marked.map Prod.fst).Nodup) :
    turned front marked = front ++ marked.map Prod.fst
      ↔ ∀ i p, marked[i]? = some p → (front.length + i + 1) ∣ p.2 := by
  induction marked using List.reverseRecOn with
  | nil =>
    refine iff_of_true (List.append_nil front).symm fun i p hp => ?_
    cases hp
  | append_singleton marked p ih =>
    obtain ⟨x, gap⟩ := p
    have hperm := turned_perm front marked
    have hlength : (turned front marked).length
        = front.length + marked.length := by
      rw [hperm.length_eq, List.length_append, List.length_map]
    rw [List.map_append, List.map_singleton, ← List.append_assoc] at hnodup
    have hinit := ih (List.Nodup.of_append_left hnodup)
    rw [turned_concat, List.map_append, List.map_singleton,
      ← List.append_assoc, rotate_concat_iff hnodup hperm, hinit, hlength]
    constructor
    · rintro ⟨hgap, hall⟩ i p hp
      rcases Nat.lt_trichotomy i marked.length with hi | rfl | hi
      · rw [List.getElem?_append_left hi] at hp
        exact hall i p hp
      · rw [List.getElem?_concat_length] at hp
        cases hp
        exact hgap
      · rw [List.getElem?_eq_none (by simp; omega)] at hp
        cases hp
    · intro hall
      refine ⟨hall marked.length (x, gap) List.getElem?_concat_length,
        fun i p hp => hall i p ?_⟩
      have hi := (List.getElem?_eq_some_iff.mp hp).1
      rw [List.getElem?_append_left hi]
      exact hp

-- ======== stability

def arranged (before : α → α → Bool) (l : List α) : List (α × Nat) :=
  sortInPlace (fun p q => before p.1 q.1) l.zipIdx

def Stable (key : α → κ) (l : List α) : Prop :=
  (arranged (fun a b => decide (key a < key b)) l).Pairwise fun p q =>
    key p.1 = key q.1 → p.2 < q.2

theorem arranged_fst (key : α → κ) (l : List α) :
    (arranged (fun a b => decide (key a < key b)) l).map Prod.fst
      = sortInPlace (fun a b => decide (key a < key b)) l := by
  have harranged : arranged (fun a b => decide (key a < key b)) l
      = sort (key ∘ Prod.fst) l.zipIdx :=
    sortInPlace_eq (key ∘ Prod.fst) l.zipIdx
  rw [harranged, ← sort_map, List.zipIdx_map_fst, sortInPlace_eq]

theorem gaps_map (f : β → α) (k : κ) (l : List β) :
    gaps key k (l.map f)
      = ((gaps (key ∘ f) k l).1,
        (gaps (key ∘ f) k l).2.map fun p => (f p.1, p.2)) := by
  induction l with
  | nil => rfl
  | cons x l ih =>
    rw [List.map_cons, gaps, gaps, ih]
    simp only [Function.comp_apply]
    split
    · rfl
    · split
      · rfl
      · rfl

theorem zipIdx_pairwise (l : List α) (n : Nat) :
    (l.zipIdx n).Pairwise fun p q => p.2 < q.2 := by
  have hrange : ((l.zipIdx n).map Prod.snd).Pairwise (· < ·) := by
    rw [List.zipIdx_map_snd]
    exact List.pairwise_lt_range'
  exact List.pairwise_map.mp hrange

/-- The loops are stable exactly if for each key and each gap behind one
of its elements, the number of the elements of the key up to there divides
that of the elements in the gap. -/
theorem stable_iff (key : α → κ) (l : List α) :
    Stable key l
      ↔ ∀ k i p, (gaps key k l).2[i]? = some p → (i + 1) ∣ p.2 := by
  have harranged : arranged (fun a b => decide (key a < key b)) l
      = sort (key ∘ Prod.fst) l.zipIdx :=
    sortInPlace_eq (key ∘ Prod.fst) l.zipIdx
  have hclass : ∀ k, (l.zipIdx.filter ((key ∘ Prod.fst) · = k)).Pairwise
      fun p q => p.2 < q.2 := fun k => (zipIdx_pairwise l 0).filter _
  have hgaps : ∀ k, (gaps key k l).2
      = (gaps (key ∘ Prod.fst) k l.zipIdx).2.map fun p => (p.1.1, p.2) := by
    intro k
    have hmap : gaps key k (l.zipIdx.map Prod.fst)
        = ((gaps (key ∘ Prod.fst) k l.zipIdx).1,
          (gaps (key ∘ Prod.fst) k l.zipIdx).2.map
            fun p => (p.1.1, p.2)) := gaps_map Prod.fst k l.zipIdx
    rw [List.zipIdx_map_fst] at hmap
    rw [hmap]
  -- One key after the other.
  have hkeys : Stable key l ↔ ∀ k,
      ((sort (key ∘ Prod.fst) l.zipIdx).filter
        ((key ∘ Prod.fst) · = k)).Pairwise fun p q => p.2 < q.2 := by
    unfold Stable
    rw [harranged]
    constructor
    · intro h k
      refine (h.filter _).imp_of_mem fun hp hq hlt => hlt ?_
      have hp := of_decide_eq_true (List.mem_filter.mp hp).2
      have hq := of_decide_eq_true (List.mem_filter.mp hq).2
      exact hp.trans hq.symm
    · intro h
      refine List.pairwise_iff_forall_sublist.mpr fun {p q} hsub heq => ?_
      have hfilter := hsub.filter ((key ∘ Prod.fst) · = key p.1)
      rw [List.filter_cons_of_pos (by simp),
        List.filter_cons_of_pos (by simpa using heq.symm)] at hfilter
      have hpair := (h (key p.1)).sublist hfilter
      exact (List.pairwise_cons.mp hpair).1 q (List.mem_cons_self ..)
  rw [hkeys]
  refine forall_congr' fun k => ?_
  have hfst : (gaps (key ∘ Prod.fst) k l.zipIdx).2.map Prod.fst
      = l.zipIdx.filter ((key ∘ Prod.fst) · = k) := gaps_fst k l.zipIdx
  have hnodup : ([] ++ (gaps (key ∘ Prod.fst) k l.zipIdx).2.map
      Prod.fst).Nodup := by
    rw [List.nil_append, hfst]
    exact (hclass k).imp fun hlt heq => absurd (heq ▸ hlt) (lt_irrefl _)
  have hturned := turned_iff [] (gaps (key ∘ Prod.fst) k l.zipIdx).2 hnodup
  rw [filter_sort]
  have hordered : (turned [] (gaps (key ∘ Prod.fst) k l.zipIdx).2).Pairwise
        (fun p q => p.2 < q.2)
      ↔ turned [] (gaps (key ∘ Prod.fst) k l.zipIdx).2
        = [] ++ (gaps (key ∘ Prod.fst) k l.zipIdx).2.map Prod.fst := by
    have hperm := turned_perm [] (gaps (key ∘ Prod.fst) k l.zipIdx).2
    have hsorted := hclass k
    rw [← hfst] at hsorted
    constructor
    · intro h
      exact hperm.eq_of_pairwise
        (fun a b _ _ hab hba => absurd (hab.trans hba) (lt_irrefl _))
        h hsorted
    · intro h
      rw [h]
      exact hsorted
  rw [hordered, hturned, hgaps]
  constructor
  · intro h i p hp
    rw [List.getElem?_map] at hp
    obtain ⟨q, hq, rfl⟩ := Option.map_eq_some_iff.mp hp
    have hdvd := h i q hq
    rw [List.length_nil, Nat.zero_add] at hdvd
    exact hdvd
  · intro h i p hp
    rw [List.length_nil, Nat.zero_add]
    refine h i (p.1.1, p.2) ?_
    rw [List.getElem?_map, hp]
    rfl

end ExchangeSort
