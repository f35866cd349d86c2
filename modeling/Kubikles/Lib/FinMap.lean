/-
Finite maps the way programs use them: a lookup after each update by
cases on the key, the erasure of a list of keys, and the orders in
which a loop over the map may meet its keys.

The map itself is Mathlib's `Finmap`, whose equality is extensional;
what is added here is the case-split form of its lookup lemmas (the
shape invariants are proved in) and `Enumerates`, the specification of
an iteration order that the language leaves open.

# Indexes

A map and its index.

A program that looks its entries up by a property keeps a second map,
from the property to the key, and updates both by hand. `Indexes` says
that the second is the inverse of the first. The lemmas say of each way
of updating both exactly when it keeps that: the condition is always on
what the maps held before.

The last section is about filling both from a list that may file several
elements under one key. Of each key the last one stays (`lastBy`), and
the two maps fit together if they agree on which elements are last.
-/
import Mathlib.Data.Finmap

/-- A finite map from `K` to `V`. -/
abbrev FinMap (K V : Type*) := Finmap fun _ : K => V

namespace FinMap

variable {K V : Type*} [DecidableEq K]

-- ======== lookups

theorem lookup_insert (m : FinMap K V) (k k' : K) (v : V) :
    (m.insert k v).lookup k' = if k' = k then some v else m.lookup k' := by
  by_cases h : k' = k
  · subst h
    simp
  · rw [Finmap.lookup_insert_of_ne m h, if_neg h]

theorem lookup_erase (m : FinMap K V) (k k' : K) :
    (m.erase k).lookup k' = if k' = k then none else m.lookup k' := by
  by_cases h : k' = k
  · subst h
    simp
  · rw [Finmap.lookup_erase_ne h, if_neg h]

theorem eq_empty_iff (m : FinMap K V) :
    m = ∅ ↔ ∀ k, m.lookup k = none := by
  constructor
  · rintro rfl k
    exact Finmap.lookup_empty k
  · intro h
    exact Finmap.ext_lookup fun k => by rw [h k, Finmap.lookup_empty]

def eraseAll (m : FinMap K V) (ks : List K) : FinMap K V :=
  ks.foldl (fun m k => m.erase k) m

@[simp] theorem eraseAll_nil (m : FinMap K V) : eraseAll m [] = m := rfl

theorem eraseAll_cons (m : FinMap K V) (k : K) (ks : List K) :
    eraseAll m (k :: ks) = eraseAll (m.erase k) ks := rfl

theorem lookup_eraseAll (m : FinMap K V) (ks : List K) (k' : K) :
    (eraseAll m ks).lookup k' = if k' ∈ ks then none else m.lookup k' := by
  induction ks generalizing m with
  | nil => simp
  | cons k ks ih =>
    rw [eraseAll_cons, ih, lookup_erase]
    by_cases hk : k' = k
    · simp [hk]
    · by_cases hks : k' ∈ ks <;> simp [hk, hks]

-- ======== iteration orders

/-- `order` lists every key of the map once: an order in which a loop
over the map may meet its entries. -/
def Enumerates (order : List K) (m : FinMap K V) : Prop :=
  order.Nodup ∧ order.toFinset = m.keys

instance (order : List K) (m : FinMap K V) : Decidable (Enumerates order m) :=
  inferInstanceAs (Decidable (_ ∧ _))

theorem Enumerates.mem_iff {order : List K} {m : FinMap K V}
    (h : Enumerates order m) {k : K} : k ∈ order ↔ k ∈ m := by
  rw [← List.mem_toFinset, h.2, Finmap.mem_keys]

theorem Enumerates.lookup_isSome {order : List K} {m : FinMap K V}
    (h : Enumerates order m) {k : K} (hk : k ∈ order) :
    (m.lookup k).isSome := by
  rw [Finmap.lookup_isSome]
  exact h.mem_iff.mp hk

def size (m : FinMap K V) : Nat := m.keys.card

theorem size_eq_zero {m : FinMap K V} : size m = 0 ↔ m = ∅ := by
  unfold size
  rw [Finset.card_eq_zero, eq_empty_iff]
  constructor
  · intro h k
    rw [Finmap.lookup_eq_none, ← Finmap.mem_keys, h]
    exact Finset.notMem_empty k
  · intro h
    refine Finset.eq_empty_of_forall_notMem fun k hk => ?_
    rw [Finmap.mem_keys, ← Finmap.lookup_isSome, h k] at hk
    cases hk

theorem size_insert {m : FinMap K V} {k : K} (v : V)
    (h : m.lookup k = none) : size (m.insert k v) = size m + 1 := by
  have hkeys : (m.insert k v).keys = insert k m.keys := by
    ext k'
    rw [Finmap.mem_keys, Finmap.mem_insert, Finset.mem_insert,
      Finmap.mem_keys]
  unfold size
  rw [hkeys, Finset.card_insert_of_notMem]
  rw [Finmap.mem_keys]
  exact Finmap.lookup_eq_none.mp h

theorem size_erase {m : FinMap K V} {k : K} {v : V}
    (h : m.lookup k = some v) : size (m.erase k) + 1 = size m := by
  have hk : k ∈ m.keys := Finmap.mem_keys.mpr (Finmap.mem_of_lookup_eq_some h)
  unfold size
  rw [Finmap.keys_erase, Finset.card_erase_add_one hk]

theorem insert_erase (m : FinMap K V) (k : K) (v : V) :
    (m.erase k).insert k v = m.insert k v := by
  refine Finmap.ext_lookup fun k' => ?_
  rw [lookup_insert, lookup_insert, lookup_erase]
  split <;> rfl

end FinMap

namespace FinMap

variable {K V P : Type*} [DecidableEq K] [DecidableEq P]

/-- `index` is the inverse of `m` under the property `f`. -/
def Indexes (f : V → P) (m : FinMap K V) (index : FinMap P K) : Prop :=
  ∀ p k, index.lookup p = some k ↔ ∃ v, m.lookup k = some v ∧ f v = p

section Updates

variable {f : V → P} {m : FinMap K V} {index : FinMap P K}

theorem Indexes.lookup_of_mem (h : Indexes f m index) {k : K} {v : V}
    (hk : m.lookup k = some v) : index.lookup (f v) = some k :=
  (h (f v) k).mpr ⟨v, hk, rfl⟩

theorem Indexes.key_unique (h : Indexes f m index) {k k' : K} {v v' : V}
    (hk : m.lookup k = some v) (hk' : m.lookup k' = some v')
    (hf : f v = f v') : k = k' := by
  have hix := h.lookup_of_mem hk
  have hix' := h.lookup_of_mem hk'
  rw [← hf, hix] at hix'
  exact Option.some.inj hix'

/-- An insertion into both, at a property that is free or the key's own,
keeps the index if and only if it does not change the property of an
entry. -/
theorem Indexes.insert_iff (h : Indexes f m index) {k : K} {v : V}
    (hfree : ∀ k' ∈ index.lookup (f v), k' = k) :
    Indexes f (m.insert k v) (index.insert (f v) k)
      ↔ ∀ v' ∈ m.lookup k, f v' = f v := by
  constructor
  · intro h' v' hv'
    by_contra hne
    have hix : (index.insert (f v) k).lookup (f v') = some k := by
      rw [lookup_insert, if_neg hne]
      exact h.lookup_of_mem hv'
    obtain ⟨w, hw, hfw⟩ := (h' (f v') k).mp hix
    rw [lookup_insert, if_pos rfl, Option.some.injEq] at hw
    exact hne (by rw [hw, hfw])
  · intro hsame p k'
    rw [lookup_insert, lookup_insert]
    by_cases hp : p = f v
    · rw [if_pos hp]
      by_cases hk : k' = k
      · rw [if_pos hk, hk, hp]
        exact ⟨fun _ => ⟨v, rfl, rfl⟩, fun _ => rfl⟩
      · rw [if_neg hk]
        refine ⟨fun heq => absurd (Option.some.inj heq).symm hk, ?_⟩
        intro ⟨w, hw, hfw⟩
        have hix := h.lookup_of_mem hw
        rw [hfw, hp] at hix
        exact absurd (hfree k' hix) hk
    · rw [if_neg hp]
      by_cases hk : k' = k
      · rw [if_pos hk, hk]
        constructor
        · intro hix
          obtain ⟨w, hw, hfw⟩ := (h p k).mp hix
          exact absurd (hfw.symm.trans (hsame w hw)) hp
        · intro ⟨w, hw, hfw⟩
          rw [Option.some.injEq] at hw
          exact absurd (by rw [hw, hfw]) hp
      · rw [if_neg hk]
        exact h p k'

/-- An erasure from both keeps the index if and only if what is erased
belongs together, or is not there. -/
theorem Indexes.erase_iff (h : Indexes f m index) {k : K} {p : P} :
    Indexes f (m.erase k) (index.erase p)
      ↔ (∀ v ∈ m.lookup k, f v = p)
        ∧ (m.lookup k = none → index.lookup p = none) := by
  constructor
  · intro h'
    constructor
    · intro v hv
      by_contra hne
      have hix : (index.erase p).lookup (f v) = some k := by
        rw [lookup_erase, if_neg hne]
        exact h.lookup_of_mem hv
      obtain ⟨w, hw, -⟩ := (h' (f v) k).mp hix
      rw [lookup_erase, if_pos rfl] at hw
      cases hw
    · intro hk
      cases hix : index.lookup p with
      | none => rfl
      | some k' =>
        obtain ⟨v, hv, hf⟩ := (h p k').mp hix
        have hne : k' ≠ k := by
          intro heq
          rw [heq, hk] at hv
          cases hv
        have hix' := (h' p k').mpr
          ⟨v, by rw [lookup_erase, if_neg hne, hv], hf⟩
        rw [lookup_erase, if_pos rfl] at hix'
        cases hix'
  · intro ⟨hsome, hnone⟩ p' k'
    rw [lookup_erase, lookup_erase]
    by_cases hk : k' = k
    · rw [if_pos hk]
      constructor
      · intro hix
        split at hix
        next => cases hix
        next hp =>
          rw [hk] at hix
          obtain ⟨v, hv, hf⟩ := (h p' k).mp hix
          exact absurd (hf.symm.trans (hsome v hv)) hp
      · intro ⟨w, hw, _⟩
        cases hw
    · rw [if_neg hk]
      by_cases hp : p' = p
      · rw [if_pos hp, hp]
        refine ⟨fun hix => (by cases hix), fun ⟨w, hw, hfw⟩ => ?_⟩
        -- The property is another entry's: then nothing may be erased.
        have hix := h.lookup_of_mem hw
        rw [hfw] at hix
        cases hv : m.lookup k with
        | none =>
          rw [hnone hv] at hix
          cases hix
        | some v =>
          exact absurd (h.key_unique hw hv (hfw.trans (hsome v hv).symm)) hk
      · rw [if_neg hp]
        exact h p' k'

/-- Replacing an entry by one with the same property needs no change of
the index. -/
theorem Indexes.insert_same (h : Indexes f m index) {k : K} {v v' : V}
    (hk : m.lookup k = some v') (hf : f v' = f v) :
    Indexes f (m.insert k v) index := by
  intro p k'
  rw [h p k', lookup_insert]
  by_cases heq : k' = k
  · rw [if_pos heq, heq, hk]
    constructor
    · intro ⟨w, hw, hfw⟩
      cases hw
      exact ⟨v, rfl, hf.symm.trans hfw⟩
    · intro ⟨w, hw, hfw⟩
      cases hw
      exact ⟨v', rfl, hf.trans hfw⟩
  · rw [if_neg heq]

/-- Replacing an entry by one with another property, free or the key's
own, moves its place in the index. -/
theorem Indexes.insert_move (h : Indexes f m index) {k : K} {v v' : V}
    (hk : m.lookup k = some v') (hne : f v ≠ f v')
    (hfree : ∀ k' ∈ index.lookup (f v), k' = k) :
    Indexes f (m.insert k v) ((index.erase (f v')).insert (f v) k) := by
  have hgone : Indexes f (m.erase k) (index.erase (f v')) := by
    refine h.erase_iff.mpr ⟨fun w hw => ?_, fun hnone => ?_⟩
    · rw [Option.mem_def, hk, Option.some.injEq] at hw
      rw [hw]
    · rw [hk] at hnone
      cases hnone
  have hins := (hgone.insert_iff (v := v) (k := k) ?_).mpr ?_
  · have hmap : (m.erase k).insert k v = m.insert k v := by
      refine Finmap.ext_lookup fun k' => ?_
      rw [lookup_insert, lookup_insert, lookup_erase]
      split <;> rfl
    rw [hmap] at hins
    exact hins
  · rw [lookup_erase, if_neg hne]
    exact hfree
  · intro w hw
    rw [Option.mem_def, lookup_erase, if_pos rfl] at hw
    cases hw

end Updates

-- ======== from a list

section Fill

variable {A : Type*}

def lastBy (key : A → K) (k : K) (l : List A) : Option A :=
  l.reverse.find? (key · = k)

def insertAll (key : A → K) (val : A → V) (m : FinMap K V) (l : List A) :
    FinMap K V :=
  l.foldl (fun m a => m.insert (key a) (val a)) m

variable {key : A → K} {val : A → V} {key' : A → P}

theorem lastBy_eq_some_iff {k : K} {l : List A} {a : A} :
    lastBy key k l = some a
      ↔ key a = k ∧ ∃ pre post, l = pre ++ a :: post
        ∧ ∀ b ∈ post, key b ≠ k := by
  unfold lastBy
  rw [List.find?_eq_some_iff_append, decide_eq_true_iff]
  refine and_congr_right fun _ => ?_
  constructor
  · intro ⟨post, pre, heq, hpost⟩
    refine ⟨pre.reverse, post.reverse, ?_, fun b hb => ?_⟩
    · rw [← List.reverse_reverse l, heq]
      simp
    · simpa using hpost b (List.mem_reverse.mp hb)
  · intro ⟨pre, post, heq, hpost⟩
    refine ⟨post.reverse, pre.reverse, ?_, fun b hb => ?_⟩
    · rw [heq]
      simp
    · simpa using hpost b (List.mem_reverse.mp hb)

theorem mem_of_lastBy {k : K} {l : List A} {a : A}
    (h : lastBy key k l = some a) : a ∈ l :=
  List.mem_reverse.mp (List.mem_of_find?_eq_some h)

/-- Where no two elements have one key, the last with a key is the one with
it. -/
theorem lastBy_eq_some_iff_mem {k : K} {l : List A} {a : A}
    (h : ∀ a ∈ l, ∀ b ∈ l, key a = key b → a = b) :
    lastBy key k l = some a ↔ a ∈ l ∧ key a = k := by
  unfold lastBy
  constructor
  · intro hfind
    exact ⟨mem_of_lastBy hfind, by simpa using List.find?_some hfind⟩
  · rintro ⟨ha, rfl⟩
    cases hfind : l.reverse.find? (key · = key a) with
    | none =>
      have hnone := List.find?_eq_none.mp hfind a (List.mem_reverse.mpr ha)
      simp at hnone
    | some b =>
      have hb := mem_of_lastBy hfind
      have hkey : key b = key a := by simpa using List.find?_some hfind
      rw [h b hb a ha hkey]

theorem lastBy_of_mem {k : K} {l pre post : List A} {a b : A}
    (heq : l = pre ++ a :: post) (hb : b ∈ post) (hk : key b = k) :
    ∃ c ∈ post, lastBy key k l = some c := by
  unfold lastBy
  rw [heq, List.append_cons, List.reverse_append, List.find?_append]
  cases hfind : post.reverse.find? (key · = k) with
  | none =>
    have hnone := List.find?_eq_none.mp hfind b (List.mem_reverse.mpr hb)
    simp [hk] at hnone
  | some c =>
    exact ⟨c, List.mem_reverse.mp (List.mem_of_find?_eq_some hfind), rfl⟩

theorem lookup_insertAll (m : FinMap K V) (l : List A) (k : K) :
    (insertAll key val m l).lookup k
      = ((lastBy key k l).map val).or (m.lookup k) := by
  induction l generalizing m with
  | nil => rfl
  | cons a l ih =>
    show (insertAll key val (m.insert (key a) (val a)) l).lookup k = _
    rw [ih, lookup_insert]
    have hcons : lastBy key k (a :: l)
        = (lastBy key k l).or (if key a = k then some a else none) := by
      unfold lastBy
      rw [List.reverse_cons, List.find?_append]
      by_cases h : key a = k <;> simp [h]
    rw [hcons]
    cases lastBy key k l with
    | some c => rfl
    | none =>
      by_cases h : key a = k
      · simp [h]
      · simp [h, Ne.symm h]

theorem lookup_insertAll_empty (l : List A) (k : K) :
    (insertAll key val ∅ l).lookup k = (lastBy key k l).map val := by
  rw [lookup_insertAll, Finmap.lookup_empty, Option.or_none]

/-- An element is the last with its one key exactly if it is the last
with its other key. -/
def LastAgree (key : A → K) (key' : A → P) (l : List A) : Prop :=
  ∀ pre a post, l = pre ++ a :: post →
    ((∀ b ∈ post, key b ≠ key a) ↔ ∀ b ∈ post, key' b ≠ key' a)

/-- A map filled from a list and an index filled from it fit if and only
if the list has the same last elements for both. -/
theorem indexes_insertAll_iff (l : List A) :
    Indexes key' (insertAll key (fun a => a) ∅ l) (insertAll key' key ∅ l)
      ↔ LastAgree key key' l := by
  constructor
  · intro h pre a post heq
    constructor
    · intro hlast b hb hne
      have hm : (insertAll key (fun a => a) ∅ l).lookup (key a) = some a := by
        rw [lookup_insertAll_empty,
          lastBy_eq_some_iff.mpr ⟨rfl, pre, post, heq, hlast⟩]
        rfl
      have hix := h.lookup_of_mem hm
      obtain ⟨c, hc, hcl⟩ := lastBy_of_mem heq hb hne
      rw [lookup_insertAll_empty, hcl] at hix
      exact hlast c hc (Option.some.inj hix)
    · intro hlast b hb hne
      have hix : (insertAll key' key ∅ l).lookup (key' a)
          = some (key a) := by
        rw [lookup_insertAll_empty,
          lastBy_eq_some_iff.mpr ⟨rfl, pre, post, heq, hlast⟩]
        rfl
      obtain ⟨v, hv, hf⟩ := (h (key' a) (key a)).mp hix
      obtain ⟨c, hc, hcl⟩ := lastBy_of_mem heq hb hne
      rw [lookup_insertAll_empty, hcl] at hv
      cases hv
      exact hlast c hc hf
  · intro h p k
    rw [lookup_insertAll_empty, lookup_insertAll_empty, Option.map_id']
    constructor
    · intro hix
      obtain ⟨a, ha, hk⟩ := Option.map_eq_some_iff.mp hix
      obtain ⟨hp, pre, post, heq, hlast⟩ := lastBy_eq_some_iff.mp ha
      rw [← hp] at hlast
      refine ⟨a, lastBy_eq_some_iff.mpr ⟨hk, pre, post, heq, ?_⟩, hp⟩
      rw [← hk]
      exact (h pre a post heq).mpr hlast
    · intro ⟨a, ha, hp⟩
      obtain ⟨hk, pre, post, heq, hlast⟩ := lastBy_eq_some_iff.mp ha
      rw [← hk] at hlast
      rw [Option.map_eq_some_iff]
      refine ⟨a, lastBy_eq_some_iff.mpr ⟨hp, pre, post, heq, ?_⟩, hk⟩
      rw [← hp]
      exact (h pre a post heq).mp hlast

end Fill

end FinMap
