/-
Lists whose entries are told apart by a key, as a program keeps them
that looks an entry up with `find`, replaces it with `map` and drops it
with `filter`.

`find` is what such a list says about a key, and each of the operations
has one equation for it. Two lists without double keys that say the same
about every key are permutations of one another (`perm_of_find`), so
what the equations determine is the list up to its order.
-/
import Mathlib.Data.List.Nodup

namespace Keyed

variable {A K : Type*} [DecidableEq K] {key : A → K}

def find (key : A → K) (l : List A) (k : K) : Option A :=
  l.find? (key · = k)

def Distinct (key : A → K) (l : List A) : Prop := (l.map key).Nodup

-- ======== lookups

@[simp] theorem find_nil (k : K) : find key [] k = none := rfl

theorem find_cons (a : A) (l : List A) (k : K) :
    find key (a :: l) k = if key a = k then some a else find key l k := by
  unfold find
  rw [List.find?_cons]
  by_cases h : key a = k <;> simp [h]

theorem key_of_find {l : List A} {k : K} {a : A}
    (h : find key l k = some a) : key a = k := by
  simpa using List.find?_some h

theorem mem_of_find {l : List A} {k : K} {a : A}
    (h : find key l k = some a) : a ∈ l :=
  List.mem_of_find?_eq_some h

theorem find_eq_none_iff {l : List A} {k : K} :
    find key l k = none ↔ ∀ a ∈ l, key a ≠ k := by
  unfold find
  rw [List.find?_eq_none]
  simp

theorem find_concat (l : List A) (a : A) (k : K) :
    find key (l ++ [a]) k
      = (find key l k).or (if key a = k then some a else none) := by
  unfold find
  rw [List.find?_append, List.find?_singleton]
  simp

theorem find_filter_ne (l : List A) (k' k : K) :
    find key (l.filter (key · ≠ k')) k
      = if k = k' then none else find key l k := by
  induction l with
  | nil => simp
  | cons a l ih =>
    rw [List.filter_cons]
    by_cases ha : key a = k'
    · rw [if_neg (by simpa using ha), ih, find_cons]
      by_cases hk : k = k'
      · simp [hk]
      · simp [hk, ha, Ne.symm hk]
    · rw [if_pos (by simpa using ha), find_cons, ih, find_cons]
      by_cases hk : key a = k
      · simp [hk, hk ▸ ha]
      · simp [hk]

theorem find_map_if (l : List A) {k' : K} {f : A → A}
    (hf : ∀ a, key a = k' → key (f a) = k') (k : K) :
    find key (l.map fun a => if key a = k' then f a else a) k
      = if k = k' then (find key l k).map f else find key l k := by
  induction l with
  | nil => simp
  | cons a l ih =>
    rw [List.map_cons, find_cons, ih, find_cons]
    by_cases ha : key a = k'
    · rw [if_pos ha, hf a ha, ha]
      by_cases hk : k = k'
      · simp [hk]
      · simp [hk, Ne.symm hk]
    · rw [if_neg ha]
      by_cases hk : key a = k
      · simp [hk, hk ▸ ha]
      · simp [hk]

theorem find_map {B : Type*} (f : B → A) (l : List B) (k : K) :
    find key (l.map f) k = (find (fun b => key (f b)) l k).map f := by
  induction l with
  | nil => rfl
  | cons b l ih =>
    rw [List.map_cons, find_cons, find_cons, ih]
    split <;> rfl

/-- A list made by going over keys says of each what was found for
it. -/
theorem find_filterMap {g : K → Option A} (ks : List K)
    (hg : ∀ k a, g k = some a → key a = k) (k : K) :
    find key (ks.filterMap g) k = if k ∈ ks then g k else none := by
  induction ks with
  | nil => simp
  | cons k' ks ih =>
    rw [List.filterMap_cons]
    cases hk' : g k' with
    | none =>
      show find key (ks.filterMap g) k = _
      rw [ih]
      by_cases hk : k = k'
      · subst hk
        simp [hk']
      · simp [hk]
    | some a =>
      show find key (a :: ks.filterMap g) k = _
      rw [find_cons, ih, hg k' a hk']
      by_cases hk : k = k'
      · subst hk
        simp [hk']
      · simp [hk, Ne.symm hk]

-- ======== distinct keys

omit [DecidableEq K] in
theorem distinct_nil : Distinct key [] := List.nodup_nil

omit [DecidableEq K] in
theorem Distinct.filter {l : List A} (h : Distinct key l) (p : A → Bool) :
    Distinct key (l.filter p) :=
  h.sublist (List.filter_sublist.map key)

theorem Distinct.concat {l : List A} (h : Distinct key l) {a : A}
    (ha : find key l (key a) = none) : Distinct key (l ++ [a]) := by
  unfold Distinct
  rw [List.map_append, List.map_singleton, List.nodup_append]
  refine ⟨h, List.nodup_singleton _, ?_⟩
  intro k hk k' hk' heq
  obtain ⟨b, hb, hkey⟩ := List.mem_map.mp hk
  apply find_eq_none_iff.mp ha b hb
  rw [hkey, heq]
  exact List.mem_singleton.mp hk'

theorem Distinct.map_if {l : List A} (h : Distinct key l) {k' : K}
    {f : A → A} (hf : ∀ a, key a = k' → key (f a) = k') :
    Distinct key (l.map fun a => if key a = k' then f a else a) := by
  have hkeys : (l.map fun a => if key a = k' then f a else a).map key
      = l.map key := by
    rw [List.map_map]
    refine List.map_congr_left fun a _ => ?_
    show key (if key a = k' then f a else a) = key a
    split
    next ha => rw [hf a ha, ha]
    next => rfl
  unfold Distinct
  rw [hkeys]
  exact h

omit [DecidableEq K] in
theorem distinct_filterMap {g : K → Option A} {ks : List K}
    (hks : ks.Nodup) (hg : ∀ k a, g k = some a → key a = k) :
    Distinct key (ks.filterMap g) := by
  induction ks with
  | nil => exact distinct_nil
  | cons k ks ih =>
    obtain ⟨hk, hks⟩ := List.nodup_cons.mp hks
    rw [List.filterMap_cons]
    cases hgk : g k with
    | none => exact ih hks
    | some a =>
      show ((a :: ks.filterMap g).map key).Nodup
      rw [List.map_cons, List.nodup_cons]
      refine ⟨fun hmem => hk ?_, ih hks⟩
      obtain ⟨b, hb, hkey⟩ := List.mem_map.mp hmem
      obtain ⟨k', hk', hgk'⟩ := List.mem_filterMap.mp hb
      rw [hg k a hgk, hg k' b hgk'] at hkey
      rw [← hkey]
      exact hk'

theorem Distinct.mem_iff {l : List A} (h : Distinct key l) {a : A} :
    a ∈ l ↔ find key l (key a) = some a := by
  constructor
  · intro ha
    induction l with
    | nil => cases ha
    | cons b l ih =>
      obtain ⟨hb, hl⟩ := List.nodup_cons.mp h
      rw [find_cons]
      cases ha with
      | head => rw [if_pos rfl]
      | tail _ ha =>
        have hne : key b ≠ key a := by
          intro heq
          exact hb (heq ▸ List.mem_map_of_mem ha)
        rw [if_neg hne]
        exact ih hl ha
  · exact mem_of_find

theorem Distinct.find_iff {l : List A} (h : Distinct key l) {k : K}
    {a : A} : find key l k = some a ↔ a ∈ l ∧ key a = k := by
  constructor
  · intro hf
    exact ⟨mem_of_find hf, key_of_find hf⟩
  · rintro ⟨ha, rfl⟩
    exact h.mem_iff.mp ha

theorem perm_of_find {l l' : List A} (h : Distinct key l)
    (h' : Distinct key l') (heq : ∀ k, find key l k = find key l' k) :
    l.Perm l' := by
  rw [List.perm_ext_iff_of_nodup h.of_map h'.of_map]
  intro a
  rw [h.mem_iff, h'.mem_iff, heq]

end Keyed
