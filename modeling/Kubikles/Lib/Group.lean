/-
Loops that group values under keys, and loops that keep the first of every
key.

# Groups

`of` appends every value to the list under its key. What is under a key is
all its values in their order (`mem_of`), and every key is there once.

# Firsts

`keep` passes over what has a key that was seen. What it keeps, of a list
of any order, is something for every key, and nothing twice (`exists_firsts`).
-/
import Kubikles.Lib.Doc

namespace Group

variable {K V C R : Type*} [DecidableEq K]

-- ======== groups

/-- `m[k] = append(m[k], v)`. -/
def add (m : List (K × List V)) (e : K × V) : List (K × List V) :=
  Assoc.put e.1 ((Assoc.find e.1 m).getD [] ++ [e.2]) m

def of (l : List (K × V)) : List (K × List V) := l.foldl add []

def values (k : K) (l : List (K × V)) : List V :=
  (l.filter (·.1 = k)).map Prod.snd

theorem mem_values {k : K} {v : V} {l : List (K × V)} :
    v ∈ values k l ↔ (k, v) ∈ l := by
  unfold values
  constructor
  · intro h
    obtain ⟨⟨k', v'⟩, hmem, rfl⟩ := List.mem_map.mp h
    obtain ⟨hin, hk⟩ := List.mem_filter.mp hmem
    obtain rfl : k' = k := of_decide_eq_true hk
    exact hin
  · intro h
    exact List.mem_map.mpr ⟨(k, v), by simp [h], rfl⟩

theorem count_values [DecidableEq V] (k : K) (v : V) (l : List (K × V)) :
    (values k l).count v = l.count (k, v) := by
  induction l with
  | nil => rfl
  | cons e l ih =>
    obtain ⟨k', v'⟩ := e
    unfold values at ih ⊢
    rw [List.count_cons]
    by_cases hk : k' = k
    · rw [List.filter_cons_of_pos (by simpa using hk), List.map_cons,
        List.count_cons, ih]
      simp [hk]
    · rw [List.filter_cons_of_neg (by simpa using hk), ih]
      simp [hk]

theorem keys_put (k : K) (v : V) {m : List (K × V)}
    (h : (m.map Prod.fst).Nodup) :
    ((Assoc.put k v m).map Prod.fst).Nodup
      ∧ ∀ k', k' ∈ (Assoc.put k v m).map Prod.fst
        ↔ k' = k ∨ k' ∈ m.map Prod.fst := by
  induction m with
  | nil => simp [Assoc.put]
  | cons e m ih =>
    obtain ⟨k₁, v₁⟩ := e
    obtain ⟨hk₁, hm⟩ := List.nodup_cons.mp h
    obtain ⟨hnodup, hmem⟩ := ih hm
    unfold Assoc.put
    by_cases heq : k = k₁
    · subst heq
      rw [if_pos rfl]
      exact ⟨List.nodup_cons.mpr ⟨hk₁, hm⟩, fun k' => by simp⟩
    · rw [if_neg heq]
      refine ⟨List.nodup_cons.mpr ⟨fun hin => ?_, hnodup⟩, fun k' => ?_⟩
      · rcases (hmem k₁).mp hin with hsame | hin
        · exact heq hsame.symm
        · exact hk₁ hin
      · rw [List.map_cons, List.mem_cons, hmem, List.map_cons,
          List.mem_cons]
        tauto

/-- What a loop of appends leaves: every key once, and under it what was
there and its values. -/
theorem foldl_add (l : List (K × V)) (m : List (K × List V))
    (hm : (m.map Prod.fst).Nodup) :
    ((l.foldl add m).map Prod.fst).Nodup
      ∧ ∀ k, (Assoc.find k (l.foldl add m)).getD []
        = (Assoc.find k m).getD [] ++ values k l := by
  induction l generalizing m with
  | nil => exact ⟨hm, fun k => (List.append_nil _).symm⟩
  | cons e l ih =>
    obtain ⟨k', v⟩ := e
    obtain ⟨hnodup, hfind⟩ := ih (add m (k', v)) (keys_put k' _ hm).1
    refine ⟨hnodup, fun k => ?_⟩
    rw [List.foldl_cons, hfind]
    unfold add
    rw [Assoc.find_put]
    by_cases hk : k = k'
    · subst hk
      rw [if_pos rfl, Option.getD_some, List.append_assoc]
      congr 1
      unfold values
      rw [List.filter_cons_of_pos (by simp)]
      rfl
    · rw [if_neg hk]
      congr 1
      unfold values
      rw [List.filter_cons_of_neg (by simpa using Ne.symm hk)]

theorem foldl_add_ne_nil (l : List (K × V)) (m : List (K × List V))
    (hm : ∀ e ∈ m, e.2 ≠ []) : ∀ e ∈ l.foldl add m, e.2 ≠ [] := by
  induction l generalizing m with
  | nil => exact hm
  | cons e l ih =>
    refine ih _ fun e' he' => ?_
    have hput : ∀ {k : K} {vs : List V} {m : List (K × List V)},
        vs ≠ [] → (∀ e ∈ m, e.2 ≠ []) →
          ∀ e ∈ Assoc.put k vs m, e.2 ≠ [] := by
      intro k vs m hvs
      induction m with
      | nil =>
        intro _ e he
        rw [List.mem_singleton.mp he]
        exact hvs
      | cons e₁ m ihm =>
        intro hm e he
        unfold Assoc.put at he
        split at he
        · rcases List.mem_cons.mp he with rfl | he
          · exact hvs
          · exact hm e (List.mem_cons_of_mem _ he)
        · rcases List.mem_cons.mp he with rfl | he
          · exact hm _ (List.mem_cons_self ..)
          · exact ihm (fun e he => hm e (List.mem_cons_of_mem _ he)) e
              he
    exact hput (by simp) hm e' he'

theorem mem_of {k : K} {vs : List V} {l : List (K × V)} :
    (k, vs) ∈ of l ↔ vs = values k l ∧ vs ≠ [] := by
  obtain ⟨hnodup, hfind⟩ := foldl_add l [] List.nodup_nil
  have hk := hfind k
  rw [Assoc.find_nil, Option.getD_none, List.nil_append] at hk
  constructor
  · intro h
    have hlookup := Assoc.lookup_of_mem hnodup h
    unfold Assoc.find at hk
    rw [hlookup, Option.getD_some] at hk
    exact ⟨hk, foldl_add_ne_nil l [] nofun _ h⟩
  · rintro ⟨rfl, hne⟩
    cases hlookup : Assoc.find k (of l) with
    | none =>
      unfold of at hlookup
      rw [hlookup, Option.getD_none] at hk
      exact absurd hk.symm hne
    | some vs =>
      have hmem := Assoc.mem_of_lookup hlookup
      unfold of at hlookup
      rw [hlookup, Option.getD_some] at hk
      rwa [← hk]

-- ======== firsts

def keep (key : C → K) (result : C → R) (st : List K × List R) (c : C) :
    List K × List R :=
  if key c ∈ st.1 then st else (st.1 ++ [key c], st.2 ++ [result c])

theorem exists_firsts (key : C → K) (result : C → R) (cs : List C) :
    ∃ firsts : List C, firsts.Sublist cs ∧ (firsts.map key).Nodup
      ∧ (∀ c ∈ cs, key c ∈ firsts.map key)
      ∧ cs.foldl (keep key result) ([], [])
        = (firsts.map key, firsts.map result) := by
  induction cs using List.reverseRecOn with
  | nil => exact ⟨[], List.Sublist.slnil, List.nodup_nil, nofun, rfl⟩
  | append_singleton cs c ih =>
    obtain ⟨firsts, hsub, hnodup, hall, hfold⟩ := ih
    rw [List.foldl_append, hfold, List.foldl_cons, List.foldl_nil]
    by_cases hc : key c ∈ firsts.map key
    · refine ⟨firsts, hsub.trans (List.sublist_append_left ..), hnodup,
        fun c' hc' => ?_, if_pos hc⟩
      rcases List.mem_append.mp hc' with hc' | hc'
      · exact hall c' hc'
      · rw [List.mem_singleton.mp hc']
        exact hc
    · refine ⟨firsts ++ [c], hsub.append (List.Sublist.refl _), ?_,
        fun c' hc' => ?_, ?_⟩
      · rw [List.map_append, List.nodup_append]
        refine ⟨hnodup, (by simp), fun k hk k' hk' => ?_⟩
        rw [List.mem_singleton.mp hk']
        rintro rfl
        exact hc hk
      · rw [List.map_append, List.mem_append]
        rcases List.mem_append.mp hc' with hc' | hc'
        · exact .inl (hall c' hc')
        · rw [List.mem_singleton.mp hc']
          exact .inr (List.mem_singleton.mpr rfl)
      · unfold keep
        rw [if_neg hc, List.map_append, List.map_append]
        rfl

end Group
