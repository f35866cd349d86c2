/-
Merging the maps of two documents.

# Merges

A map may be laid over another member by member (`overlay`), or deeply
(`merge`): where both have a map under a key, these are merged in turn, and
what was given wins elsewhere. What is found under a key afterwards is
said once for each (`lookup_overlay`, `lookup_mergeMembers`).

# Agreement

Two documents agree if they are equal but for the order of the members of
their maps. Merging into a document changes it unless it covers the other
one already, which is to have each of its members, maps within maps
included (`agree_merge_iff`).
-/
import Kubikles.Lib.Doc

namespace Doc

-- ======== merges

/-- The members of one map put into another, over what is there. -/
def overlay (given stored : List (String × Doc)) : List (String × Doc) :=
  given.foldr (fun e m => Assoc.put e.1 e.2 m) stored

theorem lookup_overlay (given stored : List (String × Doc)) (k : String) :
    (overlay given stored).lookup k
      = (given.lookup k).or (stored.lookup k) := by
  induction given with
  | nil => rfl
  | cons e given ih =>
    obtain ⟨k', v⟩ := e
    show (Assoc.put k' v (overlay given stored)).lookup k = _
    rw [Assoc.lookup_put, Assoc.lookup_cons, ih]
    by_cases h : k = k'
    · rw [if_pos h, if_pos h]
      rfl
    · rw [if_neg h, if_neg h]

mutual

/-- A document merged over another: maps are merged, and elsewhere the
given one wins. -/
def merge : Doc → Doc → Doc
  | .map given, .map stored => .map (mergeMembers given stored)
  | given, _ => given

/-- The members of a map merged over those of another. -/
def mergeMembers :
    List (String × Doc) → List (String × Doc) → List (String × Doc)
  | [], stored => stored
  | (k, v) :: given, stored =>
    (k, match stored.lookup k with
      | some w => merge v w
      | none => v) :: mergeMembers given (Assoc.drop k stored)

end

/-- What a merge has under a key that the maps have `v` and `w` under. -/
def mergeFound : Option Doc → Option Doc → Option Doc
  | some v, some w => some (merge v w)
  | some v, none => some v
  | none, w => w

theorem lookup_mergeMembers (given stored : List (String × Doc))
    (k : String) :
    (mergeMembers given stored).lookup k
      = mergeFound (given.lookup k) (stored.lookup k) := by
  induction given generalizing stored with
  | nil => rfl
  | cons e given ih =>
    obtain ⟨k', v⟩ := e
    rw [mergeMembers, Assoc.lookup_cons, Assoc.lookup_cons]
    by_cases h : k = k'
    · subst h
      rw [if_pos rfl, if_pos rfl]
      cases stored.lookup k with
      | none => rfl
      | some w => rfl
    · rw [if_neg h, if_neg h, ih, Assoc.lookup_drop, if_neg h]

-- ======== agreement

/-- The documents are equal, but for the order of the members of maps. -/
inductive Agree : Doc → Doc → Prop
  | same (d : Doc) : Agree d d
  | arr {as bs : List Doc} (hlength : as.length = bs.length)
      (hitems : ∀ (i : Nat) (a b : Doc),
        as[i]? = some a → bs[i]? = some b → Agree a b) :
      Agree (.arr as) (.arr bs)
  | map {as bs : List (String × Doc)}
      (hkeys : ∀ k, (as.lookup k).isSome = (bs.lookup k).isSome)
      (hmembers : ∀ (k : String) (a b : Doc),
        as.lookup k = some a → bs.lookup k = some b → Agree a b) :
      Agree (.map as) (.map bs)

theorem Agree.keys {as bs : List (String × Doc)}
    (h : Agree (.map as) (.map bs)) (k : String) :
    (as.lookup k).isSome = (bs.lookup k).isSome := by
  cases h with
  | same => rfl
  | map hkeys => exact hkeys k

theorem Agree.members {as bs : List (String × Doc)}
    (h : Agree (.map as) (.map bs)) {k : String} {a b : Doc}
    (ha : as.lookup k = some a) (hb : bs.lookup k = some b) :
    Agree a b := by
  cases h with
  | same =>
    rw [ha] at hb
    cases hb
    exact .same a
  | map _ hmembers => exact hmembers k a b ha hb

theorem agree_of_lookup {as bs : List (String × Doc)}
    (h : ∀ k, as.lookup k = bs.lookup k) : Agree (.map as) (.map bs) := by
  refine .map (fun k => by rw [h k]) fun k a b ha hb => ?_
  rw [h k, hb] at ha
  cases ha
  exact .same a

theorem agree_of_rel {as bs : List (String × Doc)}
    (h : ∀ k, Option.Rel Agree (as.lookup k) (bs.lookup k)) :
    Agree (.map as) (.map bs) := by
  refine .map (fun k => ?_) fun k a b ha hb => ?_
  · have hrel := h k
    revert hrel
    cases as.lookup k <;> cases bs.lookup k <;> simp
  · have hrel := h k
    rw [ha, hb] at hrel
    cases hrel with
    | some hagree => exact hagree

theorem rel_of_eq {o o' : Option Doc} (h : o = o') :
    Option.Rel Agree o o' := by
  subst h
  cases o with
  | none => exact .none
  | some d => exact .some (.same d)

theorem Agree.exists_map {d : Doc} {bs : List (String × Doc)}
    (h : Agree d (.map bs)) : ∃ as, d = .map as := by
  cases h with
  | same => exact ⟨bs, rfl⟩
  | map => exact ⟨_, rfl⟩

theorem Agree.eq_str {d : Doc} {s : String} (h : Agree d (.str s)) :
    d = .str s := by
  cases h with
  | same => rfl

theorem Agree.exists_member {as bs : List (String × Doc)}
    (h : Agree (.map as) (.map bs)) {k : String} {a : Doc}
    (ha : as.lookup k = some a) :
    ∃ b, bs.lookup k = some b ∧ Agree a b := by
  have hkeys := h.keys k
  rw [ha] at hkeys
  obtain ⟨b, hb⟩ := Option.isSome_iff_exists.mp hkeys.symm
  exact ⟨b, hb, h.members ha hb⟩

-- ======== coverage

/-- Where both documents are maps, the first one has the members of the
second, and covers them in turn. -/
inductive Covers : Doc → Doc → Prop
  | map {given stored : List (String × Doc)}
      (hkeys : ∀ k, (stored.lookup k).isSome → (given.lookup k).isSome)
      (hmembers : ∀ (k : String) (v w : Doc),
        given.lookup k = some v → stored.lookup k = some w → Covers v w) :
      Covers (.map given) (.map stored)
  | given {v w : Doc} (h : ∀ members, v ≠ .map members) : Covers v w
  | stored {v w : Doc} (h : ∀ members, w ≠ .map members) : Covers v w

/-- What covers a document is not changed by a merge over it. -/
theorem Covers.agree {v w : Doc} (h : Covers v w) :
    Agree v (merge v w) := by
  induction h with
  | @map given stored hkeys _ ih =>
    rw [merge]
    refine .map (fun k => ?_) fun k a b ha hb => ?_
    · rw [lookup_mergeMembers]
      cases hv : given.lookup k with
      | none =>
        cases hw : stored.lookup k with
        | none => rfl
        | some w =>
          have hsome := hkeys k
          rw [hv, hw] at hsome
          cases hsome rfl
      | some v => cases stored.lookup k <;> rfl
    · rw [lookup_mergeMembers, ha] at hb
      cases hw : stored.lookup k with
      | none =>
        rw [hw] at hb
        cases hb
        exact .same a
      | some w =>
        rw [hw] at hb
        cases hb
        exact ih k a w ha hw
  | @given v w h =>
    cases v with
    | map members => cases h members rfl
    | _ => exact .same _
  | @stored v w h =>
    cases v with
    | map members =>
      cases w with
      | map members => cases h members rfl
      | _ => exact .same _
    | _ => exact .same _

theorem covers_of_agree :
    ∀ v w : Doc, Agree v (merge v w) → Covers v w
  | .map given, .map stored, h => by
      rw [merge] at h
      refine .map (fun k hw => ?_) fun k v w hv hw => ?_
      · rw [h.keys k, lookup_mergeMembers]
        cases given.lookup k with
        | none => exact hw
        | some v => cases stored.lookup k <;> rfl
      · have hmember : (k, v) ∈ given := Assoc.mem_of_lookup hv
        refine covers_of_agree v w (h.members hv ?_)
        rw [lookup_mergeMembers, hv, hw]
        rfl
  | .map _, .null, _ | .map _, .bool _, _ | .map _, .num _, _
  | .map _, .str _, _ | .map _, .arr _, _ => .stored nofun
  | .null, _, _ | .bool _, _, _ | .num _, _, _ | .str _, _, _
  | .arr _, _, _ => .given nofun
termination_by v => sizeOf v
decreasing_by
  have := List.sizeOf_lt_of_mem hmember
  simp only [Doc.map.sizeOf_spec, Prod.mk.sizeOf_spec] at this ⊢
  omega

theorem agree_merge_iff (v w : Doc) : Agree v (merge v w) ↔ Covers v w :=
  ⟨covers_of_agree v w, Covers.agree⟩

end Doc
