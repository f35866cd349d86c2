/-
Settings come back as they were, where what is given fits the defaults.

# The argument

What survives is described value by value, under the default of each
(`Survives`): an object under a default object has its members, and each
of its members survives. One induction over it says what `getDiff` makes of
a value and what `deepMerge` makes of that in turn (`Survives.round`): a
value that is not stored is the default, and one that is stored is merged
back. What the calls bring survives where it fits (`Fits`), and a value that
is set in a configuration that survives leaves one.

That no default is stored holds of every diff (`no_default`).
-/
import Kubikles.Settings.Config

namespace Settings

-- ======== lookups

theorem lookup_eq_none {name : String} {l : List (String × Doc)}
    (h : name ∉ l.map Prod.fst) : l.lookup name = none := by
  cases hd : l.lookup name with
  | none => rfl
  | some d =>
    exact absurd (List.mem_map_of_mem (Assoc.mem_of_lookup hd)) h

theorem mem_names {name : String} {d : Doc} {l : List (String × Doc)}
    (h : l.lookup name = some d) : name ∈ l.map Prod.fst :=
  List.mem_map_of_mem (f := Prod.fst) (Assoc.mem_of_lookup h)

theorem nodup_put {name : String} {d : Doc} {l : List (String × Doc)}
    (h : (l.map Prod.fst).Nodup) :
    ((Assoc.put name d l).map Prod.fst).Nodup := by
  have hmem : ∀ l : List (String × Doc), ∀ name',
      name' ∈ (Assoc.put name d l).map Prod.fst →
        name' = name ∨ name' ∈ l.map Prod.fst := by
    intro l
    induction l with
    | nil => intro name' hname; exact .inl (List.mem_singleton.mp hname)
    | cons e l ih =>
      obtain ⟨k, v⟩ := e
      intro name' hname
      unfold Assoc.put at hname
      split at hname
      · exact .inr (by simpa [*] using hname)
      · rw [List.map_cons, List.mem_cons] at hname ⊢
        rcases hname with rfl | hname
        · exact .inr (.inl rfl)
        · exact (ih name' hname).imp_right .inr
  induction l with
  | nil => exact List.nodup_singleton _
  | cons e l ih =>
    obtain ⟨k, v⟩ := e
    rw [List.map_cons, List.nodup_cons] at h
    unfold Assoc.put
    split
    next heq =>
      subst heq
      exact List.nodup_cons.mpr h
    next hne =>
      refine List.nodup_cons.mpr ⟨fun hk => ?_, ih h.2⟩
      rcases hmem l k hk with heq | hk
      · exact hne heq.symm
      · exact h.1 hk

theorem equal_of_lookup {as bs : List (String × Doc)}
    (h : ∀ name, (as.lookup name = none ∧ bs.lookup name = none)
      ∨ ∃ a b, as.lookup name = some a ∧ bs.lookup name = some b
        ∧ a.Equal b) : (Doc.map as).Equal (.map bs) := by
  intro place
  cases place with
  | nil => rfl
  | cons step place =>
    rw [Doc.shapeAt_cons, Doc.shapeAt_cons]
    cases step with
    | index i => rfl
    | key name =>
      show (as.lookup name).bind _ = (bs.lookup name).bind _
      rcases h name with ⟨ha, hb⟩ | ⟨a, b, ha, hb, hab⟩
      · rw [ha, hb]
      · rw [ha, hb]
        exact hab place

-- ======== texts

mutual

theorem eq_of_sameText : ∀ a b : Doc, sameText a b = true → a = b
  | .null, b, h => by
      cases b <;> simp [sameText] at h
      rfl
  | .bool a, b, h => by
      cases b <;> simp [sameText] at h
      rw [h]
  | .num a, b, h => by
      cases b <;> simp [sameText] at h
      rw [h]
  | .str a, b, h => by
      cases b <;> simp [sameText] at h
      rw [h]
  | .arr as, b, h => by
      cases b with
      | arr bs =>
        rw [sameText] at h
        rw [eq_of_sameTexts as bs h]
      | _ => simp [sameText] at h
  | .map as, b, h => by
      cases b with
      | map bs =>
        rw [sameText] at h
        rw [eq_of_sameMembers as bs h]
      | _ => simp [sameText] at h

theorem eq_of_sameTexts :
    ∀ as bs : List Doc, sameTexts as bs = true → as = bs
  | [], bs, h => by
      cases bs with
      | nil => rfl
      | cons => simp [sameTexts] at h
  | a :: as, bs, h => by
      cases bs with
      | nil => simp [sameTexts] at h
      | cons b bs =>
        rw [sameTexts, Bool.and_eq_true] at h
        rw [eq_of_sameText a b h.1, eq_of_sameTexts as bs h.2]

theorem eq_of_sameMembers :
    ∀ as bs : List (String × Doc), sameMembers as bs = true → as = bs
  | [], bs, h => by
      cases bs with
      | nil => rfl
      | cons => simp [sameMembers] at h
  | (k, a) :: as, bs, h => by
      cases bs with
      | nil => simp [sameMembers] at h
      | cons e bs =>
        obtain ⟨k', b⟩ := e
        rw [sameMembers, Bool.and_eq_true, Bool.and_eq_true,
          decide_eq_true_eq] at h
        rw [h.1.1, eq_of_sameText a b h.1.2, eq_of_sameMembers as bs h.2]

end

mutual

theorem sameText_refl : ∀ a : Doc, sameText a a = true
  | .null => rfl
  | .bool a => by simp [sameText]
  | .num a => by simp [sameText]
  | .str a => by simp [sameText]
  | .arr as => by rw [sameText, sameTexts_refl as]
  | .map as => by rw [sameText, sameMembers_refl as]

theorem sameTexts_refl : ∀ as : List Doc, sameTexts as as = true
  | [] => rfl
  | a :: as => by rw [sameTexts, sameText_refl a, sameTexts_refl as]; rfl

theorem sameMembers_refl :
    ∀ as : List (String × Doc), sameMembers as as = true
  | [] => rfl
  | (k, a) :: as => by
      rw [sameMembers, sameText_refl a, sameMembers_refl as]
      simp

end

-- ======== properties

variable {methods : Doc → List String}

theorem own_map (members : List (String × Doc)) (name : String) :
    own (.map members) name = members.lookup name := rfl

theorem prop_map {defaults : List (String × Doc)} {name : String} {d : Doc}
    (h : defaults.lookup name = some d) :
    prop methods (.map defaults) name = .value d := by
  unfold prop
  rw [own_map, h]

theorem own_of_prop {d value : Doc} {name : String}
    (h : prop methods d name = .value value) : own d name = some value := by
  unfold prop at h
  split at h
  next heq =>
    rw [heq]
    cases h
    rfl
  next =>
    split at h <;> cases h

def Found.own : Found → Option Doc
  | .value d => some d
  | _ => none

theorem own_prop (d : Doc) (name : String) :
    (prop methods d name).own = Settings.own d name := by
  unfold prop
  cases Settings.own d name with
  | some value => rfl
  | none =>
    dsimp only
    split <;> rfl

-- ======== loops over names

/-- A diff has of each member what is kept of it. -/
theorem getDiff_of {d : Doc} {members : List (String × Doc)}
    (hnodup : (members.map Prod.fst).Nodup)
    (hnames : ∀ name, (members.lookup name).isSome → name ≠ "__proto__")
    (hmembers : ∀ name value, members.lookup name = some value →
      ∃ kept, diffValue methods (prop methods d name) value = some kept) :
    ∃ diff, getDiff methods d members = some diff
      ∧ (diff.map Prod.fst).Sublist (members.map Prod.fst)
      ∧ ∀ name, diff.lookup name = (members.lookup name).bind fun value =>
          (diffValue methods (prop methods d name) value).join := by
  induction members with
  | nil => exact ⟨[], rfl, List.Sublist.refl _, fun _ => rfl⟩
  | cons e members ih =>
    obtain ⟨k, v⟩ := e
    rw [List.map_cons, List.nodup_cons] at hnodup
    have hrest : ∀ name value, members.lookup name = some value →
        name ≠ k ∧ ((k, v) :: members).lookup name = some value := by
      intro name value hvalue
      have hne : name ≠ k := fun heq =>
        hnodup.1 (heq ▸ mem_names hvalue)
      rw [Assoc.lookup_cons, if_neg hne]
      exact ⟨hne, hvalue⟩
    have hk : ((k, v) :: members).lookup k = some v := by
      rw [Assoc.lookup_cons, if_pos rfl]
    obtain ⟨diff, hdiff, hsub, hlookup⟩ := ih hnodup.2
      (fun name hname => by
        obtain ⟨value, hvalue⟩ := Option.isSome_iff_exists.mp hname
        exact hnames name (by rw [(hrest name value hvalue).2]; rfl))
      fun name value hvalue =>
        hmembers name value (hrest name value hvalue).2
    obtain ⟨kept, hkept⟩ := hmembers k v hk
    have hproto := hnames k (by rw [hk]; rfl)
    have hnone : diff.lookup k = none := lookup_eq_none fun hmem =>
      hnodup.1 (hsub.subset hmem)
    cases kept with
    | none =>
      refine ⟨diff, by simp [getDiff, hkept, hdiff],
        hsub.cons k, fun name => ?_⟩
      rw [Assoc.lookup_cons]
      split
      next heq =>
        subst heq
        rw [hnone, Option.bind_some, hkept]
        rfl
      next => exact hlookup name
    | some u =>
      refine ⟨(k, u) :: diff, by simp [getDiff, hkept, hdiff, hproto],
        hsub.cons_cons k, fun name => ?_⟩
      rw [Assoc.lookup_cons, Assoc.lookup_cons]
      split
      next heq =>
        subst heq
        rw [Option.bind_some, hkept]
        rfl
      next => exact hlookup name

theorem mergeMembers_other {result source merged : List (String × Doc)}
    {name : String} (h : mergeMembers result source = some merged)
    (hname : source.lookup name = none) :
    merged.lookup name = result.lookup name := by
  induction source generalizing result with
  | nil =>
    obtain rfl := Option.some.inj h
    rfl
  | cons e source ih =>
    obtain ⟨k, v⟩ := e
    rw [Assoc.lookup_cons] at hname
    split at hname
    · cases hname
    next hne =>
      rw [mergeMembers] at h
      split at h
      · cases h
      · obtain ⟨x, -, h⟩ := Option.bind_eq_some_iff.mp h
        rw [ih h hname, Assoc.lookup_put, if_neg hne]

theorem mergeMembers_source {result source merged : List (String × Doc)}
    {name : String} {value : Doc}
    (hnodup : (source.map Prod.fst).Nodup)
    (h : mergeMembers result source = some merged)
    (hvalue : source.lookup name = some value) :
    merged.lookup name = mergeValue (result.lookup name) value := by
  induction source generalizing result with
  | nil => cases hvalue
  | cons e source ih =>
    obtain ⟨k, v⟩ := e
    rw [List.map_cons, List.nodup_cons] at hnodup
    rw [mergeMembers] at h
    split at h
    · cases h
    obtain ⟨x, hx, h⟩ := Option.bind_eq_some_iff.mp h
    rw [Assoc.lookup_cons] at hvalue
    split at hvalue
    next heq =>
      subst heq
      obtain rfl := Option.some.inj hvalue
      rw [mergeMembers_other h (lookup_eq_none hnodup.1),
        Assoc.lookup_put, if_pos rfl, hx]
    next hne =>
      rw [ih hnodup.2 h hvalue, Assoc.lookup_put, if_neg hne]

theorem mergeMembers_of {result source : List (String × Doc)}
    (hnodup : (source.map Prod.fst).Nodup)
    (hnames : ∀ name, (source.lookup name).isSome → name ≠ "__proto__")
    (hmembers : ∀ name value, source.lookup name = some value →
      ∃ merged, mergeValue (result.lookup name) value = some merged) :
    ∃ merged, mergeMembers result source = some merged
      ∧ ((result.map Prod.fst).Nodup → (merged.map Prod.fst).Nodup) := by
  induction source generalizing result with
  | nil => exact ⟨result, rfl, id⟩
  | cons e source ih =>
    obtain ⟨k, v⟩ := e
    rw [List.map_cons, List.nodup_cons] at hnodup
    have hrest : ∀ name value, source.lookup name = some value →
        name ≠ k ∧ ((k, v) :: source).lookup name = some value := by
      intro name value hvalue
      have hne : name ≠ k := fun heq =>
        hnodup.1 (heq ▸ mem_names hvalue)
      rw [Assoc.lookup_cons, if_neg hne]
      exact ⟨hne, hvalue⟩
    have hk : ((k, v) :: source).lookup k = some v := by
      rw [Assoc.lookup_cons, if_pos rfl]
    obtain ⟨x, hx⟩ := hmembers k v hk
    obtain ⟨merged, hmerged, hmnodup⟩ :=
      @ih (Assoc.put k x result) hnodup.2
        (fun name hname => by
          obtain ⟨value, hvalue⟩ := Option.isSome_iff_exists.mp hname
          exact hnames name (by rw [(hrest name value hvalue).2]; rfl))
        fun name value hvalue => by
          obtain ⟨hne, hvalue⟩ := hrest name value hvalue
          rw [Assoc.lookup_put, if_neg hne]
          exact hmembers name value hvalue
    refine ⟨merged, ?_, fun h => hmnodup (nodup_put h)⟩
    rw [mergeMembers, if_neg (hnames k (by rw [hk]; rfl)), hx]
    exact hmerged

-- ======== what survives

/-- A value that comes back under its default. -/
inductive Survives (methods : Doc → List String) : Found → Doc → Prop
  | plain {found : Found} {value : Doc}
      (hfound : ∀ defaults, found ≠ .value (.map defaults))
      (harr : ∀ items, value ≠ .arr items)
      (hmap : ∀ members, value ≠ .map members) :
      Survives methods found value
  | list {found : Found} {items : List Doc}
      (hfound : ∀ defaults, found ≠ .value (.map defaults))
      (hitems : ListFits found items) : Survives methods found (.arr items)
  | part {defaults members : List (String × Doc)}
      (hnodup : (members.map Prod.fst).Nodup)
      (hall : ∀ name, (defaults.lookup name).isSome →
        (members.lookup name).isSome)
      (hnames : ∀ name, (members.lookup name).isSome → name ≠ "__proto__")
      (hmembers : ∀ name value, members.lookup name = some value →
        Survives methods (prop methods (.map defaults) name) value) :
      Survives methods (.value (.map defaults)) (.map members)
  | object {found : Found} {defaults : Doc} {members : List (String × Doc)}
      (hfound : ∀ defaults, found ≠ .value (.map defaults))
      (hdefaults : orEmpty found = some defaults) (hbare : Bare defaults)
      (hne : members ≠ [])
      (hnodup : (members.map Prod.fst).Nodup)
      (hnames : ∀ name, (members.lookup name).isSome → name ≠ "__proto__")
      (hmembers : ∀ name value, members.lookup name = some value →
        Survives methods (prop methods defaults name) value) :
      Survives methods found (.map members)

/-- What a value comes back to: where nothing is stored it is the default,
and what is stored is merged to it. -/
structure Round (methods : Doc → List String) (found : Found) (value : Doc)
    (kept : Option Doc) : Prop where
  diff : diffValue methods found value = some kept
  unstored : kept = none → ∃ d, found = .value d ∧ d.Equal value
  stored : ∀ u, kept = some u →
    ∃ r, mergeValue found.own u = some r ∧ r.Equal value

/-- A value that is no list and no object is stored where it is not the
default. -/
theorem round_plain {found : Found} {value : Doc}
    (harr : ∀ items, value ≠ .arr items)
    (hmap : ∀ members, value ≠ .map members) :
    ∃ kept, Round methods found value kept := by
  have hdiff : diffValue methods found value
      = some (if isDefault value found then none else some value) := by
    cases value with
    | arr items => exact absurd rfl (harr items)
    | map members => exact absurd rfl (hmap members)
    | _ => rfl
  refine ⟨_, hdiff, fun hnone => ?_, fun u hu => ⟨value, ?_, .refl _⟩⟩
  · split at hnone
    next hsame =>
      cases found with
      | value d =>
        rw [eq_of_sameText value d hsame]
        exact ⟨d, rfl, .refl d⟩
      | _ => cases hsame
    next => cases hnone
  · split at hu
    · cases hu
    · obtain rfl := Option.some.inj hu
      cases value with
      | arr items => exact absurd rfl (harr items)
      | map members => exact absurd rfl (hmap members)
      | _ => rfl

/-- A list that is told from the default is stored where it is not the
default. -/
theorem round_list {found : Found} {items : List Doc}
    (h : ListFits found items) :
    ∃ kept, Round methods found (.arr items) kept := by
  by_cases hobjects : hasObjects items = true
  case pos =>
    have hne : items ≠ [] := by
      rintro rfl
      cases hobjects
    refine ⟨_, by rw [diffValue, if_pos hobjects], fun hnone => ?_,
      fun u hu => ⟨.arr items, ?_, .refl _⟩⟩
    · split at hnone
      next hsame =>
        have hempty : ¬ sameText (.arr items) (.arr []) = true :=
          fun hf => hne (Doc.arr.inj (eq_of_sameText _ _ hf))
        cases found with
        | missing => exact absurd hsame hempty
        | value d =>
          have htext : sameText (.arr items)
              (if truthy d then d else .arr []) = true := hsame
          split at htext
          · rw [eq_of_sameText _ _ htext]
            exact ⟨d, rfl, .refl d⟩
          · exact absurd htext hempty
        | builtin => cases hsame
      next => cases hnone
    · split at hu
      · cases hu
      · obtain rfl := Option.some.inj hu
        rfl
  case neg =>
    obtain ⟨defaults, hdefaults, hsame⟩ := h.resolve_left hobjects
    refine ⟨if sameTexts (sorted items) (sorted defaults) then none
      else some (.arr items), ?_, fun hnone => ?_,
      fun u hu => ⟨.arr items, ?_, .refl _⟩⟩
    · rw [diffValue, if_neg hobjects, hdefaults]
      rfl
    · split at hnone
      next heq => exact ⟨_, hsame heq, .refl _⟩
      next => cases hnone
    · split at hu
      · cases hu
      · obtain rfl := Option.some.inj hu
        rfl

/-- An object whose members come back is merged back from what is stored of
them, over what it had under their names, if the rest is what was there. -/
theorem round_members (d : Doc) (before : List (String × Doc))
    {members : List (String × Doc)}
    (hbefore : ∀ name, before.lookup name = own d name)
    (hnodup : (members.map Prod.fst).Nodup)
    (hall : ∀ name, members.lookup name = none →
      before.lookup name = none)
    (hnames : ∀ name, (members.lookup name).isSome → name ≠ "__proto__")
    (hmembers : ∀ name value, members.lookup name = some value →
      ∃ kept, Round methods (prop methods d name) value kept) :
    ∃ diff, getDiff methods d members = some diff
      ∧ (diff = [] → (Doc.map before).Equal (.map members))
      ∧ ∃ merged, mergeMembers before diff = some merged
        ∧ (Doc.map merged).Equal (.map members) := by
  obtain ⟨diff, hdiff, hsub, hlookup⟩ := getDiff_of hnodup hnames
    fun name value hvalue => by
      obtain ⟨kept, hround⟩ := hmembers name value hvalue
      exact ⟨kept, hround.diff⟩
  -- what is stored of a member, and what it is when nothing is
  have hstored : ∀ name u, diff.lookup name = some u →
      ∃ value, members.lookup name = some value
        ∧ ∃ r, mergeValue (before.lookup name) u = some r
          ∧ r.Equal value := by
    intro name u hu
    rw [hlookup, Option.bind_eq_some_iff] at hu
    obtain ⟨value, hvalue, hu⟩ := hu
    obtain ⟨kept, hround⟩ := hmembers name value hvalue
    rw [hround.diff] at hu
    obtain ⟨r, hr, hequal⟩ := hround.stored u hu
    rw [own_prop, ← hbefore] at hr
    exact ⟨value, hvalue, r, hr, hequal⟩
  have hunstored : ∀ name, diff.lookup name = none →
      (before.lookup name = none ∧ members.lookup name = none)
        ∨ ∃ a b, before.lookup name = some a
          ∧ members.lookup name = some b ∧ a.Equal b := by
    intro name hname
    cases hvalue : members.lookup name with
    | none => exact .inl ⟨hall name hvalue, rfl⟩
    | some value =>
      obtain ⟨kept, hround⟩ := hmembers name value hvalue
      rw [hlookup, hvalue, Option.bind_some, hround.diff] at hname
      obtain ⟨w, hw, hequal⟩ := hround.unstored hname
      refine .inr ⟨w, value, ?_, rfl, hequal⟩
      rw [hbefore]
      exact own_of_prop hw
  refine ⟨diff, hdiff, fun hempty => ?_, ?_⟩
  · subst hempty
    exact equal_of_lookup fun name => hunstored name rfl
  · have hdnodup := hnodup.sublist hsub
    obtain ⟨merged, hmerged, -⟩ := mergeMembers_of hdnodup
      (fun name hname => by
        obtain ⟨u, hu⟩ := Option.isSome_iff_exists.mp hname
        obtain ⟨value, hvalue, -⟩ := hstored name u hu
        exact hnames name (by rw [hvalue]; rfl))
      fun name u hu => by
        obtain ⟨_, _, r, hr, -⟩ := hstored name u hu
        exact ⟨r, hr⟩
    refine ⟨merged, hmerged, equal_of_lookup fun name => ?_⟩
    cases hu : diff.lookup name with
    | none =>
      rw [mergeMembers_other hmerged hu]
      exact hunstored name hu
    | some u =>
      obtain ⟨value, hvalue, r, hr, hequal⟩ := hstored name u hu
      refine .inr ⟨r, value, ?_, hvalue, hequal⟩
      rw [mergeMembers_source hdnodup hmerged hu, hr]

theorem spread_of_bare {found : Found} {d : Doc}
    (hfound : ∀ defaults, found ≠ .value (.map defaults))
    (hd : orEmpty found = some d) (hbare : Bare d) :
    (found.own.map spread).getD [] = [] := by
  cases found with
  | missing => rfl
  | builtin => rfl
  | value w =>
    show spread w = []
    cases w with
    | map members => exact absurd rfl (hfound members)
    | str value =>
      by_cases hvalue : value = ""
      · subst hvalue
        decide
      · have heq : Doc.str value = d := by
          simpa [orEmpty, truthy, hvalue] using hd
        have hlength := hbare "length"
        rw [← heq] at hlength
        cases hlength
    | arr items =>
      obtain rfl : Doc.arr items = d := Option.some.inj hd
      have hlength := hbare "length"
      cases hlength
    | _ => rfl

/-- What survives comes back. -/
theorem Survives.round {found : Found} {value : Doc}
    (h : Survives methods found value) :
    ∃ kept, Round methods found value kept := by
  induction h with
  | plain _ harr hmap => exact round_plain harr hmap
  | list _ hitems => exact round_list hitems
  | @part defaults members hnodup hall hnames _ ih =>
    obtain ⟨diff, hdiff, hempty, merged, hmerged, hequal⟩ :=
      round_members (.map defaults) defaults (fun _ => rfl) hnodup
        (fun name hname => by
          cases hd : defaults.lookup name with
          | none => rfl
          | some d =>
            have hsome := hall name (by rw [hd]; rfl)
            rw [hname] at hsome
            cases hsome)
        hnames ih
    refine ⟨if 0 < diff.length then some (.map diff) else none, ?_,
      fun hnone => ⟨_, rfl, hempty ?_⟩, fun u hu => ⟨_, ?_, hequal⟩⟩
    · rw [diffValue]
      show (getDiff methods (.map defaults) members).bind _ = _
      rw [hdiff]
      rfl
    · split at hnone
      · cases hnone
      next hzero => exact List.length_eq_zero_iff.mp (by omega)
    · split at hu
      · obtain rfl := Option.some.inj hu
        show (mergeMembers defaults diff).map Doc.map = _
        rw [hmerged]
        rfl
      · cases hu
  | @object found d members hfound hd hbare hne hnodup hnames _ ih =>
    have hspread := spread_of_bare hfound hd hbare
    obtain ⟨diff, hdiff, hempty, merged, hmerged, hequal⟩ :=
      round_members d [] (fun name => (hbare name).symm) hnodup
        (fun _ _ => rfl) hnames ih
    have hlength : 0 < diff.length := by
      rw [List.length_pos_iff]
      intro hnil
      obtain ⟨e, rest, rfl⟩ := List.exists_cons_of_ne_nil hne
      have hplace := hempty hnil [.key e.1]
      rw [Doc.shapeAt_cons, Doc.shapeAt_cons] at hplace
      have hfirst : (e :: rest).lookup e.1 = some e.2 := by
        obtain ⟨k, v⟩ := e
        rw [Assoc.lookup_cons, if_pos rfl]
      rw [show (Doc.map (e :: rest)).child (.key e.1) = some e.2
        from hfirst] at hplace
      cases hplace
    refine ⟨some (.map diff), ?_, fun hnone => (by cases hnone),
      fun u hu => ⟨_, ?_, hequal⟩⟩
    · rw [diffValue, hd]
      show (getDiff methods d members).bind _ = _
      rw [hdiff]
      show some (if 0 < diff.length then _ else _) = _
      rw [if_pos hlength]
    · obtain rfl := Option.some.inj hu
      rw [mergeValue, hspread, hmerged]
      rfl

-- ======== the defaults

mutual

/-- Defaults have distinct names, none of which is that of a prototype, and
their lists are of strings. -/
def clean : Doc → Bool
  | .map members =>
    decide (members.map Prod.fst).Nodup && cleanMembers members
  | .arr items => items.all fun
      | .str _ => true
      | _ => false
  | _ => true

def cleanMembers : List (String × Doc) → Bool
  | [] => true
  | (name, value) :: members =>
    name ≠ "__proto__" && clean value && cleanMembers members

end

theorem defaultConfig_clean : clean (.map defaultConfig) = true := by
  decide

theorem cleanMembers_lookup {members : List (String × Doc)}
    (h : cleanMembers members = true) {name : String} {value : Doc}
    (hvalue : members.lookup name = some value) :
    name ≠ "__proto__" ∧ clean value = true := by
  induction members with
  | nil => cases hvalue
  | cons e members ih =>
    obtain ⟨k, v⟩ := e
    rw [cleanMembers, Bool.and_eq_true, Bool.and_eq_true,
      decide_eq_true_eq] at h
    rw [Assoc.lookup_cons] at hvalue
    split at hvalue
    next heq =>
      obtain rfl := Option.some.inj hvalue
      exact ⟨heq ▸ h.1.1, h.1.2⟩
    next => exact ih h.2 hvalue

theorem clean_map {members : List (String × Doc)}
    (h : clean (.map members) = true) :
    (members.map Prod.fst).Nodup
      ∧ ∀ name value, members.lookup name = some value →
          name ≠ "__proto__" ∧ clean value = true := by
  rw [clean, Bool.and_eq_true, decide_eq_true_eq] at h
  exact ⟨h.1, fun _ _ hvalue => cleanMembers_lookup h.2 hvalue⟩

theorem survives_default (d : Doc) (h : clean d = true) :
    Survives methods (.value d) d := by
  induction d using Doc.child_induction with
  | h d ih =>
    cases d with
    | map members =>
      obtain ⟨hnodup, hmembers⟩ := clean_map h
      refine .part hnodup (fun _ => id) (fun name hname => ?_)
        fun name value hvalue => ?_
      · obtain ⟨value, hvalue⟩ := Option.isSome_iff_exists.mp hname
        exact (hmembers name value hvalue).1
      · rw [prop_map hvalue]
        exact ih (.key name) value hvalue (hmembers name value hvalue).2
    | arr items =>
      exact .list (fun _ hf => by cases hf) (.inr ⟨items, rfl, fun _ => rfl⟩)
    | _ =>
      exact .plain (fun _ hf => by cases hf) (fun _ hf => by cases hf)
        fun _ hf => by cases hf

-- ======== what is given

theorem prop_ne_map {d : Doc} (hbare : Bare d) (name : String)
    (defaults : List (String × Doc)) :
    prop methods d name ≠ .value (.map defaults) := by
  intro hprop
  have hown := own_of_prop hprop
  rw [hbare name] at hown
  cases hown

theorem Fits.survives {found : Found} {value : Doc}
    (h : Fits methods found value)
    (hfound : ∀ defaults, found ≠ .value (.map defaults))
    (hdistinct : value.Distinct) : Survives methods found value := by
  induction h with
  | plain hfound harr hmap => exact .plain hfound harr hmap
  | list hfound hitems => exact .list hfound hitems
  | part => exact absurd rfl (hfound _)
  | object _ hdefaults hbare hne hnames _ ih =>
    refine .object hfound hdefaults hbare hne hdistinct.names hnames ?_
    intro name value hvalue
    exact ih name value hvalue (prop_ne_map hbare name)
      (hdistinct.member (Assoc.mem_of_lookup hvalue))

/-- Members that are merged to what survives, over members that survive. -/
theorem merged_members (d : Doc) (before : List (String × Doc))
    {members : List (String × Doc)}
    (hbefore : ∀ name, before.lookup name = own d name)
    (hnodup : (members.map Prod.fst).Nodup)
    (hnames : ∀ name, (members.lookup name).isSome → name ≠ "__proto__")
    (hrest : ∀ name value, before.lookup name = some value →
      name ≠ "__proto__" ∧ Survives methods (prop methods d name) value)
    (hmembers : ∀ name value, members.lookup name = some value →
      ∃ r, mergeValue (prop methods d name).own value = some r
        ∧ Survives methods (prop methods d name) r) :
    ∃ merged, mergeMembers before members = some merged
      ∧ ((before.map Prod.fst).Nodup → (merged.map Prod.fst).Nodup)
      ∧ (∀ name, (before.lookup name).isSome
          ∨ (members.lookup name).isSome → (merged.lookup name).isSome)
      ∧ (∀ name, (merged.lookup name).isSome → name ≠ "__proto__")
      ∧ ∀ name value, merged.lookup name = some value →
          Survives methods (prop methods d name) value := by
  have hgiven : ∀ name value, members.lookup name = some value →
      ∃ r, mergeValue (before.lookup name) value = some r
        ∧ Survives methods (prop methods d name) r := by
    intro name value hvalue
    obtain ⟨r, hr, hsurvives⟩ := hmembers name value hvalue
    rw [own_prop, ← hbefore] at hr
    exact ⟨r, hr, hsurvives⟩
  obtain ⟨merged, hmerged, hmnodup⟩ := mergeMembers_of hnodup hnames
    fun name value hvalue => by
      obtain ⟨r, hr, -⟩ := hgiven name value hvalue
      exact ⟨r, hr⟩
  have hcases : ∀ name value, merged.lookup name = some value →
      name ≠ "__proto__"
        ∧ Survives methods (prop methods d name) value := by
    intro name value hvalue
    cases hfound : members.lookup name with
    | some given =>
      obtain ⟨r, hr, hsurvives⟩ := hgiven name given hfound
      rw [mergeMembers_source hnodup hmerged hfound, hr] at hvalue
      obtain rfl := Option.some.inj hvalue
      exact ⟨hnames name (by rw [hfound]; rfl), hsurvives⟩
    | none =>
      rw [mergeMembers_other hmerged hfound] at hvalue
      exact hrest name value hvalue
  refine ⟨merged, hmerged, hmnodup, fun name hname => ?_,
    fun name hname => ?_, fun name value hvalue =>
      (hcases name value hvalue).2⟩
  · cases hfound : members.lookup name with
    | some given =>
      obtain ⟨r, hr, -⟩ := hgiven name given hfound
      rw [mergeMembers_source hnodup hmerged hfound, hr]
      rfl
    | none =>
      rw [mergeMembers_other hmerged hfound]
      rw [hfound] at hname
      exact hname.resolve_right (by simp)
  · obtain ⟨value, hvalue⟩ := Option.isSome_iff_exists.mp hname
    exact (hcases name value hvalue).1

/-- What fits is merged to what survives. -/
theorem Fits.merged {found : Found} {value : Doc}
    (h : Fits methods found value) (hdistinct : value.Distinct)
    (hclean : ∀ d, found = .value d → clean d = true) :
    ∃ r, mergeValue found.own value = some r
      ∧ Survives methods found r := by
  induction h with
  | @plain found value hfound harr hmap =>
    refine ⟨value, ?_, .plain hfound harr hmap⟩
    cases value with
    | arr items => exact absurd rfl (harr items)
    | map members => exact absurd rfl (hmap members)
    | _ => rfl
  | list hfound hitems => exact ⟨_, rfl, .list hfound hitems⟩
  | @part defaults members hnames _ ih =>
    obtain ⟨hnodup, hdefaults⟩ := clean_map (hclean _ rfl)
    obtain ⟨merged, hmerged, hmnodup, hall, hmnames, hmembers⟩ :=
      merged_members (.map defaults) defaults (fun _ => rfl)
        hdistinct.names hnames
        (fun name d hd => by
          rw [prop_map hd]
          exact ⟨(hdefaults name d hd).1,
            survives_default d (hdefaults name d hd).2⟩)
        fun name given hgiven => ih name given hgiven
          (hdistinct.member (Assoc.mem_of_lookup hgiven)) fun d hd =>
            (hdefaults name d (own_of_prop hd)).2
    refine ⟨.map merged, ?_, .part (hmnodup hnodup)
      (fun name hname => hall name (.inl hname)) hmnames hmembers⟩
    show (mergeMembers defaults members).map Doc.map = _
    rw [hmerged]
    rfl
  | @object found d members hfound hd hbare hne hnames _ ih =>
    obtain ⟨merged, hmerged, hmnodup, hall, hmnames, hmembers⟩ :=
      merged_members d [] (fun name => (hbare name).symm)
        hdistinct.names hnames (fun _ _ hf => by cases hf)
        fun name given hgiven => ih name given hgiven
          (hdistinct.member (Assoc.mem_of_lookup hgiven)) fun w hw => by
            have hown := own_of_prop hw
            rw [hbare name] at hown
            cases hown
    refine ⟨.map merged, ?_, .object hfound hd hbare ?_
      (hmnodup List.nodup_nil) hmnames hmembers⟩
    · rw [mergeValue, spread_of_bare hfound hd hbare, hmerged]
      rfl
    · rintro rfl
      obtain ⟨⟨k, v⟩, rest, rfl⟩ := List.exists_cons_of_ne_nil hne
      have hk := hall k (.inr (by rw [Assoc.lookup_cons, if_pos rfl]; rfl))
      cases hk

-- ======== what is set

theorem Survives.member {found : Found} {d : Doc}
    {members : List (String × Doc)} (h : Survives methods found (.map members))
    (hd : orEmpty found = some d) {name : String} {value : Doc}
    (hvalue : members.lookup name = some value) :
    Survives methods (prop methods d name) value := by
  cases h with
  | plain _ _ hmap => exact absurd rfl (hmap members)
  | part _ _ _ hmembers =>
    obtain rfl := Option.some.inj hd
    exact hmembers name value hvalue
  | object _ hdefaults _ _ _ _ hmembers =>
    obtain rfl := Option.some.inj (hdefaults.symm.trans hd)
    exact hmembers name value hvalue

/-- What survives still does where a member is put that does. -/
theorem Survives.put {found : Found} {d : Doc}
    {members : List (String × Doc)} (h : Survives methods found (.map members))
    (hd : orEmpty found = some d) {name : String} {value : Doc}
    (hname : name ≠ "__proto__")
    (hvalue : Survives methods (prop methods d name) value) :
    Survives methods found (.map (Assoc.put name value members)) := by
  have hput : ∀ {d' : Doc}, d' = d →
      (∀ name value, members.lookup name = some value →
        Survives methods (prop methods d' name) value) →
      ∀ name' value', (Assoc.put name value members).lookup name'
        = some value' → Survives methods (prop methods d' name') value' := by
    rintro d' rfl hmembers name' value' hvalue'
    rw [Assoc.lookup_put] at hvalue'
    split at hvalue'
    next heq =>
      obtain rfl := Option.some.inj hvalue'
      exact heq ▸ hvalue
    next => exact hmembers name' value' hvalue'
  have hnames' : (∀ name, (members.lookup name).isSome →
        name ≠ "__proto__") →
      ∀ name', ((Assoc.put name value members).lookup name').isSome →
        name' ≠ "__proto__" := by
    intro hnames name' hname'
    rw [Assoc.lookup_put] at hname'
    split at hname'
    next heq => exact heq ▸ hname
    next => exact hnames name' hname'
  cases h with
  | plain _ _ hmap => exact absurd rfl (hmap members)
  | part hnodup hall hnames hmembers =>
    refine .part (nodup_put hnodup) (fun name' hname' => ?_)
      (hnames' hnames) (hput (Option.some.inj hd) hmembers)
    rw [Assoc.lookup_put]
    split
    · rfl
    · exact hall name' hname'
  | object hfound hdefaults hbare hne hnodup hnames hmembers =>
    refine .object hfound hdefaults hbare (fun hempty => ?_)
      (nodup_put hnodup) (hnames' hnames)
      (hput (Option.some.inj (hdefaults.symm.trans hd)) hmembers)
    have hlookup := Assoc.lookup_put name name value members
    rw [hempty, if_pos rfl] at hlookup
    cases hlookup

/-- A path leads through objects of the defaults, or past them, and no name
on it is that of a prototype. -/
def leads (methods : Doc → List String) (found : Found) :
    List String → Bool
  | [] => true
  | name :: path =>
    name ≠ "__proto__" &&
      match found with
      | .missing => leads methods (prop methods (.map []) name) path
      | .value (.map defaults) =>
        leads methods (prop methods (.map defaults) name) path
      | _ => false

theorem settingPaths_lead (methods : Doc → List String) :
    settingPaths.all (leads methods (.value (.map defaultConfig)))
      = true := rfl

theorem leads_cons {found : Found} {name : String} {path : List String}
    (h : leads methods found (name :: path) = true) :
    name ≠ "__proto__"
      ∧ ∃ defaults, (found = .missing ∧ defaults = []
          ∨ found = .value (.map defaults))
        ∧ orEmpty found = some (.map defaults)
        ∧ foundAt methods found (name :: path)
          = foundAt methods (prop methods (.map defaults) name) path
        ∧ leads methods (prop methods (.map defaults) name) path = true := by
  cases found with
  | missing =>
    rw [leads, Bool.and_eq_true, decide_eq_true_eq] at h
    exact ⟨h.1, [], .inl ⟨rfl, rfl⟩, rfl, rfl, h.2⟩
  | builtin => simp [leads] at h
  | value d =>
    cases d with
    | map defaults =>
      rw [leads, Bool.and_eq_true, decide_eq_true_eq] at h
      exact ⟨h.1, defaults, .inr rfl, rfl, rfl, h.2⟩
    | _ => simp [leads] at h

/-- What a longer path sets is put under its first name, in the object that
is there or in a new one. -/
theorem setByPath_cases {value : Doc} {obj obj' : List (String × Doc)}
    {name next : String} {path : List String}
    (h : setByPath value obj (name :: next :: path) = some obj') :
    ∃ inner, obj' = Assoc.put name (.map inner) obj
      ∧ ((obj.lookup name).filter truthy = none
            ∧ setByPath value [] (next :: path) = some inner
          ∨ ∃ members, obj.lookup name = some (.map members)
            ∧ setByPath value members (next :: path) = some inner) := by
  rw [setByPath.eq_def] at h
  dsimp only at h
  split at h
  next hnone =>
    obtain ⟨inner, hinner, rfl⟩ := Option.map_eq_some_iff.mp h
    exact ⟨inner, rfl, .inl ⟨hnone, hinner⟩⟩
  next members hsome =>
    obtain ⟨inner, hinner, rfl⟩ := Option.map_eq_some_iff.mp h
    obtain ⟨hmember, -⟩ := Option.filter_eq_some_iff.mp hsome
    exact ⟨inner, rfl, .inr ⟨members, hmember, hinner⟩⟩
  next => cases h

/-- What is set under a path that was missing survives. -/
theorem survives_fresh {value : Doc} {path : List String}
    {obj : List (String × Doc)} (hpath : leads methods .missing path = true)
    (hset : setByPath value [] path = some obj)
    (hvalue : Survives methods (foundAt methods .missing path) value) :
    Survives methods .missing (.map obj) := by
  have hsingle : ∀ name value, name ≠ "__proto__" →
      Survives methods (prop methods (.map []) name) value →
      Survives methods .missing (.map [(name, value)]) := by
    intro name value hname hvalue
    refine .object (fun _ hf => by cases hf) rfl (fun _ => rfl)
      (List.cons_ne_nil _ _) (List.nodup_singleton _)
      (fun name' hname' => ?_) fun name' value' hvalue' => ?_
    · rw [Assoc.lookup_cons] at hname'
      split at hname'
      next heq => exact heq ▸ hname
      next => cases hname'
    · rw [Assoc.lookup_cons] at hvalue'
      split at hvalue'
      next heq =>
        obtain rfl := Option.some.inj hvalue'
        exact heq ▸ hvalue
      next => cases hvalue'
  induction path generalizing obj with
  | nil => cases hset
  | cons name path ih =>
    obtain ⟨hname, defaults, hdefaults, -, hfound, hleads⟩ :=
      leads_cons hpath
    obtain rfl : defaults = [] := by
      rcases hdefaults with ⟨-, rfl⟩ | hf
      · rfl
      · cases hf
    rw [hfound] at hvalue
    cases path with
    | nil =>
      obtain rfl := Option.some.inj hset
      exact hsingle name value hname hvalue
    | cons next path =>
      obtain ⟨inner, rfl, ⟨-, hinner⟩ | ⟨_, hf, -⟩⟩ :=
        setByPath_cases hset
      case inr => cases hf
      -- nothing is found below what is missing
      have hmissing : prop methods (.map []) name = .missing := by
        obtain ⟨-, _, ⟨hmissing, -⟩ | hmap, -⟩ := leads_cons hleads
        · exact hmissing
        · exact absurd hmap (prop_ne_map (fun _ => rfl) name _)
      rw [hmissing] at hleads hvalue
      refine hsingle name _ hname ?_
      rw [hmissing]
      exact ih hleads hinner hvalue

/-- A value that survives is set in what survives. -/
theorem Survives.set {value : Doc} {path : List String} {found : Found}
    {obj obj' : List (String × Doc)} (h : Survives methods found (.map obj))
    (hpath : leads methods found path = true)
    (hset : setByPath value obj path = some obj')
    (hvalue : Survives methods (foundAt methods found path) value) :
    Survives methods found (.map obj') := by
  induction path generalizing found obj obj' with
  | nil => cases hset
  | cons name path ih =>
    obtain ⟨hname, defaults, -, hd, hfound, hleads⟩ := leads_cons hpath
    rw [hfound] at hvalue
    cases path with
    | nil =>
      obtain rfl := Option.some.inj hset
      exact h.put hd hname hvalue
    | cons next path =>
      obtain ⟨inner, rfl, ⟨hnone, hinner⟩ | ⟨members, hmember, hinner⟩⟩ :=
        setByPath_cases hset
      case inr =>
        exact h.put hd hname
          (ih (h.member hd hmember) hleads hinner hvalue)
      case inl =>
        refine h.put hd hname ?_
        -- an object of the defaults is not replaced
        have hmissing : prop methods (.map defaults) name
            = .missing := by
          obtain ⟨-, ds, ⟨hmissing, -⟩ | hmap, -⟩ := leads_cons hleads
          · exact hmissing
          · have hown := own_of_prop hmap
            rw [own_map] at hown
            cases h with
            | plain _ _ hmap => exact absurd rfl (hmap obj)
            | part _ hall _ hmembers =>
              cases Option.some.inj hd
              have hsome := hall name (by rw [hown]; rfl)
              obtain ⟨x, hx⟩ := Option.isSome_iff_exists.mp hsome
              have hsurvives := hmembers name x hx
              rw [hmap] at hsurvives
              rw [hx] at hnone
              cases hsurvives with
              | plain hfound => exact absurd rfl (hfound _)
              | list hfound => exact absurd rfl (hfound _)
              | part => cases hnone
              | object hfound => exact absurd rfl (hfound _)
            | object _ hdefaults hbare =>
              cases hdefaults.symm.trans hd
              rw [← own_map, hbare name] at hown
              cases hown
        rw [hmissing] at hleads hvalue ⊢
        exact survives_fresh hleads hinner hvalue

def Found.isPart : Found → Bool
  | .value (.map _) => true
  | _ => false

theorem settingPaths_leaf {path : List String} (h : path ∈ settingPaths)
    (defaults : List (String × Doc)) :
    foundAt methods (.value (.map defaultConfig)) path
      ≠ .value (.map defaults) := by
  have hall : settingPaths.all (fun path =>
      !(foundAt methods (.value (.map defaultConfig)) path).isPart)
        = true := rfl
  have hpart := List.all_eq_true.mp hall path h
  intro heq
  rw [heq] at hpart
  cases hpart

-- ======== migration

def NoInterval (config : List (String × Doc)) : Prop :=
  (Doc.map config).at? [.key "metrics", .key "pollIntervalMs"] = none

theorem noInterval_iff {config : List (String × Doc)} :
    NoInterval config
      ↔ ∀ members, config.lookup "metrics" = some (.map members) →
          members.lookup "pollIntervalMs" = none := by
  unfold NoInterval
  rw [Doc.at?, show (Doc.map config).child (.key "metrics")
    = config.lookup "metrics" from rfl]
  cases config.lookup "metrics" with
  | none => exact iff_of_true rfl fun _ hf => by cases hf
  | some d =>
    cases d with
    | map members =>
      dsimp only
      rw [Doc.at?, show (Doc.map members).child (.key "pollIntervalMs")
        = members.lookup "pollIntervalMs" from rfl]
      cases hinterval : members.lookup "pollIntervalMs" with
      | none =>
        refine iff_of_true rfl fun members' hmembers => ?_
        cases hmembers
        exact hinterval
      | some d =>
        refine iff_of_false (fun hf => by cases hf) fun hall => ?_
        have hnone := hall members rfl
        rw [hinterval] at hnone
        cases hnone
    | _ => exact iff_of_true rfl fun _ hf => by cases hf

theorem setByPath_other {value : Doc} {path : List String}
    {obj obj' : List (String × Doc)} {name name' : String}
    (h : setByPath value obj (name :: path) = some obj')
    (hne : name' ≠ name) : obj'.lookup name' = obj.lookup name' := by
  cases path with
  | nil =>
    obtain rfl := Option.some.inj h
    rw [Assoc.lookup_put, if_neg hne]
  | cons next path =>
    obtain ⟨inner, rfl, -⟩ := setByPath_cases h
    rw [Assoc.lookup_put, if_neg hne]

theorem settingPaths_metrics {path : List String}
    (h : ("metrics" :: path) ∈ settingPaths) :
    path = ["preferredSource"] := by
  have hall : ∀ p ∈ settingPaths, p.head? = some "metrics" →
      p = ["metrics", "preferredSource"] := by decide
  exact (List.cons.inj (hall _ h rfl)).2

theorem NoInterval.set {value : Doc} {path : List String}
    {config config' : List (String × Doc)} (h : NoInterval config)
    (hpath : path ∈ settingPaths)
    (hset : setByPath value config path = some config') :
    NoInterval config' := by
  rw [noInterval_iff] at h ⊢
  intro members hmembers
  cases path with
  | nil => cases hset
  | cons name path =>
    by_cases hname : "metrics" = name
    case neg =>
      rw [setByPath_other hset hname] at hmembers
      exact h members hmembers
    case pos =>
      subst hname
      obtain rfl := settingPaths_metrics hpath
      obtain ⟨inner, rfl, hinner⟩ := setByPath_cases hset
      rw [Assoc.lookup_put, if_pos rfl] at hmembers
      cases hmembers
      rcases hinner with ⟨-, hinner⟩ | ⟨before, hbefore, hinner⟩
      · rw [setByPath_other hinner (by decide)]
        rfl
      · rw [setByPath_other hinner (by decide)]
        exact h before hbefore

theorem NoInterval.merged {source config : List (String × Doc)}
    (hnodup : (source.map Prod.fst).Nodup)
    (hsource : NoInterval source)
    (h : mergeMembers defaultConfig source = some config) :
    NoInterval config := by
  rw [noInterval_iff] at hsource ⊢
  intro members hmembers
  cases hvalue : source.lookup "metrics" with
  | none =>
    rw [mergeMembers_other h hvalue] at hmembers
    cases hmembers
    rfl
  | some value =>
    rw [mergeMembers_source hnodup h hvalue] at hmembers
    cases value with
    | map given =>
      obtain ⟨merged, hmerged, heq⟩ := Option.map_eq_some_iff.mp hmembers
      cases heq
      rw [mergeMembers_other hmerged (hsource given hvalue)]
      rfl
    | _ => cases hmembers

theorem mem_getDiff {d : Doc} {members diff : List (String × Doc)}
    (h : getDiff methods d members = some diff) {name : String} {u : Doc}
    (hu : diff.lookup name = some u) :
    ∃ value, (name, value) ∈ members
      ∧ diffValue methods (prop methods d name) value
        = some (some u) := by
  induction members generalizing diff with
  | nil =>
    obtain rfl := Option.some.inj h
    cases hu
  | cons e members ih =>
    obtain ⟨k, v⟩ := e
    rw [getDiff] at h
    obtain ⟨kept, hkept, h⟩ := Option.bind_eq_some_iff.mp h
    obtain ⟨rest, hrest, h⟩ := Option.bind_eq_some_iff.mp h
    have hold : rest.lookup name = some u → ∃ value,
        (name, value) ∈ (k, v) :: members ∧ diffValue methods
          (prop methods d name) value = some (some u) := by
      intro hu
      obtain ⟨value, hmem, hvalue⟩ := ih hrest hu
      exact ⟨value, List.mem_cons_of_mem _ hmem, hvalue⟩
    obtain rfl := Option.some.inj h
    cases kept with
    | none => exact hold hu
    | some x =>
      dsimp only at hu
      split at hu
      · exact hold hu
      · rw [Assoc.lookup_cons] at hu
        split at hu
        next heq =>
          obtain rfl := Option.some.inj hu
          subst heq
          exact ⟨v, List.mem_cons_self, hkept⟩
        next => exact hold hu

theorem diffValue_map {found : Found} {value : Doc}
    {nested : List (String × Doc)}
    (h : diffValue methods found value = some (some (.map nested))) :
    ∃ d members, value = .map members ∧ orEmpty found = some d
      ∧ getDiff methods d members = some nested := by
  cases value with
  | map members =>
    rw [diffValue] at h
    obtain ⟨d, hd, h⟩ := Option.bind_eq_some_iff.mp h
    obtain ⟨diff, hdiff, h⟩ := Option.bind_eq_some_iff.mp h
    have hkept : (if 0 < diff.length then some (Doc.map diff) else none)
        = some (.map nested) := Option.some.inj h
    split at hkept
    · cases hkept
      exact ⟨d, members, rfl, hd, hdiff⟩
    · cases hkept
  | arr items =>
    rw [diffValue] at h
    split at h
    · have hkept := Option.some.inj h
      split at hkept <;> cases hkept
    · obtain ⟨d, -, h⟩ := Option.bind_eq_some_iff.mp h
      have hkept := Option.some.inj h
      split at hkept <;> cases hkept
  | _ =>
    have hkept := Option.some.inj h
    split at hkept <;> cases hkept

theorem NoInterval.diff {config diff : List (String × Doc)}
    (h : NoInterval config) (hnodup : (config.map Prod.fst).Nodup)
    (hdiff : getDiff methods (.map defaultConfig) config = some diff) :
    NoInterval diff := by
  rw [noInterval_iff] at h ⊢
  intro nested hnested
  obtain ⟨value, hmem, hvalue⟩ := mem_getDiff hdiff hnested
  obtain ⟨d, members, rfl, -, hinner⟩ := diffValue_map hvalue
  have hnone := h members (Assoc.lookup_of_mem hnodup hmem)
  cases hinterval : nested.lookup "pollIntervalMs" with
  | none => rfl
  | some u =>
    obtain ⟨v, hv, -⟩ := mem_getDiff hinner hinterval
    obtain ⟨k, rfl⟩ : ∃ k, k = "pollIntervalMs" := ⟨_, rfl⟩
    have hsome : members.lookup "pollIntervalMs" ≠ none := by
      intro hlookup
      rw [List.lookup_eq_none_iff] at hlookup
      exact absurd (hlookup _ hv) (by simp)
    exact absurd hnone hsome

/-- Where the metrics are an object without the old interval, nothing is
migrated. -/
theorem migrateConfig_eq {config : List (String × Doc)}
    (h : NoInterval config)
    (hmetrics : ∀ d, config.lookup "metrics" = some d →
      ∃ members, d = .map members) :
    migrateConfig config = some config := by
  have hnone : (config.lookup "metrics").bind (own · "pollIntervalMs")
      = none := by
    cases hd : config.lookup "metrics" with
    | none => rfl
    | some d =>
      obtain ⟨members, rfl⟩ := hmetrics d hd
      exact noInterval_iff.mp h members hd
  unfold migrateConfig
  rw [hnone]

-- ======== no default

theorem eq_of_equal_strings {items ds : List Doc}
    (h : (Doc.arr items).Equal (.arr ds))
    (hds : ∀ d ∈ ds, ∃ value, d = .str value) : items = ds := by
  apply List.ext_getElem?
  intro i
  have hi := h [.index i]
  rw [Doc.shapeAt_cons, Doc.shapeAt_cons,
    show (Doc.arr items).child (.index i) = items[i]? from rfl,
    show (Doc.arr ds).child (.index i) = ds[i]? from rfl] at hi
  cases hd : ds[i]? with
  | none =>
    rw [hd] at hi
    cases hitem : items[i]? with
    | none => rfl
    | some item =>
      rw [hitem] at hi
      cases hi
  | some d =>
    obtain ⟨value, rfl⟩ := hds d (List.mem_of_getElem? hd)
    rw [hd] at hi
    cases hitem : items[i]? with
    | none =>
      rw [hitem] at hi
      cases hi
    | some item =>
      rw [hitem] at hi
      have hshape : item.shape = .str value := Option.some.inj hi
      cases item with
      | str value' =>
        cases hshape
        rfl
      | _ => cases hshape

/-- What is kept of a value is not its default. -/
theorem not_equal_default {value u d : Doc} (hclean : clean d = true)
    (h : diffValue methods (.value d) value = some (some u))
    (hu : ∀ members, u ≠ .map members) : ¬ u.Equal d := by
  intro hequal
  have hshape : u.shape = d.shape := Option.some.inj (hequal [])
  cases value with
  | map members =>
    rw [diffValue] at h
    obtain ⟨_, -, h⟩ := Option.bind_eq_some_iff.mp h
    obtain ⟨diff, -, h⟩ := Option.bind_eq_some_iff.mp h
    have hkept := Option.some.inj h
    split at hkept
    · exact hu diff (Option.some.inj hkept).symm
    · cases hkept
  | arr items =>
    -- the default would be the same list
    have hsame : u = .arr items → d = .arr items := by
      rintro rfl
      cases d with
      | arr ds =>
        rw [eq_of_equal_strings hequal]
        intro d hd
        rw [clean, List.all_eq_true] at hclean
        have hstr := hclean d hd
        cases d with
        | str value => exact ⟨value, rfl⟩
        | _ => cases hstr
      | _ => cases hshape
    rw [diffValue] at h
    split at h
    · have hkept := Option.some.inj h
      split at hkept
      · cases hkept
      next hne =>
        obtain rfl := hsame (Option.some.inj hkept).symm
        exact hne (sameText_refl (.arr items))
    · obtain ⟨ds, hds, h⟩ := Option.bind_eq_some_iff.mp h
      have hkept := Option.some.inj h
      split at hkept
      · cases hkept
      next hne =>
        obtain rfl := hsame (Option.some.inj hkept).symm
        obtain rfl := Option.some.inj hds
        exact hne (sameTexts_refl _)
  | _ =>
    have hkept := Option.some.inj h
    split at hkept
    · cases hkept
    next hne =>
      obtain rfl := (Option.some.inj hkept).symm
      refine hne ?_
      cases d <;> cases hshape
      exact sameText_refl _

/-- No diff holds a default. -/
theorem no_default {path : List String} {ds members diff : List (String × Doc)}
    {value default : Doc} (hclean : clean (.map ds) = true)
    (hdiff : getDiff methods (.map ds) members = some diff)
    (hvalue : (Doc.map diff).at? (path.map .key) = some value)
    (hmap : ∀ members, value ≠ .map members)
    (hdefault : (Doc.map ds).at? (path.map .key) = some default) :
    ¬ value.Equal default := by
  induction path generalizing ds members diff with
  | nil =>
    cases hvalue
    exact absurd rfl (hmap diff)
  | cons name path ih =>
    rw [List.map_cons, Doc.at?, show (Doc.map diff).child (.key name)
      = diff.lookup name from rfl] at hvalue
    rw [List.map_cons, Doc.at?, show (Doc.map ds).child (.key name)
      = ds.lookup name from rfl] at hdefault
    cases hu : diff.lookup name with
    | none =>
      rw [hu] at hvalue
      cases hvalue
    | some u =>
      cases hw : ds.lookup name with
      | none =>
        rw [hw] at hdefault
        cases hdefault
      | some w =>
        rw [hu] at hvalue
        rw [hw] at hdefault
        dsimp only at hvalue hdefault
        obtain ⟨current, -, hkept⟩ := mem_getDiff hdiff hu
        rw [prop_map hw] at hkept
        have hwclean := ((clean_map hclean).2 name w hw).2
        cases path with
        | nil =>
          cases hvalue
          cases hdefault
          exact not_equal_default hwclean hkept hmap
        | cons next path =>
          cases u with
          | map nested =>
            obtain ⟨d, inner, rfl, hd, hinner⟩ :=
              diffValue_map hkept
            cases w with
            | map ds' =>
              obtain rfl := Option.some.inj hd
              exact ih hwclean hinner hvalue hdefault
            | _ => cases hdefault
          | _ => cases hvalue

-- ======== runs

/-- A configuration that survives, with what was stored of it. -/
structure Inv (methods : Doc → List String) (s : State) : Prop where
  survives : Survives methods (.value (.map defaultConfig)) (.map s.config)
  noInterval : NoInterval s.config
  stored : ∃ diff, getDiff methods (.map defaultConfig) s.config = some diff
    ∧ s.stored = if 0 < diff.length then some diff else none

theorem diff_of_survives {config : List (String × Doc)}
    (h : Survives methods (.value (.map defaultConfig)) (.map config)) :
    ∃ diff, getDiff methods (.map defaultConfig) config = some diff
      ∧ (diff = [] → (Doc.map defaultConfig).Equal (.map config))
      ∧ (diff ≠ [] → ∃ merged, mergeMembers defaultConfig diff = some merged
        ∧ (Doc.map merged).Equal (.map config)) := by
  obtain ⟨kept, hround⟩ := h.round
  have hwhole := hround.diff
  rw [diffValue] at hwhole
  obtain ⟨d, hd, hwhole⟩ := Option.bind_eq_some_iff.mp hwhole
  obtain ⟨diff, hdiff, hkept⟩ := Option.bind_eq_some_iff.mp hwhole
  obtain rfl : Doc.map defaultConfig = d := Option.some.inj hd
  obtain rfl := Option.some.inj hkept
  refine ⟨diff, hdiff, fun hempty => ?_, fun hne => ?_⟩
  · subst hempty
    obtain ⟨d, hd, hequal⟩ := hround.unstored rfl
    cases hd
    exact hequal
  · obtain ⟨r, hr, hequal⟩ := hround.stored (.map diff)
      (if_pos (List.length_pos_iff.mpr hne))
    obtain ⟨merged, hmerged, rfl⟩ := Option.map_eq_some_iff.mp hr
    exact ⟨merged, hmerged, hequal⟩

theorem inv_persist {config : List (String × Doc)}
    {stored : Option (List (String × Doc))}
    (h : Survives methods (.value (.map defaultConfig)) (.map config))
    (hinterval : NoInterval config) :
    Inv methods ⟨config, persist methods config stored⟩ := by
  obtain ⟨diff, hdiff, -⟩ := diff_of_survives h
  refine ⟨h, hinterval, diff, hdiff, ?_⟩
  show persist methods config stored = _
  unfold persist
  rw [hdiff]

theorem Inv.right {s : State} (h : Inv methods s) : Right methods s := by
  obtain ⟨diff, hdiff, hempty, hmerge⟩ := diff_of_survives h.survives
  obtain ⟨diff', hdiff', hstored⟩ := h.stored
  rw [hdiff] at hdiff'
  obtain rfl := Option.some.inj hdiff'
  refine ⟨?_, diff, hdiff, fun path value default hvalue hmap hdefault =>
    no_default defaultConfig_clean hdiff hvalue hmap hdefault⟩
  by_cases hnil : diff = []
  case pos =>
    rw [hstored, hnil]
    exact hempty hnil
  case neg =>
    obtain ⟨merged, hmerged, hequal⟩ := hmerge hnil
    rw [hstored, if_pos (List.length_pos_iff.mpr hnil)]
    have hnodup : (s.config.map Prod.fst).Nodup := by
      cases h.survives with
      | plain _ _ hmap => exact absurd rfl (hmap s.config)
      | part hnodup => exact hnodup
      | object hfound => exact absurd rfl (hfound _)
    have hmigrate : migrateConfig diff = some diff := by
      refine migrateConfig_eq (h.noInterval.diff hnodup hdiff) ?_
      intro d hd
      obtain ⟨value, hmem, hkept⟩ := mem_getDiff hdiff hd
      have hsurvives := h.survives.member
        (show orEmpty (.value (.map defaultConfig))
          = some (.map defaultConfig) from rfl)
        (Assoc.lookup_of_mem hnodup hmem)
      rw [prop_map (show defaultConfig.lookup "metrics"
        = some (.map [("preferredSource", .str "auto")]) from rfl)]
        at hsurvives hkept
      cases hsurvives with
      | plain hfound => exact absurd rfl (hfound _)
      | list hfound => exact absurd rfl (hfound _)
      | object hfound => exact absurd rfl (hfound _)
      | part =>
        rw [diffValue] at hkept
        obtain ⟨_, -, hkept⟩ := Option.bind_eq_some_iff.mp hkept
        obtain ⟨nested, -, hkept⟩ := Option.bind_eq_some_iff.mp hkept
        have hif := Option.some.inj hkept
        split at hif
        · exact ⟨nested, (Option.some.inj hif).symm⟩
        · cases hif
    unfold load
    dsimp only
    rw [hmigrate, Option.bind_some, hmerged]
    exact hequal

theorem default_survives :
    Survives methods (.value (.map defaultConfig)) (.map defaultConfig) :=
  survives_default _ defaultConfig_clean

theorem default_noInterval : NoInterval defaultConfig := rfl

theorem inv_step {a : Act} {s s' : State} {o : List Empty}
    (h : Inv methods s) (hcare : Careful methods s a)
    (hs : settings methods a s = some (s', o)) : Inv methods s' := by
  obtain ⟨config, hnext, heq⟩ := Option.map_eq_some_iff.mp hs
  cases heq
  cases a with
  | setConfig path value hdistinct =>
    have hset : (if settingPaths.contains path then
        setByPath value s.config path else none) = some config := hnext
    split at hset
    case isFalse => cases hset
    case isTrue hpath =>
      have hmem := List.contains_iff_mem.mp hpath
      have hleads :=
        List.all_eq_true.mp (settingPaths_lead methods) path hmem
      exact inv_persist (h.survives.set hleads hset
          (Fits.survives hcare (settingPaths_leaf hmem) hdistinct))
        (h.noInterval.set hmem hset)
  | updateConfig newConfig =>
    obtain ⟨hfits, hinterval⟩ := hcare
    obtain ⟨r, hr, hsurvives⟩ := hfits.merged newConfig.distinct
      fun d hd => by
        cases hd
        exact defaultConfig_clean
    have hmerge : mergeMembers defaultConfig newConfig.members
        = some config := hnext
    have hr' : (mergeMembers defaultConfig newConfig.members).map Doc.map
        = some r := hr
    rw [hmerge] at hr'
    obtain rfl := Option.some.inj hr'
    exact inv_persist hsurvives
      (NoInterval.merged newConfig.distinct.names hinterval hmerge)
  | resetConfig =>
    obtain rfl := Option.some.inj hnext
    exact inv_persist default_survives default_noInterval

theorem getDiff_default :
    getDiff methods (.map defaultConfig) defaultConfig = some [] := rfl

theorem start_inv : Inv methods start :=
  ⟨default_survives, default_noInterval, [], getDiff_default, rfl⟩

/-- In every run, whatever its calls bring, what is stored is not empty and
holds no default. -/
theorem stored_minimal (methods : Doc → List String) (acts : List Act) :
    Machine.Visits (settings methods)
      (fun s => ∀ diff, s.stored = some diff → diff ≠ [] ∧ NoDefault diff)
      start acts := by
  refine Machine.visits_of_invariant ?_ (fun h => h) (fun _ h => by cases h)
    Machine.along_true
  intro a s s' o h _ hs
  obtain ⟨config, -, heq⟩ := Option.map_eq_some_iff.mp hs
  cases heq
  intro diff hstored
  have hpersist : persist methods config s.stored = some diff := hstored
  unfold persist at hpersist
  split at hpersist
  · exact h diff hpersist
  next found hfound =>
    split at hpersist
    next hpos =>
      obtain rfl := Option.some.inj hpersist
      exact ⟨List.length_pos_iff.mp hpos, fun path value default =>
        no_default defaultConfig_clean hfound⟩
    next => cases hpersist

end Settings
