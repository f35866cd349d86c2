/-
Patches that set one field of an object (`SetField` in
resourceactions/helpers.go).

# The argument

Seen from a value on the path, what is left to do is to make it a map if
there is none, and to go on below (`below`). So everything is by recursion
on the path. Where it comes to what is no map, the next operation fails
(`adds_eq_none_iff`), unless this is an array and the next field an index of
it: then the operation inserts an item.
-/
import Kubikles.Lib.View

namespace SetField

open Doc (Operation Place Step pointer arrayIndex patch)

-- ======== the code

/-- The loop of `SetField` over the fields behind a path. -/
def operations (obj value : Doc) (path : List String) :
    List String → List Operation
  | [] => []
  | [field] => [{ op := "add", path := pointer (path ++ [field]), value }]
  | field :: fields =>
    (match obj.nested? (path ++ [field]) with
      | none | some .null =>
        [{ op := "add", path := pointer (path ++ [field])
           value := .map [] }]
      | some _ => [])
      ++ operations obj value (path ++ [field]) fields

def setField (obj value : Doc) (fields : List String) : List Operation :=
  operations obj value [] fields

-- ======== the purpose

/-- Something on the path before the last field is neither null nor a
map. -/
def Blocked (obj : Doc) (fields : List String) : Prop :=
  ∃ path v, path <+: fields ∧ path ≠ fields ∧ obj.nested? path = some v
    ∧ v ≠ .null ∧ ∀ members, v ≠ .map members

/-- An object is another one, but for the value at the path. What is on the
way to it is a map. -/
structure OnlyFieldSet (obj obj' value : Doc) (fields : List String) :
    Prop where
  value : ∀ place,
    obj'.shapeAt (fields.map .key ++ place) = value.shapeAt place
  parents : ∀ path, path <+: fields → path ≠ fields →
    obj'.shapeAt (path.map .key) = some .map
  others : ∀ place : Place, (∀ path, path <+: fields →
      place ≠ path.map .key) → ¬fields.map .key <+: place →
    obj'.shapeAt place = obj.shapeAt place

/-- The patch sets the field, or fails as a whole, and that only because of
what is on the path. -/
structure Right (obj value : Doc) (fields : List String) : Prop where
  fails : patch (setField obj value fields) obj = none
    ↔ Blocked obj fields
  sets : ∀ obj', patch (setField obj value fields) obj = some obj' →
    OnlyFieldSet obj obj' value fields

/-- An array is on the path, and the next field is an index of it, or the
last field is what stands for its end. -/
def Indexed (obj : Doc) (fields : List String) : Prop :=
  ∃ path items field rest, fields = path ++ field :: rest
    ∧ obj.nested? path = some (.arr items)
    ∧ ((∃ i, arrayIndex field = some i ∧ i ≤ items.length)
      ∨ field = "-" ∧ rest = [])

-- ======== from one value

/-- Adding values at paths, one after the other. -/
def adds : List (List String × Doc) → Option Doc → Option Doc
  | [], o => o
  | (path, v) :: l, o => (Doc.add v path o).bind fun d => adds l (some d)

/-- What is below a value, if there is one. -/
def under (o : Option Doc) (field : String) : Option Doc :=
  match o with
  | some (.map members) => members.lookup field
  | _ => none

/-- What has to be a map is made one if it is not there. -/
def makeMap : Option Doc → List (List String × Doc)
  | none | some .null => [([], .map [])]
  | some _ => []

/-- A value that is added one field further down. -/
def down (field : String) (e : List String × Doc) : List String × Doc :=
  (field :: e.1, e.2)

/-- What is to be added from a value on, of which the rest of the path is
given. -/
def below (value : Doc) : Option Doc → List String →
    List (List String × Doc)
  | _, [] => [([], value)]
  | o, field :: fields =>
    makeMap o ++ (below value (under o field) fields).map (down field)

variable {obj value d d' : Doc} {o : Option Doc} {field : String}
variable {fields path : List String} {members : List (String × Doc)}
variable {items : List Doc} {l : List (List String × Doc)}

theorem nested?_map (members : List (String × Doc)) (field : String)
    (path : List String) :
    (Doc.map members).nested? (field :: path)
      = (members.lookup field).bind fun d => d.nested? path := by
  unfold Doc.nested?
  rw [Doc.nestedField]
  cases members.lookup field <;> rfl

theorem nested?_append (d : Doc) (path : List String) (field : String) :
    d.nested? (path ++ [field]) = under (d.nested? path) field := by
  induction path generalizing d with
  | nil =>
    cases d with
    | map members =>
      rw [List.nil_append, nested?_map]
      show (members.lookup field).bind some = members.lookup field
      cases members.lookup field <;> rfl
    | _ => rfl
  | cons first path ih =>
    cases d with
    | map members =>
      rw [List.cons_append, nested?_map, nested?_map]
      cases members.lookup first with
      | none => rfl
      | some d => exact ih d
    | _ => rfl

theorem operations_eq (obj value : Doc) (path : List String)
    (field : String) (fields : List String) :
    operations obj value path (field :: fields)
      = (below value (under (obj.nested? path) field) fields).map
          fun e => { op := "add", path := pointer (path ++ field :: e.1)
                     value := e.2 } := by
  induction fields generalizing path field with
  | nil => rfl
  | cons next fields ih =>
    show _ = (makeMap (under (obj.nested? path) field) ++ _).map _
    rw [operations, ih, List.map_append, List.map_map, nested?_append]
    · congr 1
      · cases under (obj.nested? path) field with
        | none => rfl
        | some v => cases v <;> rfl
      · apply List.map_congr_left
        intro e _
        simp [down]
    · exact List.cons_ne_nil _ _

theorem patch_adds (l : List (List String × Doc)) (d : Doc) :
    patch (l.map fun e =>
        { op := "add", path := pointer e.1, value := e.2 }) d
      = adds l (some d) := by
  induction l generalizing d with
  | nil => rfl
  | cons e l ih =>
    obtain ⟨path, v⟩ := e
    rw [List.map_cons, patch, Doc.apply_add, adds]
    cases Doc.add v path (some d) with
    | none => rfl
    | some d' => exact ih d'

theorem patch_setField (obj value : Doc) (field : String)
    (fields : List String) :
    patch (setField obj value (field :: fields)) obj
      = adds ((below value (under (some obj) field) fields).map
          (down field)) (some obj) := by
  unfold setField
  rw [operations_eq, ← patch_adds, List.map_map]
  rfl

-- ======== the recursion

def readAt (o : Option Doc) (path : List String) : Option Doc :=
  o.bind fun d => d.nested? path

theorem readAt_nil (o : Option Doc) : readAt o [] = o := by
  cases o <;> rfl

theorem readAt_cons (o : Option Doc) (field : String) (path : List String) :
    readAt o (field :: path) = readAt (under o field) path := by
  match o with
  | some (.map members) => exact nested?_map members field path
  | none | some .null | some (.bool _) | some (.num _) | some (.str _)
  | some (.arr _) => rfl

/-- `Blocked`, from a value on. -/
def BlockedAt (o : Option Doc) (fields : List String) : Prop :=
  ∃ path v, path <+: fields ∧ path ≠ fields ∧ readAt o path = some v
    ∧ v ≠ .null ∧ ∀ members, v ≠ .map members

def Takes (items : List Doc) (field : String) (rest : List String) : Prop :=
  (∃ i, arrayIndex field = some i ∧ i ≤ items.length)
    ∨ field = "-" ∧ rest = []

/-- `Indexed`, from a value on. -/
def IndexedAt (o : Option Doc) (fields : List String) : Prop :=
  ∃ path items field rest, fields = path ++ field :: rest
    ∧ readAt o path = some (.arr items) ∧ Takes items field rest

theorem not_blockedAt_nil (o : Option Doc) : ¬BlockedAt o [] := by
  rintro ⟨path, v, hprefix, hne, -⟩
  exact hne (List.prefix_nil.mp hprefix)

theorem blockedAt_cons :
    BlockedAt o (field :: fields)
      ↔ (∃ v, o = some v ∧ v ≠ .null ∧ ∀ members, v ≠ .map members)
        ∨ BlockedAt (under o field) fields := by
  constructor
  · rintro ⟨path, v, hprefix, hne, hread, hv⟩
    cases path with
    | nil =>
      rw [readAt_nil] at hread
      exact .inl ⟨v, hread, hv⟩
    | cons first path =>
      obtain ⟨rfl, hrest⟩ := List.cons_prefix_cons.mp hprefix
      rw [readAt_cons] at hread
      exact .inr ⟨path, v, hrest, fun h => hne (h ▸ rfl), hread, hv⟩
  · rintro (⟨v, hread, hv⟩ | ⟨path, v, hprefix, hne, hread, hv⟩)
    · exact ⟨[], v, List.nil_prefix, nofun, (readAt_nil o).trans hread, hv⟩
    · refine ⟨field :: path, v, List.cons_prefix_cons.mpr ⟨rfl, hprefix⟩,
        fun h => hne (List.cons.inj h).2, ?_, hv⟩
      rw [readAt_cons]
      exact hread

theorem indexedAt_cons :
    IndexedAt o (field :: fields)
      ↔ (∃ items, o = some (.arr items) ∧ Takes items field fields)
        ∨ IndexedAt (under o field) fields := by
  constructor
  · rintro ⟨path, items, field', rest, hfields, hread, htakes⟩
    cases path with
    | nil =>
      obtain ⟨rfl, rfl⟩ := List.cons.inj hfields
      rw [readAt_nil] at hread
      exact .inl ⟨items, hread, htakes⟩
    | cons first path =>
      obtain ⟨rfl, hrest⟩ := List.cons.inj hfields
      rw [readAt_cons] at hread
      exact .inr ⟨path, items, field', rest, hrest, hread, htakes⟩
  · rintro (⟨items, hread, htakes⟩ | ⟨path, items, field', rest, hfields,
      hread, htakes⟩)
    · exact ⟨[], items, field, fields, rfl, (readAt_nil o).trans hread,
        htakes⟩
    · refine ⟨field :: path, items, field', rest, by rw [hfields]; rfl, ?_,
        htakes⟩
      rw [readAt_cons]
      exact hread

theorem not_blockedAt_none (fields : List String) :
    ¬BlockedAt none fields := by
  rintro ⟨path, v, -, -, hread, -⟩
  cases hread

theorem not_indexedAt_none (fields : List String) :
    ¬IndexedAt none fields := by
  rintro ⟨path, items, field, rest, -, hread, -⟩
  cases hread

-- ======== the adds

theorem adds_map (hl : l ≠ []) (field : String)
    (members : List (String × Doc)) :
    adds (l.map (down field)) (some (.map members))
      = (adds l (members.lookup field)).map fun d =>
          .map (Assoc.put field d members) := by
  induction l generalizing members with
  | nil => exact absurd rfl hl
  | cons e l ih =>
    obtain ⟨path, v⟩ := e
    show (Doc.add v (field :: path) (some (.map members))).bind _
      = Option.map _ ((Doc.add v path (members.lookup field)).bind _)
    rw [Doc.add]
    cases Doc.add v path (members.lookup field) with
    | none => rfl
    | some d =>
      show adds _ (some (.map (Assoc.put field d members))) = _
      cases l with
      | nil => rfl
      | cons e l =>
        rw [ih (List.cons_ne_nil e l), Assoc.lookup_put, if_pos rfl]
        simp only [Assoc.put_put]
        rfl

theorem adds_item {i : Nat} (hindex : arrayIndex field = some i)
    (hitem : items[i]? = some d) (hl : ∀ e ∈ l, e.1 ≠ []) :
    (adds (l.map (down field)) (some (.arr items))).isSome
      = (adds l (some d)).isSome := by
  induction l generalizing items d with
  | nil => rfl
  | cons e l ih =>
    obtain ⟨path, v⟩ := e
    obtain ⟨token, path, rfl⟩ :=
      List.exists_cons_of_ne_nil (hl _ List.mem_cons_self)
    show ((Doc.add v (field :: token :: path) (some (.arr items))).bind
      _).isSome = ((Doc.add v (token :: path) (some d)).bind _).isSome
    have hadd : Doc.add v (field :: token :: path) (some (.arr items))
        = (Doc.add v (token :: path) (some d)).map fun d =>
          .arr (items.set i d) := by
      rw [Doc.add]
      · simp only [hindex, hitem]
      · intro hnil
        cases hnil
    rw [hadd]
    cases Doc.add v (token :: path) (some d) with
    | none => rfl
    | some d' =>
      apply ih
      · rw [List.getElem?_set_self]
        exact (List.getElem?_eq_some_iff.mp hitem).1
      · exact fun e he => hl e (List.mem_cons_of_mem _ he)

theorem adds_scalar (hl : l ≠ []) (field : String)
    (hmap : ∀ members, d ≠ .map members) (harr : ∀ items, d ≠ .arr items) :
    adds (l.map (down field)) (some d) = none := by
  obtain ⟨⟨path, v⟩, l, rfl⟩ := List.exists_cons_of_ne_nil hl
  have hadd : Doc.add v (field :: path) (some d) = none := by
    cases d with
    | map members => exact absurd rfl (hmap members)
    | arr items => exact absurd rfl (harr items)
    | _ => rfl
  show (Doc.add v (field :: path) (some d)).bind _ = none
  rw [hadd]
  rfl

theorem below_ne_nil (value : Doc) (o : Option Doc) (fields : List String) :
    below value o fields ≠ [] := by
  induction fields generalizing o with
  | nil => exact List.cons_ne_nil _ _
  | cons field fields ih =>
    intro h
    exact ih _ (List.map_eq_nil_iff.mp (List.append_eq_nil_iff.mp h).2)

theorem adds_below_none (value : Doc) (fields : List String) :
    (adds (below value none fields) none).isSome = true := by
  induction fields with
  | nil => rfl
  | cons field fields ih =>
    show (adds ((below value none fields).map (down field))
      (some (.map []))).isSome = true
    rw [adds_map (below_ne_nil value none fields), Option.isSome_map]
    exact ih

theorem add_arr (v : Doc) (field : String) (items : List Doc) :
    (∃ i, arrayIndex field = some i ∧ i ≤ items.length
        ∧ Doc.add v [field] (some (.arr items))
          = some (.arr (items.insertIdx i v)))
      ∨ field = "-" ∧ Doc.add v [field] (some (.arr items))
          = some (.arr (items ++ [v]))
      ∨ ¬Takes items field [] ∧ Doc.add v [field] (some (.arr items))
          = none := by
  unfold Takes
  by_cases hend : field = "-"
  · subst hend
    exact .inr (.inl ⟨rfl, rfl⟩)
  · rw [Doc.add, if_neg hend]
    cases hindex : arrayIndex field with
    | none => exact .inr (.inr ⟨by simp [hend], rfl⟩)
    | some i =>
      by_cases hlt : i ≤ items.length
      · exact .inl ⟨i, rfl, hlt, if_pos hlt⟩
      · exact .inr (.inr ⟨by simp [hend, Nat.lt_of_not_le hlt],
          if_neg hlt⟩)

/-- An array takes what is to be added below it, or does not. -/
theorem adds_arr (value : Doc) (field : String) (fields : List String)
    (items : List Doc) :
    (adds ((below value none fields).map (down field))
      (some (.arr items))).isSome = true ↔ Takes items field fields := by
  cases fields with
  | nil =>
    show ((Doc.add value [field] (some (.arr items))).bind
      fun d => some d).isSome = true ↔ _
    rw [Option.bind_fun_some]
    obtain ⟨i, hindex, hle, hadd⟩ | ⟨hend, hadd⟩ | ⟨hnot, hadd⟩ :=
      add_arr value field items
    · rw [hadd]
      exact iff_of_true rfl (.inl ⟨i, hindex, hle⟩)
    · rw [hadd]
      exact iff_of_true rfl (.inr ⟨hend, rfl⟩)
    · rw [hadd]
      exact iff_of_false nofun hnot
  | cons next fields =>
    let l := (below value none fields).map (down next)
    have hl : ∀ e ∈ l, e.1 ≠ [] := by
      intro e he
      obtain ⟨e', -, rfl⟩ := List.mem_map.mp he
      exact List.cons_ne_nil _ _
    show ((Doc.add (.map []) [field] (some (.arr items))).bind
      fun d => adds (l.map (down field)) (some d)).isSome = true ↔ _
    obtain ⟨i, hindex, hle, hadd⟩ | ⟨hend, hadd⟩ | ⟨hnot, hadd⟩ :=
      add_arr (.map []) field items
    · rw [hadd]
      show (adds _ (some (.arr _))).isSome = true ↔ _
      rw [adds_item hindex (List.getElem?_insertIdx_self.trans
        (if_pos hle)) hl, adds_map (below_ne_nil value none fields),
        Option.isSome_map]
      exact iff_of_true (adds_below_none value fields)
        (.inl ⟨i, hindex, hle⟩)
    · rw [hadd]
      subst hend
      obtain ⟨e, rest, hrest⟩ := List.exists_cons_of_ne_nil
        (below_ne_nil value none fields)
      show (adds (((below value none fields).map _).map _) _).isSome
        = true ↔ _
      rw [hrest]
      refine iff_of_false nofun ?_
      rintro (⟨i, hindex, -⟩ | ⟨-, hnil⟩)
      · cases hindex
      · cases hnil
    · rw [hadd]
      refine iff_of_false nofun ?_
      rintro (htakes | ⟨-, hnil⟩)
      · exact hnot (.inl htakes)
      · cases hnil

/-- What is to be added cannot be added exactly if something is in the way,
and that does not take it. -/
theorem adds_isSome_iff (value : Doc) (o : Option Doc)
    (fields : List String) :
    (adds (below value o fields) o).isSome = true
      ↔ ¬BlockedAt o fields ∨ IndexedAt o fields := by
  induction fields generalizing o with
  | nil => exact iff_of_true rfl (.inl (not_blockedAt_nil o))
  | cons field fields ih =>
    rw [blockedAt_cons, indexedAt_cons]
    match o with
    | none =>
      refine iff_of_true (adds_below_none value _) (.inl ?_)
      rintro (⟨v, hv, -⟩ | hblocked)
      · cases hv
      · exact not_blockedAt_none fields hblocked
    | some .null =>
      refine iff_of_true (adds_below_none value (field :: fields))
        (.inl ?_)
      rintro (⟨v, hv, hnull, -⟩ | hblocked)
      · exact hnull (Option.some.inj hv).symm
      · exact not_blockedAt_none fields hblocked
    | some (.map members) =>
      show (adds ((below value (members.lookup field) fields).map
        (down field)) _).isSome = true ↔ _
      rw [adds_map (below_ne_nil value _ fields), Option.isSome_map]
      simpa [under] using ih (members.lookup field)
    | some (.bool _) | some (.num _) | some (.str _) =>
      refine iff_of_false ?_ ?_
      · show ¬(adds ((below value none fields).map
          (down field)) _).isSome = true
        rw [adds_scalar (below_ne_nil value none fields) field
          (fun _ h => by cases h) (fun _ h => by cases h)]
        nofun
      · rintro (hfree | ⟨_, h, -⟩ | hindexed)
        · exact hfree (.inl ⟨_, rfl, nofun, nofun⟩)
        · cases h
        · exact not_indexedAt_none fields hindexed
    | some (.arr items) =>
      show (adds ((below value none fields).map (down field))
        (some (.arr items))).isSome = true ↔ _
      rw [adds_arr]
      constructor
      · exact fun h => .inr (.inl ⟨items, rfl, h⟩)
      · rintro (hfree | ⟨_, h, htakes⟩ | hindexed)
        · exact absurd (.inl ⟨_, rfl, nofun, nofun⟩) hfree
        · cases h
          exact htakes
        · exact absurd hindexed (not_indexedAt_none fields)

-- ======== the outcome

def shapeFrom (o : Option Doc) (place : Place) : Option Doc.Shape :=
  o.bind fun d => d.shapeAt place

theorem shapeFrom_cons (harr : ∀ items, o ≠ some (.arr items)) (step : Step)
    (place : Place) :
    shapeFrom o (step :: place)
      = match step with
        | .key field => shapeFrom (under o field) place
        | .index _ => none := by
  match o, step with
  | some (.map members), .key field =>
    show (Doc.map members).shapeAt _ = _
    rw [Doc.shapeAt_cons]
    rfl
  | some (.arr items), _ => exact absurd rfl (harr items)
  | none, .key _ | none, .index _ | some .null, .key _
  | some .null, .index _ | some (.bool _), .key _ | some (.bool _), .index _
  | some (.num _), .key _ | some (.num _), .index _ | some (.str _), .key _
  | some (.str _), .index _ | some (.map _), .index _ => rfl

/-- `OnlyFieldSet`, from a value on. -/
structure SetFrom (o : Option Doc) (d' value : Doc) (fields : List String) :
    Prop where
  value : ∀ place,
    d'.shapeAt (fields.map .key ++ place) = value.shapeAt place
  parents : ∀ path, path <+: fields → path ≠ fields →
    d'.shapeAt (path.map .key) = some .map
  others : ∀ place : Place, (∀ path, path <+: fields →
      place ≠ path.map .key) → ¬fields.map .key <+: place →
    d'.shapeAt place = shapeFrom o place

/-- Where a member was set, it was set below the map that it is in. -/
theorem SetFrom.map (h : SetFrom (under o field) d value fields)
    (hfound : ∀ k, under o k = members.lookup k)
    (harr : ∀ items, o ≠ some (.arr items)) :
    SetFrom o (.map (Assoc.put field d members)) value
      (field :: fields) := by
  have hself : (Assoc.put field d members).lookup field = some d := by
    rw [Assoc.lookup_put, if_pos rfl]
  constructor
  case value =>
    intro place
    rw [List.map_cons, List.cons_append, Doc.shapeAt_cons]
    show ((Assoc.put field d members).lookup field).bind _ = _
    rw [hself]
    exact h.value place
  case parents =>
    intro path hprefix hne
    cases path with
    | nil => rfl
    | cons first path =>
      obtain ⟨rfl, hrest⟩ := List.cons_prefix_cons.mp hprefix
      rw [List.map_cons, Doc.shapeAt_cons]
      show ((Assoc.put first d members).lookup first).bind _ = _
      rw [hself]
      exact h.parents path hrest fun heq => hne (heq ▸ rfl)
  case others =>
    intro place hpath hbelow
    cases place with
    | nil => exact absurd rfl (hpath [] List.nil_prefix)
    | cons step place =>
      rw [shapeFrom_cons harr, Doc.shapeAt_cons]
      cases step with
      | index i => rfl
      | key k =>
        show ((Assoc.put field d members).lookup k).bind _ = _
        by_cases hk : k = field
        · subst hk
          rw [hself]
          refine h.others place (fun path hprefix heq => ?_)
            fun hprefix => ?_
          · exact hpath (k :: path)
              (List.cons_prefix_cons.mpr ⟨rfl, hprefix⟩)
              (by rw [heq]; rfl)
          · exact hbelow (List.cons_prefix_cons.mpr ⟨rfl, hprefix⟩)
        · rw [Assoc.lookup_put, if_neg hk, ← hfound]
          rfl

theorem setFrom_of_adds (value : Doc) (o : Option Doc)
    (fields : List String) (hfree : ¬BlockedAt o fields) {d' : Doc}
    (hadds : adds (below value o fields) o = some d') :
    SetFrom o d' value fields := by
  induction fields generalizing o d' with
  | nil =>
    obtain rfl := Option.some.inj hadds
    constructor
    case value => exact fun place => rfl
    case parents =>
      exact fun path hprefix hne =>
        absurd (List.prefix_nil.mp hprefix) hne
    case others =>
      exact fun place _ hbelow => absurd List.nil_prefix hbelow
  | cons field fields ih =>
    rw [blockedAt_cons, not_or] at hfree
    have hmade : ∀ {members : List (String × Doc)},
        (∀ k, under o k = members.lookup k) →
        (∀ items, o ≠ some (.arr items)) →
        adds ((below value (under o field) fields).map (down field))
          (some (.map members)) = some d' →
        SetFrom o d' value (field :: fields) := by
      intro members hfound harr h
      rw [adds_map (below_ne_nil value _ fields), ← hfound] at h
      obtain ⟨d, hd, rfl⟩ := Option.map_eq_some_iff.mp h
      exact (ih _ hfree.2 hd).map hfound harr
    match o with
    | none => exact hmade (fun _ => rfl) nofun hadds
    | some .null => exact hmade (fun _ => rfl) nofun hadds
    | some (.map members) => exact hmade (fun _ => rfl) nofun hadds
    | some (.bool _) | some (.num _) | some (.str _) | some (.arr _) =>
      exact absurd ⟨_, rfl, nofun, nofun⟩ hfree.1

def listed : List (String × Doc) := [("spec", .arr [.str "a", .str "b"])]

end SetField
