/-
What the structured changes of two objects are worth.

The comparison visits the steps that go down in one object or the other
(`compareValues_steps`), and so comes upon each place where the two part
company once. There it compares what they display, so a place is reported
if the difference can be seen (`Visible`), and it is not if a string reads
like the other value (`Masked`). The objects are the same exactly if there
is no place of either kind (`equal_iff`). A reported place is given by a
text that runs its keys together, and two places may have the same.
-/
import Kubikles.Diff.Resources
import Mathlib.Data.List.Nodup
import Mathlib.Data.List.Perm.Basic

namespace Diff

open Doc (Place Shape Step)

variable {v w v' w' : Doc} {p : Place}

-- ======== places

def stepPath (path : String) : Step → String
  | .key k => keyPath path k
  | .index i => elemPath path i

def pathText (place : Place) : String := place.foldl stepPath ""

def sameKind : Doc → Doc → Bool
  | .map _, .map _ => true
  | .arr _, .arr _ => true
  | _, _ => false

/-- The values part company at a place, and it can be seen. -/
def Visible : Doc → Doc → Place → Prop
  | v, w, [] => sameKind v w = false ∧ formatValue v ≠ formatValue w
  | v, w, step :: place =>
    sameKind v w = true
      ∧ match v.child step, w.child step with
        | some v', some w' => Visible v' w' place
        | none, none => False
        | _, _ => place = []

def ReadsLike (v w : Doc) : Prop :=
  v = .str (formatValue w) ∧ ∀ text, w ≠ .str text

/-- The values part company at a place, and it cannot be seen. -/
def Masked : Doc → Doc → Place → Prop
  | v, w, [] => ReadsLike v w ∨ ReadsLike w v
  | v, w, step :: place =>
    match v.child step, w.child step with
    | some v', some w' => Masked v' w' place
    | _, _ => False

def report (v w : Doc) (place : Place) (path : String) : DiffChange :=
  match (v.at? place).map formatValue, (w.at? place).map formatValue with
  | some old, some new => { type := "changed", path, old, new }
  | some old, none => { type := "removed", path, old }
  | none, some new => { type := "added", path, new }
  | none, none => { type := "", path }

-- ======== steps

/-- The steps that the comparison of two values visits. -/
def steps : Doc → Doc → List Step
  | .map source, .map target =>
    source.map (fun e => .key e.1)
      ++ (target.filter fun e => (source.lookup e.1).isNone).map
        fun e => .key e.1
  | .arr source, .arr target =>
    (List.range (max source.length target.length)).map .index
  | _, _ => []

def stepChanges (v w : Doc) (path : String) (step : Step) :
    List DiffChange :=
  match v.child step, w.child step with
  | some v', some w' => compareValues v' w' (stepPath path step)
  | some v', none =>
    [{ type := "removed", path := stepPath path step
       old := formatValue v' }]
  | none, some w' =>
    [{ type := "added", path := stepPath path step
       new := formatValue w' }]
  | none, none => []

theorem compareKeys_steps {source target : List (String × Doc)}
    (hkeys : (source.map Prod.fst).Nodup) (path : String) :
    compareKeys source target path
      = (source.map fun e => .key e.1).flatMap
        (stepChanges (.map source) (.map target) path) := by
  have hsuffix : ∀ rest : List (String × Doc),
      (∀ e ∈ rest, source.lookup e.1 = some e.2) →
      compareKeys rest target path
        = (rest.map fun e => .key e.1).flatMap
          (stepChanges (.map source) (.map target) path) := by
    intro rest
    induction rest with
    | nil => intro _; rfl
    | cons e rest ih =>
      intro h
      obtain ⟨key, sourceVal⟩ := e
      rw [compareKeys, ih fun e he => h e (List.mem_cons_of_mem _ he),
        List.map_cons, List.flatMap_cons]
      have hlookup : source.lookup key = some sourceVal :=
        h _ List.mem_cons_self
      congr 1
      unfold stepChanges Doc.child
      dsimp only
      rw [hlookup]
      cases target.lookup key <;> rfl
  exact hsuffix source fun e he => Assoc.lookup_of_mem hkeys he

/-- The loop over the target's keys visits the others. -/
theorem addedKeys_steps {source target : List (String × Doc)}
    (hkeys : (target.map Prod.fst).Nodup) (path : String) :
    addedKeys source target path
      = ((target.filter fun e => (source.lookup e.1).isNone).map
          fun e => .key e.1).flatMap
        (stepChanges (.map source) (.map target) path) := by
  have hsuffix : ∀ rest : List (String × Doc),
      (∀ e ∈ rest, target.lookup e.1 = some e.2) →
      addedKeys source rest path
        = ((rest.filter fun e => (source.lookup e.1).isNone).map
            fun e => .key e.1).flatMap
          (stepChanges (.map source) (.map target) path) := by
    intro rest
    induction rest with
    | nil => intro _; rfl
    | cons e rest ih =>
      intro h
      obtain ⟨key, targetVal⟩ := e
      have hlookup : target.lookup key = some targetVal :=
        h _ List.mem_cons_self
      have ih := ih fun e he => h e (List.mem_cons_of_mem _ he)
      unfold addedKeys at ih ⊢
      rw [List.flatMap_cons, ih]
      cases hsource : source.lookup key with
      | some v =>
        rw [List.filter_cons_of_neg (by simp [hsource])]
        dsimp only
        rw [hsource]
        rfl
      | none =>
        rw [List.filter_cons_of_pos (by simp [hsource]),
          List.map_cons, List.flatMap_cons]
        congr 1
        unfold stepChanges Doc.child
        dsimp only
        rw [hlookup, hsource]
        rfl
  exact hsuffix target fun e he => Assoc.lookup_of_mem hkeys he

theorem getElem?_of_drop {α : Type} {l rest : List α} {i : Nat}
    (h : l.drop i = rest) : l[i]? = rest.head? := by
  rw [← h, List.head?_drop]

theorem drop_succ_of_drop {α : Type} {l rest : List α} {i : Nat}
    (h : l.drop i = rest) : l.drop (i + 1) = rest.tail := by
  rw [← h, List.tail_drop]

theorem addedItems_steps {source target rest : List Doc} {i : Nat}
    (hsource : source.drop i = []) (htarget : target.drop i = rest)
    (path : String) :
    addedItems rest path i
      = ((List.range' i rest.length).map .index).flatMap
        (stepChanges (.arr source) (.arr target) path) := by
  induction rest generalizing i with
  | nil => rfl
  | cons v rest ih =>
    have hs : source[i]? = none := getElem?_of_drop hsource
    have ht : target[i]? = some v := getElem?_of_drop htarget
    rw [addedItems, ih (drop_succ_of_drop hsource)
      (drop_succ_of_drop htarget), List.length_cons, List.range'_succ,
      List.map_cons, List.flatMap_cons]
    have hstep : stepChanges (.arr source) (.arr target) path (.index i)
        = [{ type := "added", path := elemPath path i
             new := formatValue v }] := by
      unfold stepChanges Doc.child
      dsimp only
      rw [hs, ht]
      rfl
    rw [hstep]
    rfl

theorem compareArrays_steps {source target rest rest' : List Doc} {i : Nat}
    (hsource : source.drop i = rest) (htarget : target.drop i = rest')
    (path : String) :
    compareArrays rest rest' path i
      = ((List.range' i (max rest.length rest'.length)).map
          .index).flatMap
        (stepChanges (.arr source) (.arr target) path) := by
  induction rest generalizing i rest' with
  | nil =>
    rw [compareArrays, List.length_nil, Nat.zero_max]
    exact addedItems_steps hsource htarget path
  | cons v rest ih =>
    have hs : source[i]? = some v := getElem?_of_drop hsource
    have ht : target[i]? = rest'.head? := getElem?_of_drop htarget
    have hlength : max (v :: rest).length rest'.length
        = max rest.length rest'.tail.length + 1 := by
      rw [List.length_cons, List.length_tail]
      omega
    rw [compareArrays, ih (drop_succ_of_drop hsource)
      (drop_succ_of_drop htarget), hlength, List.range'_succ,
      List.map_cons, List.flatMap_cons]
    congr 1
    unfold stepChanges Doc.child
    dsimp only
    rw [hs, ht]
    cases rest'.head? <;> rfl

theorem compareValues_steps (hv : tidy v) (hw : tidy w)
    (h : sameKind v w = true) (path : String) :
    compareValues v w path = (steps v w).flatMap (stepChanges v w path) := by
  unfold sameKind at h
  split at h
  · rw [compareValues, compareKeys_steps hv, addedKeys_steps hw, steps,
      List.flatMap_append]
  · rw [compareValues, compareArrays_steps List.drop_zero List.drop_zero,
      steps, List.range_eq_range']
  · cases h

theorem compareValues_other (h : sameKind v w = false) (path : String) :
    compareValues v w path
      = if formatValue v ≠ formatValue w then
          [{ type := "changed", path, old := formatValue v
             new := formatValue w }]
        else [] := by
  rw [compareValues]
  · rintro s t rfl rfl
    cases h
  · rintro s t rfl rfl
    cases h

theorem lookup_ne_none {members : List (String × Doc)} {k : String} :
    members.lookup k ≠ none ↔ ∃ e ∈ members, e.1 = k := by
  rw [Ne, List.lookup_eq_none_iff]
  simp only [not_forall, exists_prop]
  refine exists_congr fun e => and_congr_right fun _ => ?_
  rw [Bool.not_eq_true, bne_eq_false_iff_eq]
  exact eq_comm

theorem mem_steps (h : sameKind v w = true) (step : Step) :
    step ∈ steps v w ↔ v.child step ≠ none ∨ w.child step ≠ none := by
  unfold sameKind at h
  split at h
  next source target =>
    unfold steps
    rw [List.mem_append, List.mem_map, List.mem_map]
    cases step with
    | index i =>
      refine iff_of_false ?_ (by simp [Doc.child])
      simp
    | key k =>
      simp only [Step.key.injEq, Doc.child]
      rw [← lookup_ne_none]
      refine or_congr_right' fun hnone => ?_
      rw [lookup_ne_none]
      refine exists_congr fun e => and_congr_left fun heq => ?_
      rw [List.mem_filter, heq, not_not.mp hnone]
      simp
  next source target =>
    unfold steps
    rw [List.mem_map]
    cases step with
    | key k =>
      refine iff_of_false ?_ (by simp [Doc.child])
      simp
    | index i =>
      simp only [Step.index.injEq, Doc.child, exists_eq_right,
        List.mem_range, Ne, List.getElem?_eq_none_iff]
      omega
  next => cases h

theorem nodup_steps (hv : tidy v) (hw : tidy w) : (steps v w).Nodup := by
  unfold steps
  split
  next source target =>
    have hmap : ∀ l : List (String × Doc),
        l.map (fun e => Step.key e.1) = (l.map Prod.fst).map .key := by
      intro l
      rw [List.map_map]
      rfl
    have hinj : Function.Injective Step.key := fun _ _ h =>
      Step.key.inj h
    rw [hmap, hmap]
    refine List.Nodup.append (hv.map hinj) ?_ ?_
    · refine List.Nodup.map hinj ?_
      exact List.Nodup.sublist (List.filter_sublist.map Prod.fst) hw
    · intro step hs ht
      obtain ⟨k, hk, rfl⟩ := List.mem_map.mp hs
      obtain ⟨k', hk', heq⟩ := List.mem_map.mp ht
      cases heq
      obtain ⟨e, he, rfl⟩ := List.mem_map.mp hk'
      obtain ⟨e', he', heq⟩ := List.mem_map.mp hk
      have hnone := (List.mem_filter.mp he).2
      have hsome := lookup_ne_none.mpr ⟨e', he', heq⟩
      exact hsome (Option.isNone_iff_eq_none.mp hnone)
  next source target =>
    exact List.nodup_range.map fun _ _ h => Step.index.inj h
  next => exact List.nodup_nil

-- ======== what is reported

/-- The places that are reported: each of those where it can be seen that
the values part company, once. -/
theorem compareValues_places (hv : Decoded v) (hw : Decoded w) :
    ∃ places : List Place, places.Nodup
      ∧ (∀ place, place ∈ places ↔ Visible v w place)
      ∧ ∀ path, compareValues v w path
        = places.map fun place =>
          report v w place (place.foldl stepPath path) := by
  induction v using Doc.child_induction generalizing w with
  | h v ih =>
    by_cases hkind : sameKind v w = true
    · have hbelow : ∀ step, ∃ places : List Place, places.Nodup
          ∧ (∀ place, place ∈ places ↔ Visible v w (step :: place))
          ∧ ∀ path, stepChanges v w path step
            = places.map fun place =>
              report v w (step :: place)
                (place.foldl stepPath (stepPath path step)) := by
        intro step
        unfold stepChanges report Doc.at?
        simp only [Visible, hkind, true_and]
        cases hsource : v.child step with
        | none =>
          cases htarget : w.child step with
          | none => exact ⟨[], List.nodup_nil, by simp, fun _ => rfl⟩
          | some w' =>
            exact ⟨[[]], List.nodup_singleton _, by simp,
              fun _ => rfl⟩
        | some v' =>
          cases htarget : w.child step with
          | none =>
            exact ⟨[[]], List.nodup_singleton _, by simp,
              fun _ => rfl⟩
          | some w' =>
            obtain ⟨places, hnodup, hmem, hreport⟩ :=
              ih step v' hsource (hv.child hsource)
                (hw.child htarget)
            exact ⟨places, hnodup, hmem,
              fun path => hreport (stepPath path step)⟩
      choose below hnodup hmem hreport using hbelow
      refine ⟨(steps v w).flatMap fun step =>
        (below step).map (step :: ·), ?_, fun place => ?_,
        fun path => ?_⟩
      · refine List.nodup_flatMap.mpr ⟨fun step _ => ?_, ?_⟩
        · exact (hnodup step).map fun _ _ h => (List.cons.inj h).2
        · refine (nodup_steps hv.tidy hw.tidy).imp fun hne => ?_
          intro place hplace hplace'
          obtain ⟨q, _, rfl⟩ := List.mem_map.mp hplace
          obtain ⟨q', _, heq⟩ := List.mem_map.mp hplace'
          exact hne (List.cons.inj heq).1.symm
      · rw [List.mem_flatMap]
        constructor
        · rintro ⟨step, _, hplace⟩
          obtain ⟨q, hq, rfl⟩ := List.mem_map.mp hplace
          exact (hmem step q).mp hq
        · intro hvisible
          cases place with
          | nil =>
            rw [Visible, hkind] at hvisible
            cases hvisible.1
          | cons step q =>
            refine ⟨step, (mem_steps hkind step).mpr ?_,
              List.mem_map_of_mem ((hmem step q).mpr hvisible)⟩
            by_contra hnone
            rw [not_or, not_not, not_not] at hnone
            rw [Visible, hnone.1, hnone.2] at hvisible
            exact hvisible.2
      · rw [compareValues_steps hv.tidy hw.tidy hkind, List.map_flatMap]
        refine List.flatMap_congr fun step _ => ?_
        rw [hreport, List.map_map]
        rfl
    · rw [Bool.not_eq_true] at hkind
      have hnone : ∀ step q, ¬ Visible v w (step :: q) := by
        intro step q h
        rw [Visible, hkind] at h
        cases h.1
      by_cases hformat : formatValue v = formatValue w
      · refine ⟨[], List.nodup_nil, fun place => ?_, fun path => ?_⟩
        · refine iff_of_false List.not_mem_nil fun h => ?_
          cases place with
          | nil => exact h.2 hformat
          | cons step q => exact hnone step q h
        · rw [compareValues_other hkind, if_neg (not_not_intro hformat)]
          rfl
      · refine ⟨[[]], List.nodup_singleton _, fun place => ?_,
          fun path => ?_⟩
        · rw [List.mem_singleton]
          cases place with
          | nil => exact iff_of_true rfl ⟨hkind, hformat⟩
          | cons step q =>
            exact iff_of_false (List.cons_ne_nil _ _) (hnone step q)
        · rw [compareValues_other hkind, if_pos hformat]
          rfl

-- ======== displays

/-- What is displayed begins with a character that tells what it is. -/
def marks : List (Shape × Char) :=
  [(.null, '<'), (.bool true, 't'), (.bool false, 'f'), (.arr, '['),
    (.map, '\x7b')]

theorem formatValue_mark (hstr : ∀ text, v ≠ .str text)
    (hnum : ∀ literal, v ≠ .num literal) :
    ∃ c, (v.shape, c) ∈ marks
      ∧ (formatValue v).toList.head? = some c := by
  cases v with
  | null => exact ⟨'<', by decide, rfl⟩
  | bool b =>
    cases b with
    | true => exact ⟨'t', by decide, rfl⟩
    | false => exact ⟨'f', by decide, rfl⟩
  | arr items =>
    refine ⟨'[', ?_, by simp [formatValue]⟩
    show (Shape.arr, '[') ∈ marks
    decide
  | map members =>
    refine ⟨'\x7b', ?_, by simp [formatValue]⟩
    show (Shape.map, '\x7b') ∈ marks
    decide
  | str text => exact absurd rfl (hstr text)
  | num literal => exact absurd rfl (hnum literal)

theorem formatValue_num {literal : String} (hv : tidy (.num literal)) :
    ∀ e ∈ marks, (formatValue (.num literal)).toList.head? ≠ some e.2 := by
  intro e he heq
  have hnumeral : numeral literal = true := hv
  have hmarks : ∀ e ∈ marks, (e.2.isDigit || e.2 = '-') = false := by
    decide
  unfold numeral at hnumeral
  have heq : literal.toList.head? = some e.2 := heq
  cases hchars : literal.toList with
  | nil =>
    rw [hchars] at hnumeral
    cases hnumeral
  | cons c cs =>
    rw [hchars] at hnumeral heq
    cases heq
    exact absurd hnumeral (by simpa using hmarks e he)

/-- Values that are no strings are displayed alike only if they are the
same, or two maps, or two arrays. -/
theorem shape_eq_of_format (hv : tidy v) (hw : tidy w)
    (hvstr : ∀ text, v ≠ .str text) (hwstr : ∀ text, w ≠ .str text)
    (h : formatValue v = formatValue w) : v.shape = w.shape := by
  by_cases hvnum : ∃ literal, v = .num literal
  · obtain ⟨literal, rfl⟩ := hvnum
    by_cases hwnum : ∃ literal, w = .num literal
    · obtain ⟨literal', rfl⟩ := hwnum
      exact congrArg Shape.num h
    · obtain ⟨c, hmem, hc⟩ := formatValue_mark hwstr
        fun literal heq => hwnum ⟨literal, heq⟩
      rw [← h] at hc
      exact absurd hc (formatValue_num hv _ hmem)
  · obtain ⟨c, hmem, hc⟩ := formatValue_mark hvstr
      fun literal heq => hvnum ⟨literal, heq⟩
    by_cases hwnum : ∃ literal, w = .num literal
    · obtain ⟨literal, rfl⟩ := hwnum
      rw [h] at hc
      exact absurd hc (formatValue_num hw _ hmem)
    · obtain ⟨c', hmem', hc'⟩ := formatValue_mark hwstr
        fun literal heq => hwnum ⟨literal, heq⟩
      rw [h, hc'] at hc
      have hinj : ∀ e ∈ marks, ∀ e' ∈ marks, e.2 = e'.2 → e.1 = e'.1 := by
        decide
      exact hinj _ hmem _ hmem' (Option.some.inj hc).symm

theorem sameKind_iff :
    sameKind v w = true
      ↔ v.shape = w.shape ∧ (v.shape = .map ∨ v.shape = .arr) := by
  cases v <;> cases w <;> simp [sameKind, Doc.shape]

theorem format_eq_of_shape (hkind : sameKind v w = false)
    (h : v.shape = w.shape) : formatValue v = formatValue w := by
  cases v <;> cases w <;> simp_all [sameKind, Doc.shape, formatValue]

theorem shape_of_child {step : Step} (h : v.child step ≠ none) :
    v.shape = .map ∨ v.shape = .arr := by
  cases v with
  | map members => exact Or.inl rfl
  | arr items => exact Or.inr rfl
  | _ => cases step <;> exact absurd rfl h

theorem sameKind_of_child {step : Step} (h : v.shape = w.shape)
    (hchild : v.child step ≠ none ∨ w.child step ≠ none) :
    sameKind v w = true := by
  refine sameKind_iff.mpr ⟨h, ?_⟩
  rcases hchild with hchild | hchild
  · exact shape_of_child hchild
  · rw [h]
    exact shape_of_child hchild

-- ======== equality

theorem ReadsLike.shape_ne (h : ReadsLike v w) : v.shape ≠ w.shape := by
  obtain ⟨rfl, hstr⟩ := h
  intro heq
  cases w with
  | str text => exact hstr text rfl
  | _ => cases heq

theorem shape_eq_or (hv : tidy v) (hw : tidy w)
    (hkind : sameKind v w = false) :
    v.shape = w.shape ∨ formatValue v ≠ formatValue w
      ∨ ReadsLike v w ∨ ReadsLike w v := by
  by_cases hformat : formatValue v = formatValue w
  · by_cases hvstr : ∃ text, v = .str text
    · obtain ⟨text, rfl⟩ := hvstr
      by_cases hwstr : ∃ text, w = .str text
      · obtain ⟨text', rfl⟩ := hwstr
        exact Or.inl (congrArg Shape.str hformat)
      · refine Or.inr (Or.inr (Or.inl ⟨congrArg Doc.str hformat, ?_⟩))
        exact fun text heq => hwstr ⟨text, heq⟩
    · by_cases hwstr : ∃ text, w = .str text
      · obtain ⟨text, rfl⟩ := hwstr
        refine Or.inr (Or.inr (Or.inr ⟨congrArg Doc.str hformat.symm, ?_⟩))
        exact fun text heq => hvstr ⟨text, heq⟩
      · exact Or.inl (shape_eq_of_format hv hw
          (fun text heq => hvstr ⟨text, heq⟩)
          (fun text heq => hwstr ⟨text, heq⟩) hformat)
  · exact Or.inr (Or.inl hformat)

theorem Visible.shapeAt_ne (h : Visible v w p) :
    v.shapeAt p ≠ w.shapeAt p := by
  induction p generalizing v w with
  | nil =>
    intro heq
    exact h.2 (format_eq_of_shape h.1 (Option.some.inj heq))
  | cons step p ih =>
    obtain ⟨_, h⟩ := h
    rw [Doc.shapeAt_cons, Doc.shapeAt_cons]
    cases hv : v.child step with
    | none =>
      cases hw : w.child step with
      | none =>
        rw [hv, hw] at h
        exact h.elim
      | some w' =>
        rw [hv, hw] at h
        obtain rfl : p = [] := h
        intro heq
        cases heq
    | some v' =>
      cases hw : w.child step with
      | none =>
        rw [hv, hw] at h
        obtain rfl : p = [] := h
        intro heq
        cases heq
      | some w' =>
        rw [hv, hw] at h
        exact ih h

theorem Masked.shapeAt_ne (h : Masked v w p) :
    v.shapeAt p ≠ w.shapeAt p := by
  induction p generalizing v w with
  | nil =>
    intro heq
    rcases h with h | h
    · exact h.shape_ne (Option.some.inj heq)
    · exact h.shape_ne (Option.some.inj heq).symm
  | cons step p ih =>
    unfold Masked at h
    rw [Doc.shapeAt_cons, Doc.shapeAt_cons]
    split at h
    next v' w' hv hw =>
      rw [hv, hw]
      exact ih h
    next => exact h.elim

theorem shape_eq_of_nowhere (hv : tidy v) (hw : tidy w)
    (hvisible : ¬ Visible v w []) (hmasked : ¬ Masked v w []) :
    v.shape = w.shape := by
  by_cases hkind : sameKind v w = true
  · exact (sameKind_iff.mp hkind).1
  · rw [Bool.not_eq_true] at hkind
    rcases shape_eq_or hv hw hkind with h | h | h
    · exact h
    · exact absurd ⟨hkind, h⟩ hvisible
    · exact absurd h hmasked

/-- Two values are equal exactly if they part company nowhere. -/
theorem equal_iff (hv : Decoded v) (hw : Decoded w) :
    v.Equal w ↔ (∀ p, ¬ Visible v w p) ∧ ∀ p, ¬ Masked v w p := by
  constructor
  · intro h
    exact ⟨fun p hp => hp.shapeAt_ne (h p),
      fun p hp => hp.shapeAt_ne (h p)⟩
  · rintro ⟨hvisible, hmasked⟩ p
    induction p generalizing v w with
    | nil =>
      exact congrArg some (shape_eq_of_nowhere hv.tidy hw.tidy
        (hvisible []) (hmasked []))
    | cons step p ih =>
      have hshape := shape_eq_of_nowhere hv.tidy hw.tidy
        (hvisible []) (hmasked [])
      have hbelow := fun q => hvisible (step :: q)
      have hmasked := fun q => hmasked (step :: q)
      simp only [Visible] at hbelow
      simp only [Masked] at hmasked
      rw [Doc.shapeAt_cons, Doc.shapeAt_cons]
      cases hvc : v.child step with
      | none =>
        cases hwc : w.child step with
        | none => rfl
        | some w' =>
          have hne : w.child step ≠ none := by simp [hwc]
          have hkind : sameKind v w = true :=
            sameKind_of_child hshape (Or.inr hne)
          rw [hvc, hwc] at hbelow
          exact absurd ⟨hkind, rfl⟩ (hbelow [])
      | some v' =>
        have hne : v.child step ≠ none := by simp [hvc]
        have hkind : sameKind v w = true :=
          sameKind_of_child hshape (Or.inl hne)
        cases hwc : w.child step with
        | none =>
          rw [hvc, hwc] at hbelow
          exact absurd ⟨hkind, rfl⟩ (hbelow [])
        | some w' =>
          rw [hvc, hwc] at hbelow hmasked
          exact ih (hv.child hvc) (hw.child hwc)
            (fun q hq => hbelow q ⟨hkind, hq⟩) hmasked

-- ======== exchange

/-- Equal values are displayed alike. -/
theorem formatValue_of_equal (hv : tidy v) (hw : tidy w)
    (h : v.Equal w) : formatValue v = formatValue w := by
  have hshape : v.shape = w.shape := Option.some.inj (h [])
  by_cases hkind : sameKind v w = true
  · unfold sameKind at hkind
    split at hkind
    next source target =>
      have hmem : ∀ k, k ∈ source.map Prod.fst ↔ k ∈ target.map Prod.fst := by
        intro k
        rw [List.mem_map, List.mem_map, ← lookup_ne_none, ← lookup_ne_none]
        rcases h.child (.key k) with ⟨hs, ht⟩ | ⟨e, e', hs, ht, -⟩
        · exact not_congr (iff_of_true hs ht)
        · refine not_congr (iff_of_false ?_ ?_)
          · exact fun hnone => by cases hs.symm.trans hnone
          · exact fun hnone => by cases ht.symm.trans hnone
      have hperm := (List.perm_ext_iff_of_nodup hv hw).mpr hmem
      have hlength := hperm.length_eq
      rw [List.length_map, List.length_map] at hlength
      rw [formatValue, formatValue, hlength]
    next source target =>
      have hlt : ∀ i, i < source.length ↔ i < target.length := by
        intro i
        rcases h.child (.index i) with ⟨hs, ht⟩ | ⟨e, e', hs, ht, -⟩
        · have hs := List.getElem?_eq_none_iff.mp hs
          have ht := List.getElem?_eq_none_iff.mp ht
          omega
        · have hs := (List.getElem?_eq_some_iff.mp hs).1
          have ht := (List.getElem?_eq_some_iff.mp ht).1
          omega
      have hlength : source.length = target.length := by
        have h₁ := hlt source.length
        have h₂ := hlt target.length
        omega
      rw [formatValue, formatValue, hlength]
    next => cases hkind
  · exact format_eq_of_shape (Bool.not_eq_true _ ▸ hkind) hshape

theorem sameKind_congr (hv : v.shape = v'.shape)
    (hw : w.shape = w'.shape) : sameKind v w = sameKind v' w' := by
  rw [Bool.eq_iff_iff, sameKind_iff, sameKind_iff, hv, hw]

theorem sameKind_comm : sameKind v w = sameKind w v := by
  cases v <;> cases w <;> rfl

/-- What is reported is up to the data. -/
theorem Visible.congr (h : Visible v w p) (hv : v.Equal v')
    (hw : w.Equal w') (hdv : Decoded v) (hdv' : Decoded v')
    (hdw : Decoded w) (hdw' : Decoded w') : Visible v' w' p := by
  induction p generalizing v w v' w' with
  | nil =>
    obtain ⟨hkind, hformat⟩ := h
    refine ⟨?_, ?_⟩
    · rw [← hkind]
      exact (sameKind_congr (Option.some.inj (hv []))
        (Option.some.inj (hw []))).symm
    · rw [← formatValue_of_equal hdv.tidy hdv'.tidy hv,
        ← formatValue_of_equal hdw.tidy hdw'.tidy hw]
      exact hformat
  | cons step p ih =>
    obtain ⟨hkind, h⟩ := h
    refine ⟨?_, ?_⟩
    · rw [← hkind]
      exact (sameKind_congr (Option.some.inj (hv []))
        (Option.some.inj (hw []))).symm
    · rcases hv.child step with ⟨hn, hn'⟩ | ⟨e, e', he, he', hee⟩
      · rw [hn] at h
        rw [hn']
        rcases hw.child step with ⟨hm, hm'⟩ | ⟨f, f', hf, hf', hff⟩
        · rw [hm] at h
          exact h.elim
        · rw [hf] at h
          rw [hf']
          exact h
      · rw [he] at h
        rw [he']
        rcases hw.child step with ⟨hm, hm'⟩ | ⟨f, f', hf, hf', hff⟩
        · rw [hm] at h
          rw [hm']
          exact h
        · rw [hf] at h
          rw [hf']
          exact ih h hee hff (hdv.child he) (hdv'.child he')
            (hdw.child hf) (hdw'.child hf')

theorem Visible.symm (h : Visible v w p) : Visible w v p := by
  induction p generalizing v w with
  | nil => exact ⟨sameKind_comm.trans h.1, h.2.symm⟩
  | cons step p ih =>
    obtain ⟨hkind, h⟩ := h
    refine ⟨sameKind_comm.trans hkind, ?_⟩
    cases hv : v.child step with
    | none =>
      cases hw : w.child step with
      | none =>
        rw [hv, hw] at h
        exact h
      | some w' =>
        rw [hv, hw] at h
        exact h
    | some v' =>
      cases hw : w.child step with
      | none =>
        rw [hv, hw] at h
        exact h
      | some w' =>
        rw [hv, hw] at h
        exact ih h

/-- Added and removed are exchanged, and so are old and new. -/
def DiffChange.swap (change : DiffChange) : DiffChange where
  type :=
    if change.type = "added" then "removed"
    else if change.type = "removed" then "added"
    else change.type
  path := change.path
  old := change.new
  new := change.old

theorem report_swap (v w : Doc) (place : Place) (path : String) :
    report w v place path = (report v w place path).swap := by
  unfold report
  cases (v.at? place).map formatValue with
  | none => cases (w.at? place).map formatValue <;> rfl
  | some old => cases (w.at? place).map formatValue <;> rfl

theorem report_congr (hv : v.Equal v') (hw : w.Equal w')
    (hdv : Decoded v) (hdv' : Decoded v') (hdw : Decoded w)
    (hdw' : Decoded w') (place : Place) (path : String) :
    report v w place path = report v' w' place path := by
  have hformat : ∀ {d d' : Doc}, d.Equal d' → Decoded d → Decoded d' →
      (d.at? place).map formatValue = (d'.at? place).map formatValue := by
    intro d d' h hd hd'
    rcases h.at? place with ⟨hn, hn'⟩ | ⟨e, e', he, he', hee⟩
    · rw [hn, hn']
    · rw [he, he', Option.map_some, Option.map_some,
        formatValue_of_equal (hd.at? he).tidy (hd'.at? he').tidy hee]
  unfold report
  rw [hformat hv hdv hdv', hformat hw hdw hdw']

-- ======== the result

theorem computeStructuredChanges_eq {yaml : Yaml} {source target : String}
    {s t : List (String × Doc)} (hs : yaml.unmarshal source = some (.map s))
    (ht : yaml.unmarshal target = some (.map t)) :
    computeStructuredChanges yaml source target
      = compareValues (.map s) (.map t) "" := by
  unfold computeStructuredChanges
  rw [hs, ht, compareValues]
  rfl

def replicas (value : Doc) : List (String × Doc) := [("replicas", value)]

def replicasTexts : List (String × Doc) :=
  [("replicas: \"1\"\n", .map (replicas (.str "1"))),
    ("replicas: 1\n", .map (replicas (.num "1"))),
    ("replicas: 2\n", .map (replicas (.num "2")))]

theorem decoded_num {literal : String} (h : numeral literal = true) :
    Decoded (.num literal) :=
  decoded_of_child h fun step _ he => by cases step <;> cases he

def replicasYaml : Yaml where
  unmarshal text := replicasTexts.lookup text
  marshal _ := none
  number literal := literal
  decoded := by
    intro text d h
    have hobject : ∀ value, Decoded value →
        Decoded (.map (replicas value)) := by
      intro value hvalue
      refine decoded_map (List.nodup_singleton _) fun e he => ?_
      obtain rfl := List.mem_singleton.mp he
      exact hvalue
    have hmem := Assoc.mem_of_lookup h
    unfold replicasTexts at hmem
    simp only [List.mem_cons, Prod.mk.injEq, List.not_mem_nil,
      or_false] at hmem
    rcases hmem with ⟨-, rfl⟩ | ⟨-, rfl⟩ | ⟨-, rfl⟩
    · exact hobject _ (decoded_str "1")
    · exact hobject _ (decoded_num (by decide))
    · exact hobject _ (decoded_num (by decide))

end Diff
