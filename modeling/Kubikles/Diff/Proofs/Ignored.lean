/-
The fields that a comparison ignores.

A field's path is split at its dots, and so are the dots of the last
annotation's key. What is taken out of the object is what is at the paths
that come of it (`shapeAt_removed`): all the fields but that annotation,
and, where the annotations hold maps, a value that is not listed.
-/
import Kubikles.Diff.Resources
import Mathlib.Data.List.Nodup

namespace Diff

open Doc (Place Shape Step)

variable {d d' s t : Doc} {p : Place} {yaml : Yaml}

-- ======== removals

def Under (paths : List (List String)) (p : Place) : Prop :=
  ∃ path ∈ paths, path.map Step.key <+: p

theorem prefix_cons_key {key k : String} {path : List String} :
    (key :: path).map Step.key <+: .key k :: p
      ↔ key = k ∧ path.map Step.key <+: p := by
  rw [List.map_cons, List.cons_prefix_cons, Step.key.injEq]

theorem shapeAt_key_of_not_map (h : ∀ members, d ≠ .map members)
    (k : String) : d.shapeAt (.key k :: p) = none := by
  rw [Doc.shapeAt_cons]
  cases d with
  | map members => exact absurd rfl (h members)
  | _ => rfl

theorem removeNestedField_of_not_map (h : ∀ members, d ≠ .map members)
    (path : List String) : removeNestedField path d = d := by
  cases d with
  | map members => exact absurd rfl (h members)
  | _ =>
    match path with
    | [] => rfl
    | [_] => rfl
    | _ :: _ :: _ => rfl

/-- What becomes of the members of a map. -/
theorem removeNestedField_map (key : String) (path : List String)
    (members : List (String × Doc)) :
    ∃ members', removeNestedField (key :: path) (.map members)
        = .map members'
      ∧ ∀ k, members'.lookup k
        = if k = key then
            if path = [] then none
            else (members.lookup key).map (removeNestedField path)
          else members.lookup k := by
  cases path with
  | nil =>
    refine ⟨_, rfl, fun k => ?_⟩
    rw [Assoc.lookup_drop, if_pos rfl]
  | cons key' path =>
    cases hlookup : members.lookup key with
    | none =>
      refine ⟨members, by rw [removeNestedField, hlookup]; simp,
        fun k => ?_⟩
      split
      next heq => rw [heq, hlookup, if_neg (List.cons_ne_nil _ _)]; rfl
      next => rfl
    | some v =>
      by_cases hmap : ∀ child, v ≠ .map child
      · have hsame : removeNestedField (key :: key' :: path)
            (.map members) = .map members := by
          rw [removeNestedField, hlookup]
          · cases v with
            | map child => exact absurd rfl (hmap child)
            | _ => rfl
          · simp
        refine ⟨members, hsame, fun k => ?_⟩
        split
        next heq =>
          rw [heq, hlookup, if_neg (List.cons_ne_nil _ _),
            Option.map_some, removeNestedField_of_not_map hmap]
        next => rfl
      · obtain ⟨child, hv⟩ := not_forall.mp hmap
        obtain rfl := not_not.mp hv
        refine ⟨_, by rw [removeNestedField, hlookup]; simp,
          fun k => ?_⟩
        rw [Assoc.lookup_put, if_neg (List.cons_ne_nil _ _)]
        rfl

/-- What `removeNestedField` takes out. -/
theorem shapeAt_removeNestedField {path : List String} (hne : path ≠ []) :
    (removeNestedField path d).shapeAt p
      = if path.map Step.key <+: p then none else d.shapeAt p := by
  induction path generalizing d p with
  | nil => exact absurd rfl hne
  | cons key path ih =>
    by_cases hmap : ∀ members, d ≠ .map members
    · rw [removeNestedField_of_not_map hmap]
      split
      next hfront =>
        obtain ⟨rest, rfl⟩ := hfront
        exact shapeAt_key_of_not_map hmap key
      next => rfl
    · obtain ⟨members, hd⟩ := not_forall.mp hmap
      obtain rfl := not_not.mp hd
      obtain ⟨members', heq, hlookup⟩ :=
        removeNestedField_map key path members
      rw [heq]
      match p with
      | [] => rw [if_neg (by simp)]; rfl
      | .index i :: p =>
        rw [if_neg (by simp), Doc.shapeAt_cons, Doc.shapeAt_cons]
        rfl
      | .key k :: p =>
        rw [Doc.shapeAt_cons, Doc.shapeAt_cons]
        simp only [prefix_cons_key, Doc.child]
        rw [hlookup]
        by_cases hk : k = key
        · subst hk
          rw [if_pos rfl]
          by_cases hpath : path = []
          · subst hpath
            rw [if_pos rfl, if_pos ⟨rfl, List.nil_prefix⟩]
            rfl
          · rw [if_neg hpath]
            cases members.lookup k with
            | none => exact (ite_self none).symm
            | some v =>
              rw [Option.map_some, Option.bind_some, ih hpath]
              simp
        · rw [if_neg hk, if_neg fun h => hk h.1.symm]

def removed (paths : List (List String)) (d : Doc) : Doc :=
  paths.foldl (fun d path => removeNestedField path d) d

theorem shapeAt_removed {paths : List (List String)} (hne : [] ∉ paths) :
    (Under paths p → (removed paths d).shapeAt p = none)
      ∧ (¬ Under paths p →
        (removed paths d).shapeAt p = d.shapeAt p) := by
  induction paths generalizing d with
  | nil =>
    refine ⟨fun h => ?_, fun _ => rfl⟩
    obtain ⟨_, h, _⟩ := h
    cases h
  | cons path paths ih =>
    rw [List.mem_cons, not_or] at hne
    obtain ⟨hunder, hnot⟩ := ih hne.2 (d := removeNestedField path d)
    have hshape : (removeNestedField path d).shapeAt p
        = if path.map Step.key <+: p then none else d.shapeAt p :=
      shapeAt_removeNestedField (Ne.symm hne.1)
    constructor
    · rintro ⟨path', hpath', hfront⟩
      by_cases h : Under paths p
      · exact hunder h
      · rcases List.mem_cons.mp hpath' with rfl | hpath'
        · rw [if_pos hfront] at hshape
          exact (hnot h).trans hshape
        · exact absurd ⟨path', hpath', hfront⟩ h
    · intro h
      have hfirst : ¬ path.map Step.key <+: p := fun hfront =>
        h ⟨path, List.mem_cons_self, hfront⟩
      rw [if_neg hfirst] at hshape
      refine (hnot fun ⟨path', hpath', hfront⟩ => ?_).trans hshape
      exact h ⟨path', List.mem_cons_of_mem _ hpath', hfront⟩

-- ======== the fields

def annotationKey : String :=
  "kubectl.kubernetes.io/last-applied-configuration"

def fieldPath (field : String) : List String :=
  if field = "metadata.annotations." ++ annotationKey then
    ["metadata", "annotations", annotationKey]
  else splitField field

def listedFields : List (List String) := defaultIgnoreFields.map fieldPath

def dottedFields : List (List String) := defaultIgnoreFields.map splitField

def annotationPlace : Place :=
  [.key "metadata", .key "annotations", .key annotationKey]

def strayPlace : Place :=
  [.key "metadata", .key "annotations", .key "kubectl", .key "kubernetes",
    .key "io/last-applied-configuration"]

def metadataFields : List (List String) :=
  [["metadata", "resourceVersion"], ["metadata", "uid"],
    ["metadata", "generation"], ["metadata", "creationTimestamp"],
    ["metadata", "managedFields"], ["metadata", "selfLink"]]

def plainFields : List (List String) := metadataFields ++ [["status"]]

theorem listedFields_eq :
    listedFields = metadataFields
      ++ [["metadata", "annotations", annotationKey], ["status"]] := by
  decide +kernel

theorem dottedFields_eq :
    dottedFields = metadataFields
      ++ [["metadata", "annotations", "kubectl", "kubernetes",
        "io/last-applied-configuration"], ["status"]] := by
  decide +kernel

theorem nil_notMem_dottedFields : [] ∉ dottedFields := by
  rw [dottedFields_eq]
  decide

theorem under_append {paths paths' : List (List String)} :
    Under (paths ++ paths') p ↔ Under paths p ∨ Under paths' p := by
  unfold Under
  simp only [List.mem_append, or_and_right, exists_or]

theorem under_of_perm {paths paths' : List (List String)}
    (h : paths.Perm paths') : Under paths p ↔ Under paths' p := by
  unfold Under
  simp only [h.mem_iff]

theorem under_singleton {path : List String} :
    Under [path] p ↔ path.map Step.key <+: p := by
  unfold Under
  simp

theorem under_listedFields :
    Under listedFields p
      ↔ Under plainFields p ∨ annotationPlace <+: p := by
  have hperm : listedFields.Perm (plainFields
      ++ [["metadata", "annotations", annotationKey]]) := by
    rw [listedFields_eq]
    exact (List.Perm.swap ..).append_left metadataFields
  rw [under_of_perm hperm, under_append, under_singleton]
  rfl

theorem under_dottedFields :
    Under dottedFields p ↔ Under plainFields p ∨ strayPlace <+: p := by
  have hperm : dottedFields.Perm (plainFields
      ++ [["metadata", "annotations", "kubectl", "kubernetes",
        "io/last-applied-configuration"]]) := by
    rw [dottedFields_eq]
    exact (List.Perm.swap ..).append_left metadataFields
  rw [under_of_perm hperm, under_append, under_singleton]
  rfl

theorem apart_of_below {q r : Place} (hqr : ¬ q <+: r) (hrq : ¬ r <+: q)
    (hq : q <+: p) : ¬ r <+: p := by
  intro hr
  rcases List.prefix_or_prefix_of_prefix hq hr with h | h
  · exact hqr h
  · exact hrq h

theorem not_plain_of_lastApplied (h : annotationPlace <+: p) :
    ¬ Under plainFields p := by
  rintro ⟨path, hpath, hfront⟩
  have hapart : ∀ path ∈ plainFields, ¬ path.map Step.key <+: annotationPlace
      ∧ ¬ annotationPlace <+: path.map Step.key := by decide
  obtain ⟨hqr, hrq⟩ := hapart path hpath
  exact apart_of_below hqr hrq hfront h

theorem not_listed_of_stray (h : strayPlace <+: p) :
    ¬ Under listedFields p := by
  rw [under_listedFields, not_or]
  constructor
  · rintro ⟨path, hpath, hfront⟩
    have hapart : ∀ path ∈ plainFields, ¬ path.map Step.key <+: strayPlace
        ∧ ¬ strayPlace <+: path.map Step.key := by decide
    obtain ⟨hqr, hrq⟩ := hapart path hpath
    exact apart_of_below hqr hrq hfront h
  · exact apart_of_below (by decide) (by decide) h

-- ======== the texts

def stripped (d : Doc) : Doc := removed listedFields d

def readShape (yaml : Yaml) : Shape → Shape
  | .num literal => .num (yaml.number literal)
  | shape => shape

/-- A document is written as a text, which tells it from all that are not
equal to it. -/
structure Yaml.Writes (yaml : Yaml) (d : Doc) (text : String) : Prop where
  nonempty : text ≠ ""
  text_iff : ∀ d', yaml.marshal d' = some text ↔ d'.Equal d

/-- The library handles a document and its text: the text is read as the
document, but for numbers that are not floating point, and what is left of
that without the fields can be written. -/
structure Yaml.Handles (yaml : Yaml) (d : Doc) (text : String) : Prop
    extends yaml.Writes d text where
  reads : ∃ d', yaml.unmarshal text = some d'
    ∧ (∀ p, d'.shapeAt p = (d.shapeAt p).map (readShape yaml))
    ∧ ∃ out, yaml.Writes (removed dottedFields d') out

/-- The normalized text is that of an object without the fields that are
taken out. -/
theorem Yaml.Handles.normalized {text : String} (h : yaml.Handles d text) :
    ∃ d', yaml.Writes d' (normalizeYAMLForDiff yaml text
        defaultIgnoreFields)
      ∧ ∀ p, (Under dottedFields p → d'.shapeAt p = none)
        ∧ (¬ Under dottedFields p →
          d'.shapeAt p = (d.shapeAt p).map (readShape yaml)) := by
  obtain ⟨d', hread, hshape, out, hout⟩ := h.reads
  have hremoved : defaultIgnoreFields.foldl
      (fun obj field => removeNestedField (splitField field) obj) d'
      = removed dottedFields d' := by
    unfold removed dottedFields
    rw [List.foldl_map]
  have hnorm : normalizeYAMLForDiff yaml text defaultIgnoreFields = out := by
    unfold normalizeYAMLForDiff
    rw [if_neg h.nonempty, hread]
    dsimp only
    rw [hremoved, (hout.text_iff _).mpr (Doc.Equal.refl _)]
  refine ⟨removed dottedFields d', hnorm ▸ hout, fun p => ?_⟩
  obtain ⟨hunder, hnot⟩ :=
    shapeAt_removed (d := d') (p := p) nil_notMem_dottedFields
  exact ⟨hunder, fun hp => (hnot hp).trans (hshape p)⟩

/-- The normalized text says what the object does of every place that is
not listed. -/
def UnlistedUnchanged (yaml : Yaml) (d : Doc) (text : String) : Prop :=
  ∃ d', yaml.marshal d'
      = some (normalizeYAMLForDiff yaml text defaultIgnoreFields)
    ∧ ∀ p, ¬ Under listedFields p → d'.shapeAt p = d.shapeAt p

/-- Nothing is where the dots of the annotation's key lead to, and what is
not listed holds no number that is read as another. -/
structure Untouched (yaml : Yaml) (d : Doc) : Prop where
  stray : d.shapeAt strayPlace = none
  exact : ∀ p, ¬ Under listedFields p →
    (d.shapeAt p).map (readShape yaml) = d.shapeAt p

def SameLastApplied (yaml : Yaml) (s t : Doc) : Prop :=
  ∀ p, annotationPlace <+: p →
    (s.shapeAt p).map (readShape yaml) = (t.shapeAt p).map (readShape yaml)

theorem unlistedUnchanged_iff {text : String} (h : yaml.Handles d text) :
    UnlistedUnchanged yaml d text ↔ Untouched yaml d := by
  obtain ⟨d', hwrites, hshape⟩ := h.normalized
  constructor
  · rintro ⟨d'', hmarshal, hunlisted⟩
    have hequal := (hwrites.text_iff d'').mp hmarshal
    have hsame : ∀ p, ¬ Under listedFields p →
        d'.shapeAt p = d.shapeAt p := fun p hp =>
      (hequal p).symm.trans (hunlisted p hp)
    have hstray : d.shapeAt strayPlace = none := by
      rw [← hsame _ (not_listed_of_stray List.prefix_rfl)]
      exact (hshape _).1 (under_dottedFields.mpr (Or.inr List.prefix_rfl))
    refine ⟨hstray, fun p hp => ?_⟩
    by_cases hdotted : Under dottedFields p
    · rcases under_dottedFields.mp hdotted with hplain | hfront
      · exact absurd (under_listedFields.mpr (Or.inl hplain)) hp
      · rw [Doc.shapeAt_of_below hstray hfront]
        rfl
    · rw [← (hshape p).2 hdotted]
      exact hsame p hp
  · intro hu
    refine ⟨d', (hwrites.text_iff d').mpr (Doc.Equal.refl d'),
      fun p hp => ?_⟩
    by_cases hdotted : Under dottedFields p
    · rw [(hshape p).1 hdotted]
      rcases under_dottedFields.mp hdotted with hplain | hfront
      · exact absurd (under_listedFields.mpr (Or.inl hplain)) hp
      · exact (Doc.shapeAt_of_below hu.stray hfront).symm
    · rw [(hshape p).2 hdotted]
      exact hu.exact p hp

/-- Objects that are the same without the listed fields are normalized to
one text if they have the same annotation, and only then. -/
theorem normalized_eq_iff {source target : String}
    (hs : yaml.Handles s source) (ht : yaml.Handles t target)
    (h : (stripped s).Equal (stripped t)) :
    normalizeYAMLForDiff yaml source defaultIgnoreFields
        = normalizeYAMLForDiff yaml target defaultIgnoreFields
      ↔ SameLastApplied yaml s t := by
  obtain ⟨s', hwrites, hshape⟩ := hs.normalized
  obtain ⟨t', hwrites', hshape'⟩ := ht.normalized
  have htext : normalizeYAMLForDiff yaml source defaultIgnoreFields
        = normalizeYAMLForDiff yaml target defaultIgnoreFields
      ↔ s'.Equal t' := by
    rw [← hwrites'.text_iff s', (hwrites.text_iff s').mpr (.refl s'),
      Option.some.injEq]
  have hunlisted : ∀ p, ¬ Under listedFields p →
      s.shapeAt p = t.shapeAt p := by
    intro p hp
    have hp' := h p
    unfold stripped at hp'
    have hne : [] ∉ listedFields := by
      rw [listedFields_eq]
      decide
    rwa [(shapeAt_removed hne).2 hp, (shapeAt_removed hne).2 hp] at hp'
  rw [htext]
  constructor
  · intro hequal p hp
    have hdotted : ¬ Under dottedFields p := by
      rw [under_dottedFields, not_or]
      refine ⟨not_plain_of_lastApplied hp, fun hstray => ?_⟩
      exact not_listed_of_stray hstray
        (under_listedFields.mpr (Or.inr hp))
    rw [← (hshape p).2 hdotted, ← (hshape' p).2 hdotted]
    exact hequal p
  · intro hsame p
    by_cases hdotted : Under dottedFields p
    · rw [(hshape p).1 hdotted, (hshape' p).1 hdotted]
    · rw [(hshape p).2 hdotted, (hshape' p).2 hdotted]
      by_cases hp : annotationPlace <+: p
      · exact hsame p hp
      · rw [hunlisted p]
        rw [under_listedFields, not_or]
        exact ⟨fun hplain => hdotted (under_dottedFields.mpr
          (Or.inl hplain)), hp⟩

theorem hasChanges_iff {source target : String}
    {fetch : (context kind ns name : String) → Except String String}
    {req : DiffRequest} (hreq : req.ignoreFields = [])
    (hsource : fetch req.sourceContext req.sourceKind req.sourceNamespace
      req.sourceName = .ok source)
    (htarget : fetch req.targetContext req.targetKind req.targetNamespace
      req.targetName = .ok target) :
    (∃ result, diffResources yaml fetch req = .ok result
        ∧ result.hasChanges = false)
      ↔ normalizeYAMLForDiff yaml source defaultIgnoreFields
        = normalizeYAMLForDiff yaml target defaultIgnoreFields := by
  have hresult : ∃ result, diffResources yaml fetch req = .ok result
      ∧ result.hasChanges = decide
        (normalizeYAMLForDiff yaml source defaultIgnoreFields
          ≠ normalizeYAMLForDiff yaml target defaultIgnoreFields) := by
    unfold diffResources
    rw [hsource, htarget, hreq]
    exact ⟨_, rfl, rfl⟩
  obtain ⟨result, heq, hchanges⟩ := hresult
  constructor
  · rintro ⟨result', heq', hnone⟩
    cases heq.symm.trans heq'
    rw [hchanges, decide_eq_false_iff_not, not_not] at hnone
    exact hnone
  · intro h
    refine ⟨result, heq, ?_⟩
    rw [hchanges, decide_eq_false_iff_not, not_not]
    exact h

/-- Of two objects that become the same without the listed fields: the
comparison ignores the fields, and leaves the others as they are, if the
objects have the same last-applied annotation, hold nothing where the dots
of its key lead to, and no number that is read as another. -/
theorem ignored_fields_iff (yaml : Yaml)
    (fetch : (context kind ns name : String) → Except String String)
    (req : DiffRequest) (s t : Doc) (source target : String)
    (hreq : req.ignoreFields = [])
    (hsource : fetch req.sourceContext req.sourceKind req.sourceNamespace
      req.sourceName = .ok source)
    (htarget : fetch req.targetContext req.targetKind req.targetNamespace
      req.targetName = .ok target)
    (hs : yaml.Handles s source) (ht : yaml.Handles t target)
    (h : (stripped s).Equal (stripped t)) :
    (normalizeYAMLForDiff yaml source defaultIgnoreFields
          = normalizeYAMLForDiff yaml target defaultIgnoreFields
        ∧ (∃ result, diffResources yaml fetch req = .ok result
          ∧ result.hasChanges = false)
        ∧ UnlistedUnchanged yaml s source
        ∧ UnlistedUnchanged yaml t target)
      ↔ SameLastApplied yaml s t ∧ Untouched yaml s ∧ Untouched yaml t := by
  rw [hasChanges_iff hreq hsource htarget, normalized_eq_iff hs ht h,
    unlistedUnchanged_iff hs, unlistedUnchanged_iff ht]
  constructor
  · rintro ⟨hsame, -, hs, ht⟩
    exact ⟨hsame, hs, ht⟩
  · rintro ⟨hsame, hs, ht⟩
    exact ⟨hsame, hsame, hs, ht⟩

-- ======== a library

/-- The texts of some documents, of which no two are equal. -/
structure Table where
  entries : List (String × Doc)
  texts : (entries.map Prod.fst).Nodup
  apart : ∀ e ∈ entries, ∀ e' ∈ entries, e.2.Equal e'.2 → e = e'
  decoded : ∀ e ∈ entries, Decoded e.2

open Classical in
/-- A library that knows these documents and no others. -/
noncomputable def Table.library (table : Table) : Yaml where
  unmarshal text := table.entries.lookup text
  marshal d := (table.entries.find? fun e => d.Equal e.2).map Prod.fst
  number literal := literal
  decoded h := table.decoded _ (Assoc.mem_of_lookup h)

open Classical in
theorem Table.text_iff (table : Table) {text : String}
    (h : (text, d) ∈ table.entries) :
    table.library.marshal d' = some text ↔ d'.Equal d := by
  show (table.entries.find? fun e => d'.Equal e.2).map Prod.fst = some text
    ↔ _
  constructor
  · intro heq
    obtain ⟨e, he, rfl⟩ := Option.map_eq_some_iff.mp heq
    have hmem := List.mem_of_find?_eq_some he
    have hequal : d'.Equal e.2 := by simpa using List.find?_some he
    have hd : e = (e.1, d) :=
      List.inj_on_of_nodup_map table.texts hmem h rfl
    rw [hd] at hequal
    exact hequal
  · intro hequal
    cases hfind : table.entries.find? fun e => d'.Equal e.2 with
    | none =>
      have hnone := List.find?_eq_none.mp hfind _ h
      exact absurd (by simpa using hequal) hnone
    | some e =>
      have hmem := List.mem_of_find?_eq_some hfind
      have hequal' : d'.Equal e.2 := by simpa using List.find?_some hfind
      rw [table.apart e hmem _ h (hequal'.symm.trans hequal)]
      rfl

def object (metadata : List (String × Doc)) : Doc :=
  .map [("metadata", .map metadata)]

theorem decoded_object {metadata : List (String × Doc)}
    (hkeys : (metadata.map Prod.fst).Nodup)
    (h : ∀ e ∈ metadata, Decoded e.2) : Decoded (object metadata) := by
  refine decoded_map (List.nodup_singleton _) fun e he => ?_
  obtain rfl := List.mem_singleton.mp he
  exact decoded_map hkeys h

theorem Table.readShape_eq (table : Table) (shape : Option Shape) :
    shape.map (readShape table.library) = shape := by
  cases shape with
  | none => rfl
  | some shape => cases shape <;> rfl

def applied (value : String) : Doc :=
  object [("annotations", .map [(annotationKey, .str value)])]

theorem decoded_applied (value : String) :
    Decoded (applied value) := by
  refine decoded_object (List.nodup_singleton _) fun e he => ?_
  obtain rfl := List.mem_singleton.mp he
  refine decoded_map (List.nodup_singleton _) fun e he => ?_
  obtain rfl := List.mem_singleton.mp he
  exact decoded_str value

def appliedText (value : String) : String :=
  "metadata:\n  annotations:\n    " ++ annotationKey ++ ": " ++ value
    ++ "\n"

def appliedTable : Table where
  entries :=
    [(appliedText "v1", applied "v1"), (appliedText "v2", applied "v2")]
  texts := by decide
  apart := by
    intro e he e' he' hequal
    have hplace := hequal annotationPlace
    rcases List.mem_pair.mp he with rfl | rfl
    · rcases List.mem_pair.mp he' with rfl | rfl
      · rfl
      · exact absurd hplace (by decide)
    · rcases List.mem_pair.mp he' with rfl | rfl
      · exact absurd hplace (by decide)
      · rfl
  decoded := by
    intro e he
    rcases List.mem_pair.mp he with rfl | rfl
    · exact decoded_applied _
    · exact decoded_applied _

theorem Table.handles (table : Table) {text out : String}
    (hne : text ≠ "") (hout : out ≠ "") (h : (text, d) ∈ table.entries)
    (hremoved : (out, removed dottedFields d) ∈ table.entries) :
    table.library.Handles d text where
  nonempty := hne
  text_iff _ := table.text_iff h
  reads := by
    refine ⟨d, ?_, fun p => ?_, out, hout, fun _ => table.text_iff hremoved⟩
    · exact Assoc.lookup_of_mem table.texts h
    · exact (table.readShape_eq _).symm

/-- They are the same without the listed fields, and the comparison shows
the annotation. -/
theorem annotation_shows :
    appliedTable.library.Handles (applied "v1") (appliedText "v1")
      ∧ appliedTable.library.Handles (applied "v2") (appliedText "v2")
      ∧ (stripped (applied "v1")).Equal (stripped (applied "v2"))
      ∧ normalizeYAMLForDiff appliedTable.library (appliedText "v1")
          defaultIgnoreFields
        ≠ normalizeYAMLForDiff appliedTable.library (appliedText "v2")
          defaultIgnoreFields := by
  have hstays : ∀ v, removed dottedFields (applied v) = applied v := by
    intro v
    rw [dottedFields_eq]
    rfl
  have hs : appliedTable.library.Handles (applied "v1")
      (appliedText "v1") := by
    have hmem : (appliedText "v1", applied "v1") ∈ appliedTable.entries :=
      List.mem_cons_self
    refine appliedTable.handles ?_ ?_ hmem ((hstays "v1").symm ▸ hmem)
    · decide
    · decide
  have ht : appliedTable.library.Handles (applied "v2")
      (appliedText "v2") := by
    have hmem : (appliedText "v2", applied "v2") ∈ appliedTable.entries :=
      List.mem_cons_of_mem _ List.mem_cons_self
    refine appliedTable.handles ?_ ?_ hmem ((hstays "v2").symm ▸ hmem)
    · decide
    · decide
  have hequal : (stripped (applied "v1")).Equal
      (stripped (applied "v2")) := by
    unfold stripped
    rw [listedFields_eq]
    exact fun _ => rfl
  refine ⟨hs, ht, hequal, fun heq => ?_⟩
  have hsame := (normalized_eq_iff hs ht hequal).mp heq annotationPlace
    List.prefix_rfl
  exact absurd hsame (by decide)

def identified (uid : Option String) : Doc :=
  object (("name", .str "web")
    :: uid.toList.map fun u => ("uid", .str u))

def identifiedText (uid : Option String) : String :=
  "metadata:\n  name: web\n"
    ++ (uid.elim "" fun u => "  uid: " ++ u ++ "\n")

theorem decoded_identified (uid : Option String) :
    Decoded (identified uid) := by
  refine decoded_object ?_ fun e he => ?_
  · cases uid with
    | none => exact List.nodup_singleton _
    | some u =>
      show ["name", "uid"].Nodup
      decide
  · rcases List.mem_cons.mp he with rfl | he
    · exact decoded_str _
    · obtain ⟨u, -, rfl⟩ := List.mem_map.mp he
      exact decoded_str _

/-- Two objects with their identifiers, and what is left of both. -/
def identifiedTable : Table where
  entries := [some "a1", some "b2", none].map fun uid =>
    (identifiedText uid, identified uid)
  texts := by decide
  apart := by
    intro e he e' he' hequal
    obtain ⟨uid, huid, rfl⟩ := List.mem_map.mp he
    obtain ⟨uid', huid', rfl⟩ := List.mem_map.mp he'
    have hshape : ∀ uid, (identified uid).shapeAt
        [.key "metadata", .key "uid"] = uid.map .str := by
      intro uid
      cases uid <;> rfl
    have hplace := hequal [.key "metadata", .key "uid"]
    rw [hshape, hshape] at hplace
    have hinj : Function.Injective (Option.map Shape.str) :=
      Option.map_injective fun _ _ h => Shape.str.inj h
    rw [hinj hplace]
  decoded := by
    intro e he
    obtain ⟨uid, -, rfl⟩ := List.mem_map.mp he
    exact decoded_identified uid

/-- They are compared, and there is no change. -/
theorem identifiers_ignored :
    normalizeYAMLForDiff identifiedTable.library (identifiedText (some "a1"))
        defaultIgnoreFields
      = normalizeYAMLForDiff identifiedTable.library
        (identifiedText (some "b2")) defaultIgnoreFields := by
  have hleft : ∀ u, removed dottedFields (identified (some u))
      = identified none := by
    intro u
    rw [dottedFields_eq]
    rfl
  have hequal : (stripped (identified (some "a1"))).Equal
      (stripped (identified (some "b2"))) := by
    unfold stripped
    rw [listedFields_eq]
    exact fun _ => rfl
  have hmem : ∀ uid ∈ [some "a1", some "b2", none],
      (identifiedText uid, identified uid) ∈ identifiedTable.entries :=
    fun uid huid => List.mem_map_of_mem huid
  have hnone : (identifiedText none, identified none)
      ∈ identifiedTable.entries := hmem none (by decide)
  have hs : identifiedTable.library.Handles (identified (some "a1"))
      (identifiedText (some "a1")) := by
    refine identifiedTable.handles ?_ ?_ (hmem _ (by decide))
      ((hleft "a1").symm ▸ hnone)
    · decide
    · decide
  have ht : identifiedTable.library.Handles (identified (some "b2"))
      (identifiedText (some "b2")) := by
    refine identifiedTable.handles ?_ ?_ (hmem _ (by decide))
      ((hleft "b2").symm ▸ hnone)
    · decide
    · decide
  have hbare : ∀ u p, annotationPlace <+: p →
      (identified (some u)).shapeAt p = none := fun u p hp =>
    Doc.shapeAt_of_below rfl hp
  have huntouched : ∀ u, Untouched identifiedTable.library
      (identified (some u)) := fun u =>
    ⟨rfl, fun p _ => identifiedTable.readShape_eq _⟩
  have hiff := ignored_fields_iff identifiedTable.library
    (fun context _ _ _ => .ok (identifiedText (some context)))
    { sourceContext := "a1", sourceNamespace := "", sourceKind := "node"
      sourceName := "web", targetContext := "b2", targetNamespace := ""
      targetKind := "node", targetName := "web" }
    (identified (some "a1")) (identified (some "b2")) _ _ rfl rfl rfl hs ht
    hequal
  refine (hiff.mpr ⟨fun p hp => ?_, huntouched "a1", huntouched "b2"⟩).1
  rw [hbare "a1" p hp, hbare "b2" p hp]

end Diff
