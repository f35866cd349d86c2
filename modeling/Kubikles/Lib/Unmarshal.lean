/-
How Go's `encoding/json` decodes a document into structs and maps.

# Decoding

A target is filled member by member, in the order of the document. A
member goes into the field of a struct that has its name, but for case
(`isField`); one that no field has is passed over. A `null` leaves a
string or a struct as it is, and empties a map. A value of another kind
is an error, whatever was decoded before it (`isSome_decodeStruct`).

# One field

What a struct holds in one of its fields is decoded from the members of
that name alone (`foldlM_field`). Where the names of a document are
distinct and spelled as the fields are, that is one member at most
(`filter_isField`).
-/
import Kubikles.Lib.Json
import Kubikles.Lib.Merge

namespace Doc

-- ======== distinct names

/-- No map of the document has two members of one name. -/
inductive Distinct : Doc → Prop
  | leaf {d : Doc} (harr : ∀ items, d ≠ .arr items)
      (hmap : ∀ members, d ≠ .map members) : Distinct d
  | arr {items : List Doc} (hitems : ∀ d ∈ items, Distinct d) :
      Distinct (.arr items)
  | map {members : List (String × Doc)}
      (hnames : (members.map Prod.fst).Nodup)
      (hmembers : ∀ e ∈ members, Distinct e.2) : Distinct (.map members)

theorem Distinct.names {members : List (String × Doc)}
    (h : Distinct (.map members)) : (members.map Prod.fst).Nodup := by
  cases h with
  | leaf _ hmap => exact absurd rfl (hmap members)
  | map hnames => exact hnames

theorem Distinct.member {members : List (String × Doc)}
    (h : Distinct (.map members)) {e : String × Doc} (he : e ∈ members) :
    Distinct e.2 := by
  cases h with
  | leaf _ hmap => exact absurd rfl (hmap members)
  | map _ hmembers => exact hmembers e he

structure Object where
  members : List (String × Doc)
  distinct : Distinct (.map members)

-- ======== decoding

def isField (name key : String) : Bool :=
  Json.isField name (Json.foldName (Text.ofString key))

def decodeString (old : String) : Doc → Option String
  | .null => some old
  | .str s => some s
  | _ => none

/-- Decode into a map; each of its values is decoded anew. -/
def decodeMap {V : Type} (elem : Doc → Option V)
    (old : List (String × V)) : Doc → Option (List (String × V))
  | .null => some []
  | .map members =>
    members.foldlM (fun m e => (elem e.2).map (Assoc.put e.1 · m)) old
  | _ => none

def decodeStruct {S : Type} (field : String → Doc → S → Option S)
    (old : S) : Doc → Option S
  | .null => some old
  | .map members => members.foldlM (fun s e => field e.1 e.2 s) old
  | _ => none

-- ======== kinds

def IsString (d : Doc) : Prop := d = .null ∨ ∃ s, d = .str s

/-- What a map or a struct is decoded from, whose members are such. -/
def IsMap (P : String → Doc → Prop) (d : Doc) : Prop :=
  d = .null ∨ ∃ members, d = .map members ∧ ∀ e ∈ members, P e.1 e.2

/-- A loop that can fail at an element, whatever came before, goes through
if it can at each. -/
theorem isSome_foldlM {S E : Type} {f : S → E → Option S} {P : E → Prop}
    (h : ∀ s e, (f s e).isSome ↔ P e) (es : List E) (s : S) :
    (es.foldlM f s).isSome ↔ ∀ e ∈ es, P e := by
  induction es generalizing s with
  | nil => simp
  | cons e es ih =>
    rw [List.foldlM_cons, List.forall_mem_cons, ← h s e]
    cases f s e with
    | none => simp
    | some s' => simpa using ih s'

theorem isSome_decodeString (old : String) (d : Doc) :
    (decodeString old d).isSome ↔ IsString d := by
  unfold IsString
  cases d <;> simp [decodeString]

theorem isSome_decodeMap {V : Type} {elem : Doc → Option V}
    {P : Doc → Prop} (h : ∀ d, (elem d).isSome ↔ P d)
    (old : List (String × V)) (d : Doc) :
    (decodeMap elem old d).isSome ↔ IsMap (fun _ => P) d := by
  unfold IsMap
  cases d with
  | map members =>
    have hfold := isSome_foldlM (P := fun e : String × Doc => P e.2)
      (f := fun m e => (elem e.2).map (Assoc.put e.1 · m))
      (fun m e => by rw [Option.isSome_map, h]) members old
    simpa [decodeMap] using hfold
  | _ => simp [decodeMap]

theorem isSome_decodeStruct {S : Type}
    {field : String → Doc → S → Option S} {P : String → Doc → Prop}
    (h : ∀ k d s, (field k d s).isSome ↔ P k d) (old : S) (d : Doc) :
    (decodeStruct field old d).isSome ↔ IsMap P d := by
  unfold IsMap
  cases d with
  | map members =>
    have hfold := isSome_foldlM (P := fun e : String × Doc => P e.1 e.2)
      (f := fun s e => field e.1 e.2 s)
      (fun s e => h e.1 e.2 s) members old
    simpa [decodeStruct] using hfold
  | _ => simp [decodeStruct]

-- ======== fields

theorem isField_self (name : String) : isField name name = true :=
  decide_eq_true rfl

theorem isField_unique {a b key : String} (ha : isField a key = true)
    (hb : isField b key = true) :
    Json.foldName (Text.ofString a) = Json.foldName (Text.ofString b) :=
  (of_decide_eq_true ha).symm.trans (of_decide_eq_true hb)

/-- A part of a state that only some elements of a loop change is what the
loop over these makes of it. -/
theorem foldlM_field {S E A : Type} {f : S → E → Option S} {part : S → A}
    {own : E → Bool} {g : A → E → Option A}
    (h : ∀ s e s', f s e = some s' →
      if own e then g (part s) e = some (part s') else part s' = part s)
    {es : List E} {s s' : S} (hfold : es.foldlM f s = some s') :
    (es.filter own).foldlM g (part s) = some (part s') := by
  induction es generalizing s with
  | nil =>
    obtain rfl := Option.some.inj hfold
    rfl
  | cons e es ih =>
    rw [List.foldlM_cons] at hfold
    obtain ⟨s₁, hstep, hrest⟩ := Option.bind_eq_some_iff.mp hfold
    have hpart := h s e s₁ hstep
    cases hown : own e with
    | true =>
      rw [hown, if_pos rfl] at hpart
      rw [List.filter_cons_of_pos hown, List.foldlM_cons, hpart]
      exact ih hrest
    | false =>
      rw [hown, if_neg Bool.false_ne_true] at hpart
      rw [List.filter_cons_of_neg (by simp [hown]), ← hpart]
      exact ih hrest

theorem lookup_eq_none_of_notMem {V : Type} {k : String}
    {l : List (String × V)} (h : k ∉ l.map Prod.fst) :
    l.lookup k = none := by
  rw [List.lookup_eq_none_iff]
  intro e he
  apply bne_iff_ne.mpr
  intro heq
  exact h (List.mem_map.mpr ⟨e, he, heq.symm⟩)

/-- The members that a field takes, where only its own name is one that
it has. -/
theorem filter_isField {name : String} {members : List (String × Doc)}
    (hnames : (members.map Prod.fst).Nodup)
    (hexact : ∀ e ∈ members, isField name e.1 = true → e.1 = name) :
    members.filter (fun e => isField name e.1)
      = (members.lookup name).toList.map (name, ·) := by
  induction members with
  | nil => rfl
  | cons e members ih =>
    obtain ⟨k, d⟩ := e
    rw [List.map_cons, List.nodup_cons] at hnames
    have hrest := ih hnames.2 fun e he =>
      hexact e (List.mem_cons_of_mem _ he)
    rw [Assoc.lookup_cons]
    by_cases hk : name = k
    · subst hk
      have hown : isField name (name, d).1 = true := isField_self name
      rw [List.filter_cons, if_pos hown, hrest,
        lookup_eq_none_of_notMem hnames.1, if_pos rfl]
      rfl
    · have hown : ¬isField name (k, d).1 = true := fun h =>
        hk (hexact (k, d) List.mem_cons_self h).symm
      rw [List.filter_cons, if_neg hown, if_neg hk, hrest]

/-- One field of a struct, decoded from a document whose names are
distinct and spelled as the field is: it is decoded from the member of its
name, if there is one. -/
theorem decodeStruct_field {S A : Type}
    {field : String → Doc → S → Option S} {name : String} {part : S → A}
    {decode : A → Doc → Option A}
    (hstep : ∀ s (e : String × Doc) s', field e.1 e.2 s = some s' →
      if isField name e.1 then decode (part s) e.2 = some (part s')
      else part s' = part s)
    {members : List (String × Doc)} {old s : S}
    (hnames : (members.map Prod.fst).Nodup)
    (hexact : ∀ e ∈ members, isField name e.1 = true → e.1 = name)
    (h : decodeStruct field old (.map members) = some s) :
    (members.lookup name = none → part s = part old)
      ∧ ∀ d, members.lookup name = some d →
        decode (part old) d = some (part s) := by
  have hfold : (members.filter (fun e => isField name e.1)).foldlM
      (fun a e => decode a e.2) (part old) = some (part s) :=
    foldlM_field hstep h
  rw [filter_isField hnames hexact] at hfold
  constructor
  · intro hnone
    rw [hnone] at hfold
    exact (Option.some.inj hfold).symm
  · intro d hd
    rw [hd] at hfold
    simpa using hfold

def stringOf : Option Doc → String
  | some (.str s) => s
  | _ => ""

theorem decodeStruct_string {S : Type}
    {field : String → Doc → S → Option S} {name : String}
    {part : S → String}
    (hstep : ∀ s (e : String × Doc) s', field e.1 e.2 s = some s' →
      if isField name e.1 then decodeString (part s) e.2 = some (part s')
      else part s' = part s)
    {members : List (String × Doc)} {old s : S} (hold : part old = "")
    (hnames : (members.map Prod.fst).Nodup)
    (hexact : ∀ e ∈ members, isField name e.1 = true → e.1 = name)
    (h : decodeStruct field old (.map members) = some s) :
    part s = stringOf (members.lookup name) := by
  obtain ⟨hnone, hsome⟩ := decodeStruct_field hstep hnames hexact h
  rw [hold] at hnone hsome
  cases hd : members.lookup name with
  | none => exact hnone hd
  | some d =>
    have hdecode := hsome d hd
    cases d with
    | null => exact (Option.some.inj hdecode).symm
    | str s => exact (Option.some.inj hdecode).symm
    | _ => cases hdecode

-- ======== maps

theorem lookup_map {V W : Type} (f : String → V → W) (k : String)
    (l : List (String × V)) :
    (l.map fun e => (e.1, f e.1 e.2)).lookup k = (l.lookup k).map (f k) := by
  induction l with
  | nil => rfl
  | cons e l ih =>
    rw [List.map_cons, Assoc.lookup_cons, Assoc.lookup_cons, ih]
    by_cases hk : k = e.1
    · rw [if_pos hk, if_pos hk, ← hk]
      rfl
    · rw [if_neg hk, if_neg hk]

theorem lookup_filter {V : Type} (p : String → Prop) [DecidablePred p]
    (k : String) (l : List (String × V)) :
    (l.filter fun e => p e.1).lookup k
      = if p k then l.lookup k else none := by
  induction l with
  | nil => simp
  | cons e l ih =>
    rw [Assoc.lookup_cons, List.filter_cons]
    by_cases hk : k = e.1
    · subst hk
      by_cases hp : p e.1
      · rw [if_pos (decide_eq_true hp), Assoc.lookup_cons, if_pos rfl,
          if_pos hp, if_pos rfl]
      · rw [if_neg (by simpa using hp), ih, if_neg hp, if_neg hp]
    · rw [if_neg hk, ← ih]
      by_cases hp : p e.1
      · rw [if_pos (decide_eq_true hp), Assoc.lookup_cons, if_neg hk]
      · rw [if_neg (by simpa using hp)]

theorem isSome_lookup_fold {V : Type} {elem : Doc → Option V}
    {members : List (String × Doc)} {old m : List (String × V)}
    (h : members.foldlM
      (fun m e => (elem e.2).map (Assoc.put e.1 · m)) old = some m)
    (k : String) :
    (m.lookup k).isSome
      ↔ (members.lookup k).isSome ∨ (old.lookup k).isSome := by
  induction members generalizing old with
  | nil =>
    obtain rfl := Option.some.inj h
    simp
  | cons e members ih =>
    rw [List.foldlM_cons] at h
    obtain ⟨m₁, hput, hrest⟩ := Option.bind_eq_some_iff.mp h
    obtain ⟨v, -, rfl⟩ := Option.map_eq_some_iff.mp hput
    rw [ih hrest, Assoc.lookup_put, Assoc.lookup_cons]
    by_cases hk : k = e.1
    · rw [if_pos hk, if_pos hk]
      simp
    · rw [if_neg hk, if_neg hk]

theorem lookup_fold {V : Type} {elem : Doc → Option V}
    {members : List (String × Doc)} {old m : List (String × V)}
    (hnames : (members.map Prod.fst).Nodup)
    (h : members.foldlM
      (fun m e => (elem e.2).map (Assoc.put e.1 · m)) old = some m)
    (k : String) :
    m.lookup k = ((members.lookup k).bind elem).or (old.lookup k) := by
  induction members generalizing old with
  | nil =>
    obtain rfl := Option.some.inj h
    rfl
  | cons e members ih =>
    rw [List.map_cons, List.nodup_cons] at hnames
    rw [List.foldlM_cons] at h
    obtain ⟨m₁, hput, hrest⟩ := Option.bind_eq_some_iff.mp h
    obtain ⟨v, hv, rfl⟩ := Option.map_eq_some_iff.mp hput
    rw [ih hnames.2 hrest, Assoc.lookup_put, Assoc.lookup_cons]
    by_cases hk : k = e.1
    · subst hk
      rw [if_pos rfl, if_pos rfl, lookup_eq_none_of_notMem hnames.1]
      simp [hv]
    · rw [if_neg hk, if_neg hk]

end Doc
