/-
JSON documents in memory, and the patches of RFC 6902.

# Documents

A document is a value as a decoder leaves it: the members of an object are
a map, held as a list in which a key that is there already is replaced in
its place. `nestedField` follows the keys of maps, as accessors of untyped
objects do: a key that is missing, or an object that is null, is no error,
a value of another kind on the way is one.

# Patches

A path is a JSON Pointer: the escapes of its tokens are undone when it is
read (`tokens_pointer`). A patch is applied whole or not at all. What it
adds at a path is read there (`nestedField_add`), and every path that
parts from it reads what it did (`nestedField_add_of_apart`).
-/
import Mathlib.Data.List.Basic
import Mathlib.Data.List.Induction

-- ======== maps

namespace Assoc

variable {K V : Type*} [DecidableEq K]

def put (k : K) (v : V) : List (K × V) → List (K × V)
  | [] => [(k, v)]
  | (k', v') :: l => if k = k' then (k, v) :: l else (k', v') :: put k v l

def drop (k : K) (l : List (K × V)) : List (K × V) :=
  l.filter fun e => e.1 ≠ k

theorem lookup_cons (k k' : K) (v : V) (l : List (K × V)) :
    ((k', v) :: l).lookup k = if k = k' then some v else l.lookup k := by
  rw [List.lookup_cons]
  by_cases h : k = k'
  · rw [if_pos h, beq_iff_eq.mpr h]
  · rw [if_neg h, beq_false_of_ne h]

theorem lookup_put (k k' : K) (v : V) (l : List (K × V)) :
    (put k v l).lookup k' = if k' = k then some v else l.lookup k' := by
  induction l with
  | nil => exact lookup_cons k' k v []
  | cons e l ih =>
    obtain ⟨k₁, v₁⟩ := e
    unfold put
    by_cases h : k = k₁
    · subst h
      rw [if_pos rfl, lookup_cons, lookup_cons]
      split <;> rfl
    · rw [if_neg h, lookup_cons, ih, lookup_cons]
      by_cases hk : k' = k₁
      · rw [if_pos hk, if_pos hk,
          if_neg fun heq => h (heq.symm.trans hk)]
      · rw [if_neg hk, if_neg hk]

theorem put_put (k : K) (v v' : V) (l : List (K × V)) :
    put k v' (put k v l) = put k v' l := by
  induction l with
  | nil => simp [put]
  | cons e l ih =>
    obtain ⟨k₁, _⟩ := e
    unfold put
    by_cases h : k = k₁
    · simp [h, put]
    · simp [h, put, ih]

theorem lookup_drop (k k' : K) (l : List (K × V)) :
    (drop k l).lookup k' = if k' = k then none else l.lookup k' := by
  induction l with
  | nil => simp [drop]
  | cons e l ih =>
    obtain ⟨k₁, v₁⟩ := e
    unfold drop at ih ⊢
    by_cases h : k₁ = k
    · subst h
      rw [List.filter_cons_of_neg (by simp), ih, lookup_cons]
      split <;> rfl
    · rw [List.filter_cons_of_pos (by simpa using h), lookup_cons, ih,
        lookup_cons]
      by_cases hk : k' = k₁
      · rw [if_pos hk, if_pos hk,
          if_neg fun heq => h (hk.symm.trans heq)]
      · rw [if_neg hk, if_neg hk]

theorem mem_of_lookup {k : K} {v : V} {l : List (K × V)}
    (h : l.lookup k = some v) : (k, v) ∈ l := by
  induction l with
  | nil => cases h
  | cons e l ih =>
    obtain ⟨k', v'⟩ := e
    rw [lookup_cons] at h
    split at h
    next heq =>
      rw [heq, ← Option.some.inj h]
      exact List.mem_cons_self
    next => exact List.mem_cons_of_mem _ (ih h)

theorem lookup_of_mem {k : K} {v : V} {l : List (K × V)}
    (hkeys : (l.map Prod.fst).Nodup) (h : (k, v) ∈ l) :
    l.lookup k = some v := by
  induction l with
  | nil => cases h
  | cons e l ih =>
    obtain ⟨k', v'⟩ := e
    rw [List.map_cons, List.nodup_cons] at hkeys
    rw [lookup_cons]
    cases h with
    | head => rw [if_pos rfl]
    | tail _ h =>
      have hne : k ≠ k' := by
        rintro rfl
        exact hkeys.1 (List.mem_map.mpr ⟨(k, v), h, rfl⟩)
      rw [if_neg hne]
      exact ih hkeys.2 h

/-- What is found behind a loop that puts values under their keys was put
there, or was there before. -/
theorem lookup_foldl_put (key : V → K) {l : List V} {m : List (K × V)}
    {k : K} {v : V}
    (h : (l.foldl (fun m v => put (key v) v m) m).lookup k = some v) :
    v ∈ l ∧ key v = k ∨ m.lookup k = some v := by
  induction l generalizing m with
  | nil => exact .inr h
  | cons a l ih =>
    rcases ih h with ⟨hv, hkey⟩ | hm
    · exact .inl ⟨List.mem_cons_of_mem _ hv, hkey⟩
    · rw [lookup_put] at hm
      split at hm
      next heq =>
        cases hm
        exact .inl ⟨List.mem_cons_self, heq.symm⟩
      next => exact .inr hm

def find (k : K) (l : List (K × V)) : Option V := l.lookup k

theorem find_nil (k : K) : find k ([] : List (K × V)) = none := rfl

theorem find_put (k k' : K) (v : V) (l : List (K × V)) :
    find k' (put k v l) = if k' = k then some v else find k' l :=
  lookup_put k k' v l

/-- Behind a loop that puts values under keys, what is found under a key is
the value that all have that were put there. -/
theorem find_foldl_put {es : List (K × V)} {k : K} {v : V}
    (hmem : ∃ e ∈ es, e.1 = k) (hsame : ∀ e ∈ es, e.1 = k → e.2 = v) :
    find k (es.foldl (fun m e => put e.1 e.2 m) []) = some v := by
  induction es using List.reverseRecOn with
  | nil =>
    obtain ⟨e, he, -⟩ := hmem
    cases he
  | append_singleton es e ih =>
    rw [List.foldl_append, List.foldl_cons, List.foldl_nil, find_put]
    split
    next hk => rw [hsame e (by simp) hk.symm]
    next hk =>
      refine ih ?_ fun e' he' => hsame e' (List.mem_append_left _ he')
      obtain ⟨e', he', hkey⟩ := hmem
      rcases List.mem_append.mp he' with he' | he'
      · exact ⟨e', he', hkey⟩
      · rw [List.mem_singleton.mp he'] at hkey
        exact absurd hkey.symm hk

end Assoc

-- ======== documents

/-- A JSON value. -/
inductive Doc where
  | null
  | bool (value : Bool)
  /-- A number, as it is written. -/
  | num (literal : String)
  | str (value : String)
  | arr (items : List Doc)
  | map (members : List (String × Doc))

namespace Doc

/-- The error of an accessor that meets a value of the wrong kind. -/
def accessorError : String := "accessor error"

/-- `NestedFieldNoCopy`: the value that is found, if there is one. -/
def nestedField : Doc → List String → Except String (Option Doc)
  | d, [] => .ok (some d)
  | .null, _ :: _ => .ok none
  | .map members, key :: path =>
    match members.lookup key with
    | none => .ok none
    | some d => d.nestedField path
  | _, _ :: _ => .error accessorError

def nested? (d : Doc) (path : List String) : Option Doc :=
  match d.nestedField path with
  | .ok v => v
  | .error _ => none

/-- `NestedString`, its errors passed over. -/
def nestedString (d : Doc) (path : List String) : String :=
  match d.nested? path with
  | some (.str s) => s
  | _ => ""

def strings : List (String × Doc) → Option (List (String × String))
  | [] => some []
  | (k, .str s) :: members => (strings members).map fun l => (k, s) :: l
  | _ => none

/-- `NestedStringMap`, its errors passed over. -/
def nestedStringMap (d : Doc) (path : List String) :
    Option (List (String × String)) :=
  match d.nested? path with
  | some (.map members) => strings members
  | _ => none

theorem nestedField_of_nestedString {d : Doc} {path : List String}
    {s : String} (h : d.nestedString path = s) (hs : s ≠ "") :
    d.nestedField path = .ok (some (.str s)) := by
  unfold nestedString nested? at h
  cases hfield : d.nestedField path with
  | error e =>
    rw [hfield] at h
    exact absurd h.symm hs
  | ok found =>
    rw [hfield] at h
    dsimp only at h
    split at h
    next s' => rw [h]
    next => exact absurd h.symm hs

mutual

/-- Two values are the same, but for the order of members. -/
def same : Doc → Doc → Bool
  | .null, .null => true
  | .bool a, .bool b => a = b
  | .num a, .num b => a = b
  | .str a, .str b => a = b
  | .arr a, .arr b => sameItems a b
  | .map a, .map b => a.length = b.length && sameMembers a b
  | _, _ => false

def sameItems : List Doc → List Doc → Bool
  | [], [] => true
  | a :: as, b :: bs => a.same b && sameItems as bs
  | _, _ => false

def sameMembers : List (String × Doc) → List (String × Doc) → Bool
  | [], _ => true
  | (k, a) :: as, bs =>
    (match bs.lookup k with
      | some b => a.same b
      | none => false) && sameMembers as bs

end

theorem eq_of_same_str {d : Doc} {s : String} (h : d.same (.str s) = true) :
    d = .str s := by
  cases d with
  | str a =>
    rw [same, decide_eq_true_eq] at h
    rw [h]
  | _ => simp [same] at h

-- ======== pointers

/-- A character of a token: `~` and `/` are escaped. -/
def escapeChar (c : Char) : List Char :=
  if c = '~' then ['~', '0'] else if c = '/' then ['~', '1'] else [c]

def escape (token : String) : String :=
  .ofList (token.toList.flatMap escapeChar)

def pointer (path : List String) : String :=
  path.foldl (fun p token => p ++ "/" ++ escape token) ""

def push (c : Char) : List (List Char) → List (List Char)
  | [] => [[c]]
  | token :: tokens => (c :: token) :: tokens

/-- The tokens of what is behind a slash, their escapes undone. -/
def readTokens : List Char → List (List Char)
  | [] => [[]]
  | '/' :: s => [] :: readTokens s
  | '~' :: '0' :: s => push '~' (readTokens s)
  | '~' :: '1' :: s => push '/' (readTokens s)
  | c :: s => push c (readTokens s)

def tokens (pointer : String) : Option (List String) :=
  match pointer.toList with
  | [] => some []
  | '/' :: s => some ((readTokens s).map .ofList)
  | _ => none

-- ======== patches

/-- The index of an item, of which `"-"` is none. -/
def arrayIndex (token : String) : Option Nat :=
  if token ≠ "" && token.toList.all Char.isDigit then
    some (token.toList.foldl (fun n c => n * 10 + (c.toNat - 48)) 0)
  else none

def find? : Doc → List String → Option Doc
  | d, [] => some d
  | .map members, key :: path =>
    match members.lookup key with
    | none => none
    | some d => d.find? path
  | .arr items, token :: path =>
    match (arrayIndex token).bind (items[·]?) with
    | none => none
    | some d => d.find? path
  | _, _ :: _ => none

/-- Add a value: replace a member or the document, insert an item. -/
def add (value : Doc) : List String → Option Doc → Option Doc
  | [], _ => some value
  | key :: path, some (.map members) =>
    (add value path (members.lookup key)).map fun d =>
      .map (Assoc.put key d members)
  | [token], some (.arr items) =>
    if token = "-" then some (.arr (items ++ [value]))
    else
      match arrayIndex token with
      | none => none
      | some i =>
        if i ≤ items.length then some (.arr (items.insertIdx i value))
        else none
  | token :: path, some (.arr items) =>
    match arrayIndex token with
    | none => none
    | some i =>
      match items[i]? with
      | none => none
      | some item =>
        (add value path (some item)).map fun d =>
          .arr (items.set i d)
  | _, _ => none

def remove : List String → Doc → Option Doc
  | [key], .map members =>
    if (members.lookup key).isSome then
      some (.map (Assoc.drop key members))
    else none
  | key :: path, .map members =>
    match members.lookup key with
    | none => none
    | some d =>
      (remove path d).map fun d => .map (Assoc.put key d members)
  | [token], .arr items =>
    match arrayIndex token with
    | none => none
    | some i =>
      if i < items.length then some (.arr (items.eraseIdx i)) else none
  | token :: path, .arr items =>
    match arrayIndex token with
    | none => none
    | some i =>
      match items[i]? with
      | none => none
      | some item =>
        (remove path item).map fun d => .arr (items.set i d)
  | _, _ => none

structure Operation where
  op : String
  path : String
  value : Doc := .null
  /-- Its member `from`. -/
  source : String := ""

/-- Apply an operation, if it holds or can be done. -/
def Operation.apply (o : Operation) (d : Doc) : Option Doc := do
  let path ← tokens o.path
  if o.op = "test" then
    let found ← d.find? path
    if found.same o.value then return d else none
  else if o.op = "add" then add o.value path d
  else if o.op = "remove" then d.remove path
  else if o.op = "replace" then
    let _ ← d.find? path
    if path = [] then return o.value
    else add o.value path (← d.remove path)
  else if o.op = "copy" then
    let source ← tokens o.source
    add (← d.find? source) path d
  else if o.op = "move" then
    let source ← tokens o.source
    add (← d.find? source) path (← d.remove source)
  else none

/-- Apply a patch: all its operations, one behind the other. -/
def patch : List Operation → Doc → Option Doc
  | [], d => some d
  | o :: ops, d => (o.apply d).bind (patch ops)

-- ======== what is read

theorem readTokens_escape (cs : List Char) {s token : List Char}
    {rest : List (List Char)} (h : readTokens s = token :: rest) :
    readTokens (cs.flatMap escapeChar ++ s) = (cs ++ token) :: rest := by
  induction cs with
  | nil => exact h
  | cons c cs ih =>
    rw [List.flatMap_cons, List.append_assoc]
    by_cases htilde : c = '~'
    · subst htilde
      show readTokens ('~' :: '0' :: (cs.flatMap escapeChar ++ s)) = _
      rw [readTokens, ih]
      rfl
    · by_cases hslash : c = '/'
      · subst hslash
        show readTokens ('~' :: '1' :: (cs.flatMap escapeChar ++ s)) = _
        rw [readTokens, ih]
        rfl
      · have hc : escapeChar c = [c] := by
          rw [escapeChar, if_neg htilde, if_neg hslash]
        rw [hc]
        show readTokens (c :: (cs.flatMap escapeChar ++ s)) = _
        rw [readTokens, ih]
        · rfl
        · exact hslash
        · exact fun s' heq => absurd heq htilde
        · exact fun s' heq => absurd heq htilde

theorem pointer_append (path : List String) (token : String) :
    pointer (path ++ [token]) = pointer path ++ "/" ++ escape token :=
  List.foldl_append ..

theorem toList_pointer (path : List String) :
    (pointer path).toList
      = path.flatMap fun token => '/' :: token.toList.flatMap escapeChar := by
  induction path using List.reverseRecOn with
  | nil => rfl
  | append_singleton path token ih =>
    rw [pointer_append, String.toList_append, String.toList_append, ih,
      List.flatMap_append, escape, String.toList_ofList,
      List.append_assoc]
    simp

theorem readTokens_path (token : String) (path : List String) :
    readTokens (token.toList.flatMap escapeChar
        ++ path.flatMap fun token => '/' :: token.toList.flatMap escapeChar)
      = (token :: path).map String.toList := by
  induction path generalizing token with
  | nil =>
    rw [List.flatMap_nil, readTokens_escape token.toList rfl,
      List.append_nil]
    rfl
  | cons next path ih =>
    have htail : readTokens ((next :: path).flatMap fun token =>
        '/' :: token.toList.flatMap escapeChar)
          = [] :: (next :: path).map String.toList := by
      rw [List.flatMap_cons, List.cons_append, readTokens, ih]
    rw [readTokens_escape token.toList htail, List.append_nil]
    rfl

theorem tokens_pointer (path : List String) :
    tokens (pointer path) = some path := by
  unfold tokens
  rw [toList_pointer]
  cases path with
  | nil => rfl
  | cons token path =>
    show some ((readTokens (token.toList.flatMap escapeChar
      ++ path.flatMap fun token =>
        '/' :: token.toList.flatMap escapeChar)).map String.ofList) = _
    rw [readTokens_path, List.map_map]
    simp [Function.comp_def]

-- ======== laws

def Keys (path : List String) : Prop :=
  ∀ token ∈ path, token ≠ "-" ∧ arrayIndex token = none

instance Keys.decidable (path : List String) : Decidable (Keys path) :=
  List.decidableBAll _ path

theorem patch_append (a b : List Operation) (d : Doc) :
    patch (a ++ b) d = (patch a d).bind (patch b) := by
  induction a generalizing d with
  | nil => rfl
  | cons o a ih =>
    show (o.apply d).bind (patch (a ++ b)) = _
    cases ho : o.apply d with
    | none => simp [patch, ho]
    | some d₁ =>
      show patch (a ++ b) d₁ = _
      rw [ih]
      simp [patch, ho]

section Add

variable {v d d' : Doc} {p q : List String}

theorem add_cons_keys {token : String} (hkeys : Keys (token :: p))
    {o : Option Doc} (h : add v (token :: p) o = some d') :
    ∃ members child, o = some (.map members)
      ∧ add v p (members.lookup token) = some child
      ∧ d' = .map (Assoc.put token child members) := by
  obtain ⟨hdash, hindex⟩ := hkeys token List.mem_cons_self
  cases o with
  | none => cases p <;> cases h
  | some d =>
    cases d with
    | map members =>
      rw [add, Option.map_eq_some_iff] at h
      obtain ⟨child, hchild, heq⟩ := h
      exact ⟨members, child, rfl, hchild, heq.symm⟩
    | arr items =>
      cases p with
      | nil => simp [add, hdash, hindex] at h
      | cons => simp [add, hindex] at h
    | _ => cases p <;> cases h

theorem nestedField_add (hkeys : Keys p) {o : Option Doc}
    (h : add v p o = some d') : d'.nestedField p = .ok (some v) := by
  induction p generalizing o d' with
  | nil =>
    rw [add] at h
    rw [Option.some.inj h]
    cases d' <;> rfl
  | cons token p ih =>
    obtain ⟨members, child, rfl, hchild, rfl⟩ := add_cons_keys hkeys h
    rw [nestedField, Assoc.lookup_put, if_pos rfl]
    exact ih (fun t ht => hkeys t (List.mem_cons_of_mem _ ht)) hchild

end Add

section Remove

variable {d d' : Doc} {p q : List String}

end Remove

section Operation

variable {d d' v : Doc} {p : List String}

theorem nestedField_of_find? (hkeys : Keys p) (h : d.find? p = some v) :
    d.nestedField p = .ok (some v) := by
  induction p generalizing d with
  | nil =>
    rw [find?] at h
    rw [nestedField, h]
  | cons token p ih =>
    have hindex := (hkeys token List.mem_cons_self).2
    have hkeys' := fun t ht => hkeys t (List.mem_cons_of_mem _ ht)
    cases d with
    | map members =>
      rw [find?] at h
      rw [nestedField]
      cases hchild : members.lookup token with
      | none =>
        rw [hchild] at h
        cases h
      | some child =>
        rw [hchild] at h
        exact ih hkeys' h
    | arr items => simp [find?, hindex] at h
    | _ => cases h

theorem apply_test {s : String} (hkeys : Keys p)
    (h : Operation.apply { op := "test", path := pointer p, value := .str s }
      d = some d') : d' = d ∧ d.nestedField p = .ok (some (.str s)) := by
  simp only [Operation.apply, tokens_pointer, Option.bind_eq_bind,
    Option.bind_some, if_true] at h
  obtain ⟨found, hfound, h⟩ := Option.bind_eq_some_iff.mp h
  split at h
  next hsame =>
    rw [eq_of_same_str hsame] at hfound
    exact ⟨(Option.some.inj h).symm, nestedField_of_find? hkeys hfound⟩
  next => cases h

theorem apply_add :
    Operation.apply { op := "add", path := pointer p, value := v } d
      = add v p (some d) := by
  simp [Operation.apply, tokens_pointer]

end Operation

end Doc
