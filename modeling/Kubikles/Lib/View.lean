/-
JSON documents by place.

A place is the way to a value from the top: keys of maps and indices of
arrays. What there is at a place is a shape: a scalar, or that it is a map
or an array, whatever is in it. Two documents are equal as data if they
have the same shapes at the same places (`Equal`), so the order of a map's
members does not matter, and neither does a member behind another of its
key.
-/
import Kubikles.Lib.Doc

namespace Doc

/-- A step down: to a member of a map, or to an item of an array. -/
inductive Step where
  | key (k : String)
  | index (i : Nat)
deriving DecidableEq

/-- The way to a value from the top. -/
abbrev Place := List Step

def child : Doc → Step → Option Doc
  | .map members, .key k => members.lookup k
  | .arr items, .index i => items[i]?
  | _, _ => none

def at? (d : Doc) : Place → Option Doc
  | [] => some d
  | step :: place =>
    match d.child step with
    | some d' => d'.at? place
    | none => none

/-- What a value is, without what is in it. -/
inductive Shape where
  | null
  | bool (value : Bool)
  | num (literal : String)
  | str (value : String)
  | arr
  | map
deriving DecidableEq

def shape : Doc → Shape
  | .null => .null
  | .bool b => .bool b
  | .num n => .num n
  | .str s => .str s
  | .arr _ => .arr
  | .map _ => .map

def shapeAt (d : Doc) (place : Place) : Option Shape :=
  (d.at? place).map shape

def Equal (d d' : Doc) : Prop := ∀ place, d.shapeAt place = d'.shapeAt place

variable {d d' d'' : Doc} {place place' : Place} {step : Step}

-- ======== lookups

@[simp] theorem shapeAt_nil : d.shapeAt [] = some d.shape := rfl

theorem shapeAt_cons :
    d.shapeAt (step :: place)
      = (d.child step).bind fun d' => d'.shapeAt place := by
  unfold shapeAt
  rw [at?]
  cases d.child step <;> rfl

theorem at?_append :
    d.at? (place ++ place') = (d.at? place).bind fun d' => d'.at? place' := by
  induction place generalizing d with
  | nil => rfl
  | cons step place ih =>
    rw [List.cons_append, at?, at?]
    cases d.child step with
    | none => rfl
    | some d' => exact ih

theorem shapeAt_of_below (h : d.shapeAt place = none)
    (hfront : place <+: place') : d.shapeAt place' = none := by
  obtain ⟨rest, rfl⟩ := hfront
  unfold shapeAt at h ⊢
  rw [at?_append, Option.map_eq_none_iff.mp h]
  rfl

-- ======== equality

theorem Equal.refl (d : Doc) : d.Equal d := fun _ => rfl

theorem Equal.symm (h : d.Equal d') : d'.Equal d := fun place =>
  (h place).symm

theorem Equal.trans (h : d.Equal d') (h' : d'.Equal d'') : d.Equal d'' :=
  fun place => (h place).trans (h' place)

theorem Equal.child (h : d.Equal d') (step : Step) :
    (d.child step = none ∧ d'.child step = none)
      ∨ ∃ e e', d.child step = some e ∧ d'.child step = some e'
        ∧ e.Equal e' := by
  have hnil := h [step]
  rw [shapeAt_cons, shapeAt_cons] at hnil
  cases hd : d.child step with
  | none =>
    cases hd' : d'.child step with
    | none => exact Or.inl ⟨rfl, rfl⟩
    | some e' =>
      rw [hd, hd'] at hnil
      cases hnil
  | some e =>
    cases hd' : d'.child step with
    | none =>
      rw [hd, hd'] at hnil
      cases hnil
    | some e' =>
      refine Or.inr ⟨e, e', rfl, rfl, fun place => ?_⟩
      have hplace := h (step :: place)
      rw [shapeAt_cons, shapeAt_cons, hd, hd'] at hplace
      exact hplace

theorem Equal.at? (h : d.Equal d') (place : Place) :
    (d.at? place = none ∧ d'.at? place = none)
      ∨ ∃ e e', d.at? place = some e ∧ d'.at? place = some e'
        ∧ e.Equal e' := by
  induction place generalizing d d' with
  | nil => exact Or.inr ⟨d, d', rfl, rfl, h⟩
  | cons step place ih =>
    rw [Doc.at?, Doc.at?]
    rcases h.child step with ⟨hd, hd'⟩ | ⟨e, e', hd, hd', he⟩
    · rw [hd, hd']
      exact Or.inl ⟨rfl, rfl⟩
    · rw [hd, hd']
      exact ih he

-- ======== induction

theorem sizeOf_child {e : Doc} (h : d.child step = some e) :
    sizeOf e < sizeOf d := by
  cases d with
  | map members =>
    cases step with
    | index i => cases h
    | key k =>
      have hmem := List.sizeOf_lt_of_mem (Assoc.mem_of_lookup h)
      simp only [Prod.mk.sizeOf_spec] at hmem
      simp only [map.sizeOf_spec]
      omega
  | arr items =>
    cases step with
    | key k => cases h
    | index i =>
      have hmem := List.sizeOf_lt_of_mem (List.mem_of_getElem? h)
      simp only [arr.sizeOf_spec]
      omega
  | _ => cases step <;> cases h

/-- What holds of a document if it holds of all that is one step down,
holds of every document. -/
theorem child_induction {P : Doc → Prop}
    (h : ∀ d, (∀ step e, d.child step = some e → P e) → P d) (d : Doc) :
    P d :=
  h d fun _ e _he => child_induction h e
termination_by sizeOf d
decreasing_by exact sizeOf_child _he

end Doc
