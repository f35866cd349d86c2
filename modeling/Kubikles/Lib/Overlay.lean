/-
Values that several places give, of which the first one counts.

Places are asked in an order, and each may say nothing; what the first of
them says that says something is the value. Here one of them is changed:
what is said before it stays, and hides what it says now.
-/
import Mathlib.Data.List.Basic

namespace Overlay

variable {P V : Type*} {f g : P → Option V} {before after : List P} {p : P}

theorem findSome?_filterMap {M : Type*} {h : P → Option M}
    {k : M → Option V} {places : List P} :
    (places.filterMap h).findSome? k
      = places.findSome? fun p => (h p).bind k := by
  induction places with
  | nil => rfl
  | cons p places ih =>
    cases hp : h p with
    | none =>
      rw [List.filterMap_cons_none hp, ih, List.findSome?_cons, hp]
      rfl
    | some m =>
      rw [List.filterMap_cons_some hp, List.findSome?_cons,
        List.findSome?_cons, ih, hp]
      rfl

theorem findSome?_split :
    (before ++ p :: after).findSome? f
      = (before.findSome? f).or ((f p).or (after.findSome? f)) := by
  rw [List.findSome?_append, List.findSome?_cons]
  cases f p <;> rfl

theorem findSome?_congr {places : List P} (h : ∀ q ∈ places, g q = f q) :
    places.findSome? g = places.findSome? f := by
  induction places with
  | nil => rfl
  | cons q places ih =>
    rw [List.findSome?_cons, List.findSome?_cons,
      h q List.mem_cons_self,
      ih fun q' hq' => h q' (List.mem_cons_of_mem _ hq')]

variable (hother : ∀ q, q ≠ p → g q = f q) (hp : p ∉ before)

include hother hp in
theorem before_eq : before.findSome? g = before.findSome? f :=
  findSome?_congr fun q hq => hother q fun heq => hp (heq ▸ hq)

include hother hp in
theorem findSome?_of_before {v : V} (h : before.findSome? f = some v) :
    (before ++ p :: after).findSome? g = some v := by
  rw [findSome?_split, before_eq hother hp, h]
  rfl

include hother hp in
theorem findSome?_of_here {v : V} (h : before.findSome? f = none)
    (hv : g p = some v) : (before ++ p :: after).findSome? g = some v := by
  rw [findSome?_split, before_eq hother hp, h, hv]
  rfl

include hother hp in
/-- A change where nothing was said, or that something before hides, does
not change the value. -/
theorem findSome?_of_missed (after : List P) (hnone : f p = none → g p = none)
    (h : ¬ (f p ≠ none ∧ ∀ q ∈ before, f q = none)) :
    (before ++ p :: after).findSome? g
      = (before ++ p :: after).findSome? f := by
  cases hfirst : before.findSome? f with
  | some v =>
    rw [findSome?_of_before hother hp hfirst, findSome?_split, hfirst]
    rfl
  | none =>
    have hp' : f p = none := by
      by_contra hsome
      exact h ⟨hsome, List.findSome?_eq_none_iff.mp hfirst⟩
    refine findSome?_congr fun q _ => ?_
    by_cases hne : q = p
    · rw [hne, hp', hnone hp']
    · exact hother q hne

include hother hp in
/-- A value is edited at the place, and shown: it is shown as asked for if
and only if the edited one is, where the place's counts, and nothing is
asked for that is not shown, where it does not. -/
theorem edited_iff {D : Type*} (d : D) (shown : V → D) (ask : D → D)
    (edit : V → V) (after : List P) (hedit : g p = (f p).map edit) :
    (((before ++ p :: after).findSome? g).map shown).getD d
        = ask ((((before ++ p :: after).findSome? f).map shown).getD d)
      ↔ ((f p ≠ none ∧ ∀ q ∈ before, f q = none) →
          ∀ v, f p = some v → shown (edit v) = ask (shown v))
        ∧ (¬ (f p ≠ none ∧ ∀ q ∈ before, f q = none) →
          ask ((((before ++ p :: after).findSome? f).map shown).getD d)
            = (((before ++ p :: after).findSome? f).map shown).getD d) := by
  by_cases hcounts : f p ≠ none ∧ ∀ q ∈ before, f q = none
  · obtain ⟨v, hv⟩ := Option.ne_none_iff_exists'.mp hcounts.1
    have hnone := List.findSome?_eq_none_iff.mpr hcounts.2
    have hnow : g p = some (edit v) := by
      rw [hedit, hv]
      rfl
    rw [findSome?_of_here hother hp hnone hnow,
      findSome?_of_here (fun _ _ => rfl) hp hnone hv]
    show shown (edit v) = ask (shown v) ↔ _
    constructor
    · intro h
      refine ⟨fun _ v' hv' => ?_, fun hn => absurd hcounts hn⟩
      rw [hv] at hv'
      rw [← Option.some.inj hv']
      exact h
    · intro h
      exact h.1 hcounts v hv
  · have hmissed := findSome?_of_missed hother hp after
      (fun hnone => by rw [hedit, hnone]; rfl) hcounts
    rw [hmissed]
    constructor
    · intro h
      exact ⟨fun hc => absurd hc hcounts, fun _ => h.symm⟩
    · intro h
      exact (h.2 hcounts).symm

/-- If nothing is said there any more, there is a value if and only if
another place has one. -/
theorem findSome?_of_gone (before after : List P)
    (hother : ∀ q, q ≠ p → g q = f q) (hnone : g p = none) :
    (before ++ p :: after).findSome? g = none
      ↔ ∀ q ∈ before ++ p :: after, q ≠ p → f q = none := by
  rw [List.findSome?_eq_none_iff]
  constructor
  · intro h q hq hne
    rw [← hother q hne]
    exact h q hq
  · intro h q hq
    by_cases hne : q = p
    · rw [hne, hnone]
    · rw [hother q hne]
      exact h q hq hne

end Overlay
