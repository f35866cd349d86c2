/-
The reducer seen from one uid.

Events of different uids do not interact in the store, so a map is
known from its lookups and each lookup folds the events of its own uid
(`lookup_applyResourceEvents`). `applyOne` is that fold's step.
-/
import Kubikles.Store.Reducer

namespace Store

variable {α : Type}

def applyOne (entry : Option (Resource α)) (event : ResourceEvent α) :
    Option (Resource α) :=
  match event.type with
  | .added => if entry.isSome then entry else some event.resource
  | .modified =>
    if entry.isNone ∧ terminating event.resource then none
    else some event.resource
  | .deleted => none
  | _ => entry

theorem applyOne_modified {entry : Option (Resource α)}
    {event : ResourceEvent α} (ht : event.type = .modified)
    (h : entry.isSome) : applyOne entry event = some event.resource := by
  simp [applyOne, ht, Option.isSome_iff_ne_none.mp h]

def forUid (uid : String) (events : List (ResourceEvent α)) :
    List (ResourceEvent α) :=
  events.filter fun e => uidOf e.resource = some uid

@[simp] theorem forUid_nil (uid : String) :
    forUid uid ([] : List (ResourceEvent α)) = [] := rfl

theorem forUid_append (uid : String) (es es' : List (ResourceEvent α)) :
    forUid uid (es ++ es') = forUid uid es ++ forUid uid es' :=
  List.filter_append ..

theorem forUid_cons (uid : String) (e : ResourceEvent α)
    (es : List (ResourceEvent α)) :
    forUid uid (e :: es)
      = if uidOf e.resource = some uid then e :: forUid uid es
        else forUid uid es := by
  by_cases h : uidOf e.resource = some uid <;> simp [forUid, h]

/-- Lookup after one event: its own uid's entry moves by `applyOne`, no
other moves. -/
theorem lookup_applyResourceEvent (map : ResourceMap α)
    (event : ResourceEvent α) (uid : String) :
    (applyResourceEvent map event).lookup uid
      = if uidOf event.resource = some uid
        then applyOne (map.lookup uid) event else map.lookup uid := by
  unfold applyResourceEvent
  cases hu : uidOf event.resource with
  | none => simp
  | some u =>
    dsimp only
    by_cases hne : uid = u
    · subst hne
      rw [if_pos rfl]
      have hmem : uid ∈ map ↔ (map.lookup uid).isSome :=
        Finmap.lookup_isSome.symm
      unfold applyOne
      cases ht : event.type <;> cases hl : map.lookup uid <;>
        cases hterm : terminating event.resource <;>
        simp [hmem, hl]
    · have hsome : some u ≠ some uid := fun h => hne (Option.some.inj h).symm
      rw [if_neg hsome]
      repeat' split
      all_goals first
        | rfl
        | rw [FinMap.lookup_erase, if_neg hne]
        | rw [FinMap.lookup_insert, if_neg hne]

theorem lookup_applyResourceEvents (map : ResourceMap α)
    (events : List (ResourceEvent α)) (uid : String) :
    (applyResourceEvents map events).lookup uid
      = (forUid uid events).foldl applyOne (map.lookup uid) := by
  unfold applyResourceEvents
  induction events generalizing map with
  | nil => rfl
  | cons e events ih =>
    rw [List.foldl_cons, ih, lookup_applyResourceEvent, forUid_cons]
    split
    · rfl
    · rfl

/-- Applying two lists of events is applying their concatenation: the
store does not see how events are batched. -/
theorem applyResourceEvents_append (map : ResourceMap α)
    (es es' : List (ResourceEvent α)) :
    applyResourceEvents map (es ++ es')
      = applyResourceEvents (applyResourceEvents map es) es' :=
  List.foldl_append ..

@[simp] theorem applyResourceEvents_nil (map : ResourceMap α) :
    applyResourceEvents map [] = map := rfl

@[simp] theorem applyResourceEvents_singleton (map : ResourceMap α)
    (e : ResourceEvent α) :
    applyResourceEvents map [e] = applyResourceEvent map e := rfl

/-- The store sees the events of the coalescer's emissions, one after
the other. -/
theorem applyAppEvents_eq (map : ResourceMap α)
    (out : List (Coalescer.AppEvent α)) :
    applyAppEvents map out
      = applyResourceEvents map (Coalescer.emitted out) := by
  unfold applyAppEvents Coalescer.emitted
  induction out generalizing map with
  | nil => rfl
  | cons ev out ih =>
    rw [List.foldl_cons, ih, List.flatMap_cons,
      applyResourceEvents_append]

/-- The store does not see how the events of different objects are interleaved
nor how they are batched: emissions that give each uid the same events in the
same order leave it the same. -/
theorem applyAppEvents_interleaved (map : ResourceMap α)
    {out out' : List (Coalescer.AppEvent α)}
    (h : ∀ uid, forUid uid (Coalescer.emitted out)
      = forUid uid (Coalescer.emitted out')) :
    applyAppEvents map out = applyAppEvents map out' := by
  apply Finmap.ext_lookup
  intro uid
  rw [applyAppEvents_eq, applyAppEvents_eq, lookup_applyResourceEvents,
    lookup_applyResourceEvents, h uid]

def addedAs (uid : String) : ResourceEvent Unit :=
  ⟨.added, "pods", "", ⟨some { uid := some uid }, ()⟩⟩

theorem applyAppEvents_interleaved_two :
    applyAppEvents ∅ [.resourceEvent (addedAs "a"),
        .resourceEvent (addedAs "b")]
      = applyAppEvents ∅ [.resourceEventsBatch [addedAs "b", addedAs "a"]] := by
  apply applyAppEvents_interleaved
  intro uid
  have ha : uidOf (addedAs "a").resource = some "a" := rfl
  have hb : uidOf (addedAs "b").resource = some "b" := rfl
  show forUid uid [addedAs "a", addedAs "b"]
    = forUid uid [addedAs "b", addedAs "a"]
  simp only [forUid_cons, forUid_nil, ha, hb]
  by_cases hua : "a" = uid
  · simp [← hua]
  · simp [hua]

end Store
