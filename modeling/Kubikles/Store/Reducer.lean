/-
The reducer of the UI's resource store
(frontend/src/hooks/useResourceEventHandler.tsx) and the map it starts
from (useResource.tsx).

A store is a JavaScript `Map` from uid to resource. The model keeps the
mapping and not the insertion order, which no reader of the store
relies on, nor whether an unchanged map is the same object.

# Streams

Well-formed watch streams.

A cluster names an object by a uid it never uses twice and shows it
under a key (type, namespace, name) that one live object has at a time.
What a watch says about one object is therefore an ADDED, any number of
MODIFIED and at most one DELETED, all under one key. `watch` runs that
protocol over a stream and fails on the first event that breaks it.
-/
import Kubikles.Watch.Coalescer

namespace Store

variable {α : Type}

abbrev ResourceMap (α : Type) := FinMap String (Resource α)

/-- The value of an optional string where JavaScript counts it as
true. -/
def truthy (field : Option String) : Option String :=
  field.filter (· ≠ "")

/-- `resource?.metadata?.uid`, where it is a uid at all. -/
def uidOf (resource : Resource α) : Option String :=
  truthy (resource.metadata.bind (·.uid))

/-- `resource.metadata?.deletionTimestamp`, as a condition. -/
def terminating (resource : Resource α) : Bool :=
  (truthy (resource.metadata.bind (·.deletionTimestamp))).isSome

/-- The body of the loop in `applyResourceEvents`. -/
def applyResourceEvent (next : ResourceMap α) (event : ResourceEvent α) :
    ResourceMap α :=
  match uidOf event.resource with
  | none => next
  | some uid =>
    if event.type = .added ∧ uid ∈ next then next
    else if event.type = .deleted ∧ uid ∉ next then next
    else if event.type = .modified ∧ uid ∉ next
        ∧ terminating event.resource then next
    else if event.type ≠ .added ∧ event.type ≠ .modified
        ∧ event.type ≠ .deleted then next
    else if event.type = .deleted then next.erase uid
    else next.insert uid event.resource

def applyResourceEvents (previous : ResourceMap α)
    (events : List (ResourceEvent α)) : ResourceMap α :=
  events.foldl applyResourceEvent previous

/-- What the watcher hook does with the coalescer's emissions: each
"resource-event" and each "resource-events-batch" is one call of the
store's handler. -/
def applyAppEvents (previous : ResourceMap α)
    (out : List (Coalescer.AppEvent α)) : ResourceMap α :=
  out.foldl (fun map ev => applyResourceEvents map ev.events) previous

/-- The loop that files items under their uids; items without one are
left out. -/
def setItems (map : ResourceMap α) (items : List (Resource α)) :
    ResourceMap α :=
  items.foldl (fun map item =>
    match uidOf item with
    | none => map
    | some uid => map.insert uid item) map

def arrayToMap (items : List (Resource α)) : ResourceMap α :=
  setItems ∅ items

end Store

namespace Store

variable {α : Type}

/-- What a stream has told so far: the live object of each key, and
every uid it has used. -/
structure Watched where
  live : FinMap String String
  used : List String
  known : ∀ {k uid}, live.lookup k = some uid → uid ∈ used
  alone : ∀ {k k' uid}, live.lookup k = some uid →
    live.lookup k' = some uid → k = k'

namespace Watched

/-- Before the first event. -/
def empty : Watched where
  live := ∅
  used := []
  known h := by simp at h
  alone h := by simp at h

/-- A new object appears under a key. -/
def appear (k uid : String) (w : Watched) (h : uid ∉ w.used) : Watched where
  live := w.live.insert k uid
  used := uid :: w.used
  known := by
    intro k' uid' hk'
    rw [FinMap.lookup_insert] at hk'
    split at hk'
    next => exact Option.some.inj hk' ▸ List.mem_cons_self ..
    next => exact List.mem_cons_of_mem _ (w.known hk')
  alone := by
    intro k₁ k₂ uid' h₁ h₂
    rw [FinMap.lookup_insert] at h₁ h₂
    split at h₁ <;> split at h₂
    next e₁ e₂ => rw [e₁, e₂]
    next =>
      rw [Option.some.inj h₁] at h
      exact absurd (w.known h₂) h
    next =>
      rw [Option.some.inj h₂] at h
      exact absurd (w.known h₁) h
    next => exact w.alone h₁ h₂

/-- The object of a key goes. -/
def vanish (k : String) (w : Watched) : Watched where
  live := w.live.erase k
  used := w.used
  known := by
    intro k' uid hk'
    rw [FinMap.lookup_erase] at hk'
    split at hk'
    next => cases hk'
    next => exact w.known hk'
  alone := by
    intro k₁ k₂ uid h₁ h₂
    rw [FinMap.lookup_erase] at h₁ h₂
    split at h₁ <;> split at h₂
    next => cases h₁
    next => cases h₁
    next => cases h₂
    next => exact w.alone h₁ h₂

def accepts (w : Watched) (event : ResourceEvent α) : Option Watched :=
  match uidOf event.resource, event.type with
  | some uid, .added =>
    if h : eventKey event ∉ w.live ∧ uid ∉ w.used then
      some (w.appear (eventKey event) uid h.2)
    else none
  | some uid, .modified =>
    if w.live.lookup (eventKey event) = some uid then some w else none
  | some uid, .deleted =>
    if w.live.lookup (eventKey event) = some uid then
      some (w.vanish (eventKey event))
    else none
  | _, _ => none

end Watched

/-- A stream from the start, as long as it follows the protocol. -/
def watch (stream : List (ResourceEvent α)) : Option Watched :=
  stream.foldlM Watched.accepts .empty

-- ======== what is accepted

/-- The events a stream may go on with, and what they make of it. -/
inductive Accepted (w : Watched) (event : ResourceEvent α) :
    Watched → Prop
  | added {uid : String} : uidOf event.resource = some uid →
      event.type = .added → w.live.lookup (eventKey event) = none →
      (h : uid ∉ w.used) →
      Accepted w event (w.appear (eventKey event) uid h)
  | modified {uid : String} : uidOf event.resource = some uid →
      event.type = .modified →
      w.live.lookup (eventKey event) = some uid → Accepted w event w
  | deleted {uid : String} : uidOf event.resource = some uid →
      event.type = .deleted →
      w.live.lookup (eventKey event) = some uid →
      Accepted w event (w.vanish (eventKey event))

theorem accepts_accepted {w w' : Watched} {event : ResourceEvent α}
    (h : w.accepts event = some w') : Accepted w event w' := by
  unfold Watched.accepts at h
  split at h
  next uid hu ht =>
    split at h
    next hfree =>
      rw [← Option.some.inj h]
      exact .added hu ht (Finmap.lookup_eq_none.mpr hfree.1) hfree.2
    next => cases h
  next uid hu ht =>
    split at h
    next hl => exact Option.some.inj h ▸ .modified hu ht hl
    next => cases h
  next uid hu ht =>
    split at h
    next hl => exact Option.some.inj h ▸ .deleted hu ht hl
    next => cases h
  next => cases h

end Store
