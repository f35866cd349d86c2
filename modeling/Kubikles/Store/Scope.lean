/-
The namespaces a resource hook asks for, and those it shows
(frontend/src/utils/namespaceQuery.ts, useResource.tsx).

# Two lists of namespaces

`selected` is what the user chose to see, `scope` what the hook lists
and watches. They are not the same: a heuristic over earlier
measurements may ask for the whole cluster where that looks cheaper. The
hook lists the scope, filters its events by the scope, and filters what
it displays by the selection.

# What is in the state

`View` is the hook while it is visible and its context stays: the mount
of Hook.lean with the selection and the scope of the last render.
`history`, `since` and `settled` are in no variable of the program. The
first is what has happened to the cluster and been told to the hook, the
second how much of that was before the fetch in progress began, and
`settled` says that a list of this scope has come since the scope was
chosen.

# What is in an action

A render may follow a change of anything the scope is computed from, so
it carries all of that. `useMemo` may keep an older result: that is a
render with the older measurements. Where the scope changes the effect
runs again, and so it does on a refresh or a reconnect, with the scope
it had.
-/
import Mathlib.Data.Rat.Floor
import Mathlib.Data.String.Basic
import Kubikles.Lib.StableSort
import Kubikles.Store.Hook

namespace Store

variable {α : Type}

-- ======== the selection

/-- What the namespace selector hands over. -/
inductive SelectedNamespaces where
  | none
  | one (ns : String)
  | many (values : List String)
deriving DecidableEq, Repr

def SelectedNamespaces.values : SelectedNamespaces → List String
  | .none => []
  | .one ns => [ns]
  | .many values => values

def namespaceSelection (value : SelectedNamespaces) : List String :=
  if value.values.contains "*" || value.values.contains "" then ["*"]
  else StableSort.sortBy id value.values.dedup

-- ======== the scope

def namespaceQueryConcurrency : Nat := 4

def MiB : Nat := 1024 * 1024

/-- `OBSERVATION_TTL`, in milliseconds. -/
def observationTTL : Int := 5 * 60000

/-- `NamespaceQueryObservation`: what the last list of the whole cluster
was like. -/
structure NamespaceQueryObservation where
  count : Nat
  bytes : Nat
  durationMs : ℚ
  observedAt : Int

/-- The options of `chooseNamespaceScope`. -/
structure ScopeOptions where
  broadDenied : Bool := false
  reuseBroad : Bool := false
  scopedDurationMs : Option ℚ := none
  now : Option Int := none

/-- What a scope is chosen from, `Date.now()` included. -/
structure Measured where
  available : List String
  observation : Option NamespaceQueryObservation
  options : ScopeOptions
  dateNow : Int

/-- The share of the known namespaces that is selected. -/
def coverage (selected available : List String) : ℚ :=
  let known := (available.filter fun ns => ns ≠ "" ∧ ns ≠ "*").dedup
  if known.length = 0 then 0
  else (selected.filter known.contains).length / known.length

/-- A list of the whole cluster cost little. -/
def NamespaceQueryObservation.small (o : NamespaceQueryObservation) :
    Bool :=
  o.count ≤ 500 && o.bytes ≤ 5 * MiB && o.durationMs ≤ 2000

/-- What one list for each selected namespace would take. -/
def scopedEstimate (selected : List String) (options : ScopeOptions) : ℚ :=
  match options.scopedDurationMs with
  | none => 2000
  | some duration =>
    ⌈(selected.length / namespaceQueryConcurrency : ℚ)⌉ * duration

def chooseNamespaceScope (selected : List String) (m : Measured) :
    List String :=
  if selected.isEmpty then []
  else if selected.contains "*" then [""]
  else if m.options.broadDenied then selected
  else
    let covers := coverage selected m.available
    match m.observation.filter fun o =>
      (m.options.now.getD m.dateNow) - o.observedAt < observationTTL with
    | some observation =>
      if observation.small
          && (2 ≤ selected.length || m.options.reuseBroad) then [""]
      else if 4 ≤ selected.length && 4 / 5 ≤ covers
          && observation.count ≤ 5000 && observation.bytes ≤ 20 * MiB
          && observation.durationMs ≤ scopedEstimate selected m.options
        then [""]
      else selected
    | none =>
      if 4 ≤ selected.length && 1 / 2 ≤ covers then [""] else selected

/-- What chooses a scope. -/
abbrev Chooser := List String → Measured → List String

/-- The scope that is exactly the selection: what is to be seen is what
is asked for. -/
def exactScope (selected : List String) (_ : Measured) : List String :=
  if selected.contains "*" then [""] else selected

-- ======== the state

structure View (α : Type) where
  selected : List String
  scope : List String
  hook : Hook α
  history : List (UiEvent α)
  since : Nat
  settled : Bool

inductive ViewAct (α : Type) where
  | render (value : SelectedNamespaces) (measured : Measured)
      (cached : Option (ResourceMap α))
  | refresh (cached : Option (ResourceMap α))
  | hook (act : HookAct α)

namespace View

variable (currentContext resourceType : String)

def query (v : View α) : Query := ⟨currentContext, resourceType, v.scope⟩

/-- The effect runs: the fetch in progress is cancelled and the next one
starts. -/
def mount (cached : Option (ResourceMap α)) (v : View α) : View α :=
  { v with
    hook := ({ v.hook with eventJournal := none }).fetchStart
      (v.query currentContext resourceType) cached
    since := v.history.length }

/-- A render: the effect runs again if the scope is another. -/
def render (choose : Chooser) (value : SelectedNamespaces)
    (measured : Measured) (cached : Option (ResourceMap α)) (v : View α) :
    View α :=
  let selected := namespaceSelection value
  let scope := choose selected measured
  if scope = v.scope then { v with selected := selected }
  else
    mount currentContext resourceType cached
      { v with selected := selected, scope := scope, settled := false }

/-- The hook's first render, when the cluster already has a past. -/
def first (choose : Chooser) (value : SelectedNamespaces)
    (measured : Measured) (cached : Option (ResourceMap α))
    (past : List (UiEvent α)) : View α :=
  let selected := namespaceSelection value
  let scope := choose selected measured
  mount currentContext resourceType cached
    { selected := selected
      scope := scope
      hook := ⟨⟨⟨currentContext, resourceType, scope⟩, cached.getD ∅⟩,
        none, ∅, false, none⟩
      history := past
      since := 0
      settled := false }

/-- Where the fetch in progress began, after an action of the hook. -/
def sinceAfter (act : HookAct α) (v : View α) : Nat :=
  match act with
  | .fetchStart _ =>
    if v.hook.eventJournal.isSome then v.since else v.history.length
  | _ => v.since

def shows (selected : List String) (item : Resource α) : Bool :=
  selected.contains "*"
    || (item.metadata.bind (·.ns)).any selected.contains

/-- `data`, what the hook exposes, by uid. -/
def data (v : View α) (uid : String) : Option (Resource α) :=
  if v.hook.snapshot.query ≠ v.query currentContext resourceType
      ∨ v.selected.isEmpty then none
  else (v.hook.snapshot.map.lookup uid).filter (shows v.selected)

end View

/-- `listNamespaceScope`: the lists of the namespaces, one behind the
other. -/
def listNamespaceScope (results : List (List (Resource α))) :
    List (Resource α) := results.flatten

def HookAct.completes : HookAct α → Bool
  | .fetchDone _ => true
  | _ => false

def viewStep (choose : Chooser) (currentContext resourceType : String) :
    Machine.Step (View α) (ViewAct α) (CacheWrite α)
  | .render value measured cached, v =>
    some (v.render currentContext resourceType choose value measured
      cached, [])
  | .refresh cached, v =>
    some (v.mount currentContext resourceType cached, [])
  | .hook act, v =>
    (hookStep (v.query currentContext resourceType) act v.hook).map
      fun (hook, out) =>
        ({ v with
            hook := hook
            history := v.history ++ delivered [act]
            since := v.sinceAfter act
            settled := v.settled || act.completes }, out)

end Store
