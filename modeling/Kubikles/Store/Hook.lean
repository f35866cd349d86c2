/-
The resource hook (frontend/src/hooks/useResource.tsx): a list and a
watch that feed one store.

# What is in the state

One mount of the hook's effect, for one query. `snapshot` is the React
state, `eventJournal` the ref that a fetch in progress collects events
in (`none` where no fetch is running, since a mount runs one fetch at a
time and clears the ref when it ends), `fetched` the pages it has
received. React applies the updates of a state in the order they were
made, so each is modelled where it is made.

# What is in an action

A call of `handleEvents`, or one of the synchronous stretches of
`fetchData`: up to its `await`, a page in between, and what follows the
list. The items a page or a list delivers and what the snapshot cache
holds come from outside.
-/
import Kubikles.Store.Reducer

namespace Store

variable {α : Type}

-- ======== the query

/-- An event as the UI receives it: the backend may say which context
it is of. -/
structure UiEvent (α : Type) extends ResourceEvent α where
  context : Option String := none
deriving DecidableEq, Repr

/-- What the effect closes over. `dataKey` is the first two fields,
`scopeKey` the third. -/
structure Query where
  currentContext : String
  resourceType : String
  scope : List String
deriving DecidableEq, Repr

/-- `broad`: the query is for all namespaces. -/
def Query.broad (query : Query) : Bool := query.scope = [""]

/-- The filter of `handleEvents`. -/
def Query.matching (query : Query) (event : UiEvent α) : Bool :=
  match truthy event.context with
  | some context => if context ≠ query.currentContext then false else inScope
  | none => inScope
where
  inScope : Bool :=
    let namespace' :=
      (event.resource.metadata.bind (·.ns)).getD event.ns
    (query.broad || query.scope.contains namespace')
      && (uidOf event.resource).isSome

-- ======== the state

/-- The hook's snapshot: a store and the query it is of. -/
structure Snapshot (α : Type) where
  query : Query
  map : ResourceMap α

structure Hook (α : Type) where
  snapshot : Snapshot α
  eventJournal : Option (List (ResourceEvent α))
  fetched : ResourceMap α
  keepSnapshot : Bool
  loadedScope : Option Query

/-- What the hook does to the cache of snapshots. -/
inductive CacheWrite (α : Type) where
  | writeResourceSnapshot (query : Query) (map : ResourceMap α)
  | deleteResourceSnapshot (query : Query)

-- ======== transitions

/-- One stretch of code of a mounted hook. -/
inductive HookAct (α : Type) where
  | handleEvents (events : List (UiEvent α))
  | fetchStart (cached : Option (ResourceMap α))
  | listPage (items : List (Resource α))
  | fetchDone (items : List (Resource α))
  | fetchFailed

namespace Hook

def matched (query : Query) (events : List (UiEvent α)) :
    List (ResourceEvent α) :=
  (events.filter query.matching).map UiEvent.toResourceEvent

def handleEvents (query : Query) (events : List (UiEvent α))
    (h : Hook α) : Hook α :=
  let matching := matched query events
  { h with
    eventJournal := h.eventJournal.map (· ++ matching)
    snapshot :=
      if h.snapshot.query ≠ query then h.snapshot
      else { h.snapshot with
        map := applyResourceEvents h.snapshot.map matching } }

/-- `fetchData` up to its `await`; a second call while one is running
returns at once. -/
def fetchStart (query : Query) (cached : Option (ResourceMap α))
    (h : Hook α) : Hook α :=
  if h.eventJournal.isSome then h
  else
    { h with
      eventJournal := some []
      fetched := ∅
      keepSnapshot :=
        cached.any (FinMap.size · ≠ 0) || h.loadedScope = some query
      snapshot :=
        match cached with
        | none => h.snapshot
        | some map =>
          if h.snapshot.query = query then h.snapshot
          else ⟨query, map⟩ }

def listPage (query : Query) (journal : List (ResourceEvent α))
    (items : List (Resource α)) (h : Hook α) : Hook α :=
  let fetched := setItems h.fetched items
  { h with
    fetched := fetched
    snapshot :=
      if h.keepSnapshot then h.snapshot
      else ⟨query, applyResourceEvents fetched journal⟩ }

/-- The list is complete: the journal is replayed over it. -/
def fetchDone (query : Query) (journal : List (ResourceEvent α))
    (items : List (Resource α)) (h : Hook α) : Hook α :=
  { h with
    snapshot := ⟨query, applyResourceEvents (arrayToMap items) journal⟩
    loadedScope := some query
    eventJournal := none }

end Hook

def hookStep (query : Query) :
    Machine.Step (Hook α) (HookAct α) (CacheWrite α)
  | .handleEvents events, h => some (h.handleEvents query events, [])
  | .fetchStart cached, h => some (h.fetchStart query cached, [])
  | .listPage items, h =>
    h.eventJournal.map fun journal =>
      (h.listPage query journal items, [])
  | .fetchDone items, h =>
    h.eventJournal.map fun journal =>
      let h' := h.fetchDone query journal items
      (h', [.writeResourceSnapshot query h'.snapshot.map])
  | .fetchFailed, h =>
    h.eventJournal.map fun _ =>
      ({ h with eventJournal := none }, [.deleteResourceSnapshot query])

def delivered (acts : List (HookAct α)) : List (UiEvent α) :=
  acts.flatMap fun
    | .handleEvents events => events
    | _ => []

end Store
