/-
The custom resource definitions of the context (`ensureCRDsLoaded` and the
effect that clears them, K8sContext.tsx).

# Requests

A call of `ListCRDs` is made under the context that `ensureCRDsLoaded` has
closed over, and is answered for the cluster the backend is on when it is
sent. The two differ where the backend has published a switch that the UI
has not committed. Requests are known by their place in the list of all of
them.

# The clear effect

It runs when a switch is committed to another context. It leaves the
requests that are running alone, and so does the code they end with.
-/
import Kubikles.Switching.Context

namespace Crds

open Machine (Step)

variable {α : Type}

/-- A list of definitions, and the cluster that answered with it (`none`
for the list that the clear effect puts there). -/
structure Listed (α : Type) where
  items : List α
  cluster : Option String
deriving DecidableEq

/-- The list behind `setCRDs([])`. -/
def Listed.cleared : Listed α := ⟨[], none⟩

/-- A call of `ListCRDs`: the context its caller has closed over, and the
cluster that answers it. -/
structure Fetch where
  context : String
  cluster : String
  pending : Bool := true
deriving DecidableEq

/-- The state of `K8sContext.tsx` that is about definitions. -/
structure State (α : Type) where
  switching : ContextSwitch.State
  crds : Listed α := .cleared
  crdsRef : Listed α := .cleared
  crdsLoading : Bool := false
  crdsLoadedForContext : Option String := none
  /-- The context of the promise and the request it stands for. -/
  crdsFetchPromise : Option (String × Nat) := none
  fetches : List Fetch := []
deriving DecidableEq

def State.currentContext (s : State α) : String :=
  s.switching.ui.currentContext

inductive Act (α : Type) where
  | switching (act : ContextSwitch.Act)
  | ensureCRDsLoaded
  /-- A request succeeds; the list may be null. -/
  | listed (i : Nat) (list : Option (List α))
  | failed (i : Nat)
deriving DecidableEq

/-- What a caller of `ensureCRDsLoaded` gets. -/
inductive Result (α : Type) where
  | now (items : List α)
  | promise (i : Nat)
  | resolved (i : Nat) (items : List α)
deriving DecidableEq

/-- A step of a switch, and the clear effect where it changes the
context. -/
def State.switch (s : State α) (switching : ContextSwitch.State) :
    State α :=
  if switching.ui.currentContext = s.currentContext then
    { s with switching }
  else
    { s with switching
             crds := .cleared
             crdsRef := .cleared
             crdsLoadedForContext := none }

def State.ensureCRDsLoaded (s : State α) : State α × List (Result α) :=
  if s.currentContext = "" then (s, [.now []])
  else if s.crdsLoadedForContext = some s.currentContext
      ∧ s.crdsRef.items ≠ [] then
    (s, [.now s.crdsRef.items])
  else
    match s.crdsFetchPromise.filter (·.1 = s.currentContext) with
    | some promise => (s, [.promise promise.2])
    | none =>
      ({ s with
          crdsLoading := true
          crdsFetchPromise := some (s.currentContext, s.fetches.length)
          fetches := s.fetches
            ++ [⟨s.currentContext, s.switching.backend, true⟩] },
        [.promise s.fetches.length])

/-- The `finally` clause: it forgets the promise, whichever it is. -/
def State.settle (s : State α) (i : Nat) (f : Fetch) : State α :=
  { s with crdsLoading := false
           crdsFetchPromise := none
           fetches := s.fetches.set i { f with pending := false } }

/-- What a request does with the list it is answered with. -/
def State.store (s : State α) (f : Fetch) (items : List α) : State α :=
  { s with crds := ⟨items, some f.cluster⟩
           crdsRef := ⟨items, some f.cluster⟩
           crdsLoadedForContext := some f.context }

def step : Step (State α) (Act α) (Result α)
  | .switching act, s =>
    (ContextSwitch.step act s.switching).map fun next =>
      (s.switch next.1, [])
  | .ensureCRDsLoaded, s => some s.ensureCRDsLoaded
  | .listed i list, s =>
    match s.fetches[i]? with
    | some f =>
      if f.pending then
        some ((s.store f (list.getD [])).settle i f,
          [.resolved i (list.getD [])])
      else none
    | none => none
  | .failed i, s =>
    match s.fetches[i]? with
    | some f =>
      if f.pending then some (s.settle i f, [.resolved i []])
      else none
    | none => none

end Crds
