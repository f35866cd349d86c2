/-
Switches of the context (contextSwitch.ts, `switchContext` in
K8sContext.tsx, `SwitchContext` in app_context.go).

# Calls

A call of the UI goes to the backend, which answers it with an error or
publishes the context first, at one moment. Calls are known by their place
in the list of all of them; they are handled in any order, and so are the
answers to them.

# The backend

Of the backend there is the context its client is on. What else a switch
does there (forwards, watchers, buffered events) does not touch that.
-/
import Kubikles.Lib.Machine
import Kubikles.Lib.Place

namespace ContextSwitch

open Machine (Step)

/-- The state of `K8sContext.tsx` that a switch writes. -/
structure Ui where
  currentContext : String
  currentContextRef : String
  connectionError : Option String := none
  namespaces : List String := []
  selectedNamespaces : List String := ["*"]
  lastContext : Option String := none
  /-- `isConnecting` and `isLoadingNamespaces`. -/
  pending : Bool := false
deriving DecidableEq

/-- How far a call is. -/
inductive Phase where
  | sent
  | published
  | failed (err : String)
  | settled
deriving DecidableEq

/-- A call of `SwitchContext`. -/
structure Call where
  nextContext : String
  phase : Phase
deriving DecidableEq

/-- The UI, the context of the backend's client, and the calls. -/
structure State where
  ui : Ui
  backend : String
  calls : List Call := []
deriving DecidableEq

inductive Act where
  /-- `switchContext`. -/
  | switch (newContext : String)
  /-- The backend publishes the context of a call. -/
  | publish (i : Nat)
  /-- The backend's switch fails. -/
  | fail (i : Nat) (err : String)
  /-- The answer arrives. -/
  | respond (i : Nat)
deriving DecidableEq

def Ui.commit (ui : Ui) (newContext : String) : Ui :=
  { ui with
    currentContextRef := newContext
    connectionError := none
    namespaces := []
    selectedNamespaces := ["*"]
    currentContext := newContext
    lastContext := some newContext }

def Ui.setPending (ui : Ui) (pending : Bool) : Ui :=
  { ui with pending }

def State.advance (s : State) (i : Nat) (c : Call) (phase : Phase) :
    State :=
  { s with calls := s.calls.set i { c with phase } }

def step : Step State Act Empty
  | .switch newContext, s =>
    if s.ui.currentContext = newContext then some (s, [])
    else some ({ s with
      ui := s.ui.setPending true
      calls := s.calls ++ [⟨newContext, .sent⟩] }, [])
  | .publish i, s =>
    match s.calls[i]? with
    | some c =>
      if c.phase = .sent then
        some ({ s.advance i c .published with
          backend := c.nextContext }, [])
      else none
    | none => none
  | .fail i err, s =>
    match s.calls[i]? with
    | some c =>
      if c.phase = .sent then some (s.advance i c (.failed err), [])
      else none
    | none => none
  | .respond i, s =>
    match s.calls[i]? with
    | some c =>
      match c.phase with
      | .published =>
        some ({ s.advance i c .settled with
          ui := (s.ui.commit c.nextContext).setPending false }, [])
      | .failed _ =>
        some ({ s.advance i c .settled with
          ui := s.ui.setPending false }, [])
      | _ => none
    | none => none

end ContextSwitch
