/-
The status of the watchers in the UI (`handleWatcherStatus` in
K8sContext.tsx).

# The statuses

A watcher's loops emit their statuses as they go; what they have emitted
and the UI has not handled yet waits in the order of emission, for each
watcher apart. Which watcher's status is handled next is up to the run.
An unsubscribed watcher is one whose current loop is cancelled.

# The context

There is no switch: one context stands for the backend's at every emission
and for the UI's at every delivery. `delivered` is there for the
statements alone: what has been handled, the latest first.
-/
import Kubikles.Lib.Doc
import Kubikles.Watch.Loop

namespace WatcherStatus

open Machine (Step)
open WatcherManager (Launch)

variable {α : Type}

structure WatcherStatusEvent where
  resourceType : String
  ns : String
  status : String
  context : String
deriving DecidableEq

/-- The state of `K8sContext.tsx` that a status is handled with. -/
structure Ui where
  currentContextRef : String
  connectionError : Option String := none
  isConnecting : Bool := false
  watcherPrevStatusRef : List (String × String) := []
  /-- `reconnectRefreshTimerRef`: the timer is running. -/
  timer : Bool := false
  reconcileToken : Nat := 0
deriving DecidableEq

def up (status : String) : Bool :=
  status = "running" || status = "connected"

def Ui.handleWatcherStatus (event : WatcherStatusEvent) (ui : Ui) : Ui :=
  if event.context ≠ "" ∧ event.context ≠ ui.currentContextRef then ui
  else
    { ui with
      watcherPrevStatusRef :=
        Assoc.put event.resourceType event.status ui.watcherPrevStatusRef
      -- A timer that is running is cleared and started again.
      timer :=
        if ui.watcherPrevStatusRef.lookup event.resourceType
            = some "reconnecting" ∧ event.status = "connected" then true
        else ui.timer
      connectionError := if up event.status then none else ui.connectionError
      isConnecting := if up event.status then false else ui.isConnecting }

def Ui.timerFires (ui : Ui) : Ui :=
  { ui with reconcileToken := ui.reconcileToken + 1
            timer := false }

/-- A watcher: what it watches, its loops, and the statuses that are on
their way, the oldest first. -/
structure Watcher (α : Type) where
  launch : Launch
  loops : WatchLoop.Sys α := .init
  inFlight : List String := []

/-- A status that the UI has handled. -/
structure Delivery where
  watcher : Nat
  resourceType : String
  status : String
deriving DecidableEq

structure State (α : Type) where
  ui : Ui
  watchers : List (Watcher α) := []
  delivered : List Delivery := []

inductive Act (α : Type) where
  | subscribe (launch : Launch)
  | watcher (w : Nat) (act : WatchLoop.Act α)
  /-- The UI handles the next status of a watcher. -/
  | deliver (w : Nat)
  | timerFires

/-- The namespace a watcher's events name. -/
def launchNamespace : Launch → String
  | .watchResourceLoop _ ns => ns
  | .watchCRDLoop _ _ _ ns => ns

def statuses (out : List (Nat × WatchLoop.LoopOut α)) : List String :=
  out.filterMap fun o =>
    match o.2 with
    | .watcherStatus status => some status
    | _ => none

def Watcher.event (watcher : Watcher α) (context status : String) :
    WatcherStatusEvent :=
  ⟨WatchLoop.resourceType watcher.launch, launchNamespace watcher.launch,
    status, context⟩

def State.deliver (s : State α) (w : Nat) (watcher : Watcher α)
    (status : String) (rest : List String) : State α :=
  { ui := s.ui.handleWatcherStatus
      (watcher.event s.ui.currentContextRef status)
    watchers := s.watchers.set w { watcher with inFlight := rest }
    delivered :=
      ⟨w, WatchLoop.resourceType watcher.launch, status⟩ :: s.delivered }

def step : Step (State α) (Act α) Empty
  | .subscribe launch, s =>
    some ({ s with watchers := s.watchers ++ [{ launch }] }, [])
  | .watcher w act, s =>
    match s.watchers[w]? with
    | some watcher =>
      (WatchLoop.step watcher.launch act watcher.loops).map fun next =>
        ({ s with watchers := s.watchers.set w { watcher with
            loops := next.1
            inFlight := watcher.inFlight ++ statuses next.2 } }, [])
    | none => none
  | .deliver w, s =>
    match s.watchers[w]? with
    | some watcher =>
      match watcher.inFlight with
      | status :: rest => some (s.deliver w watcher status rest, [])
      | [] => none
    | none => none
  | .timerFires, s =>
    if s.ui.timer then some ({ s with ui := s.ui.timerFires }, [])
    else none

end WatcherStatus
