/-
The port forwards the UI shows
(frontend/src/hooks/usePortForwards.tsx), next to the manager whose
events it follows.

# The two ways in

The hook learns of a change from its event, and of everything from a
fetch: `fetchData` asks for the configurations and for the active
forwards at once, and puts what comes back in place of what it has. The
events arrive in the order in which they were emitted; a response may
arrive between any two of them, and what it holds was read at two
moments of its own.

# What is in the state

`emitted` are the events since the hook subscribed, and `delivered` says
how many of them it has handled. A request holds what the manager has
answered so far, and how many events had been emitted when it gave the
first of its answers, which no program variable does.
-/
import Kubikles.Lib.Keyed
import Kubikles.Forward.Manager

namespace PortForwardsHook

open Machine (Step)
open PortForwardManager

-- ======== the hook

/-- `configs` and `activeForwards`. -/
structure Hook where
  configs : List PortForwardConfig := []
  activeForwards : List ActiveForward := []
deriving DecidableEq

def Hook.configAdded (contextFilter : String) (cfg : PortForwardConfig)
    (hook : Hook) : Hook :=
  if (Keyed.find (·.id) hook.configs cfg.id).isSome then hook
  else if cfg.passes contextFilter then
    { hook with configs := hook.configs ++ [cfg] }
  else hook

def Hook.configUpdated (cfg : PortForwardConfig) (hook : Hook) : Hook :=
  { hook with
    configs := hook.configs.map fun c => if c.id = cfg.id then cfg else c }

def Hook.stopped (configID : String) (hook : Hook) : Hook :=
  { hook with
    activeForwards :=
      hook.activeForwards.filter (·.config.id ≠ configID) }

def Hook.configRemoved (configID : String) (hook : Hook) : Hook :=
  { hook with
    configs := hook.configs.filter (·.id ≠ configID) }.stopped configID

/-- `started` and `error`. -/
def Hook.started (now : Nat) (event : PortForwardEvent) (hook : Hook) :
    Hook :=
  match Keyed.find (·.config.id) hook.activeForwards event.configID with
  | some _ =>
    { hook with
      activeForwards := hook.activeForwards.map fun af =>
        if af.config.id = event.configID then
          { af with status := event.status.getD af.status
                    error := event.error }
        else af }
  | none =>
    match Keyed.find (·.id) hook.configs event.configID,
        event.status with
    | some cfg, some status =>
      { hook with
        activeForwards := hook.activeForwards
          ++ [⟨cfg, status, event.error, now⟩] }
    | _, _ => hook

def Hook.handle (contextFilter : String) (now : Nat)
    (event : PortForwardEvent) (hook : Hook) : Hook :=
  match event.type with
  | .configAdded =>
    match event.config with
    | some cfg => hook.configAdded contextFilter cfg
    | none => hook
  | .configUpdated =>
    match event.config with
    | some cfg => hook.configUpdated cfg
    | none => hook
  | .configRemoved => hook.configRemoved event.configID
  | .started => hook.started now event
  | .status .error => hook.started now event
  | .status .stopped => hook.stopped event.configID
  | .status _ => hook

-- ======== the state

/-- A call of `fetchData` that waits for its responses. -/
structure Request where
  configs : Option (List PortForwardConfig) := none
  activeForwards : Option (List ActiveForward) := none
  /-- How many events had been emitted at the first read. -/
  since : Option Nat := none
deriving DecidableEq

/-- The manager, what is on its way, and the hook. -/
structure State where
  backend : Sys
  emitted : List PortForwardEvent
  delivered : Nat
  requests : List Request
  hook : Hook

/-- The hook is mounted: it fetches, and subscribes. -/
def State.mount (backend : Sys) : State :=
  ⟨backend, [], 0, [{}], {}⟩

def State.pending (s : State) : List PortForwardEvent :=
  s.emitted.drop s.delivered

/-- Nothing is on its way. -/
structure State.Settled (s : State) : Prop where
  responses : s.requests = []
  events : s.delivered = s.emitted.length

-- ======== transitions

inductive Act where
  | backend (act : PortForwardManager.Act)
  | fetchData
  /-- `GetPortForwardConfigs` answers. -/
  | readConfigs (request : Nat) (ids : List String)
  /-- `GetActivePortForwards` answers. -/
  | readActive (request : Nat) (ids : List String)
  /-- Both answers have arrived. -/
  | respond (request : Nat)
  /-- The next event arrives. -/
  | deliver (now : Nat)
deriving DecidableEq

/-- The manager answers a request for the configurations. -/
def State.readConfigs (contextFilter : String) (i : Nat)
    (request : Request) (ids : List String) (s : State) : State :=
  { s with
    requests := s.requests.set i
      { request with
        configs := s.backend.manager.getConfigs contextFilter ids
        since := request.since.or s.emitted.length } }

/-- The manager answers a request for the active forwards. -/
def State.readActive (i : Nat) (request : Request) (ids : List String)
    (s : State) : State :=
  { s with
    requests := s.requests.set i
      { request with
        activeForwards := s.backend.manager.getActiveForwards ids
        since := request.since.or s.emitted.length } }

def step (contextFilter : String) : Step State Act Empty
  | .backend act, s =>
    (turn act s.backend).map fun r =>
      ({ s with backend := r.1, emitted := s.emitted ++ events r.2 }, [])
  | .fetchData, s => some ({ s with requests := s.requests ++ [{}] }, [])
  | .readConfigs i ids, s =>
    match s.requests[i]? with
    | none => none
    | some request =>
      if request.configs.isNone
          ∧ FinMap.Enumerates ids s.backend.manager.configs then
        some (s.readConfigs contextFilter i request ids, [])
      else none
  | .readActive i ids, s =>
    match s.requests[i]? with
    | none => none
    | some request =>
      if request.activeForwards.isNone
          ∧ FinMap.Enumerates ids s.backend.manager.active then
        some (s.readActive i request ids, [])
      else none
  | .respond i, s =>
    match s.requests[i]? with
    | some ⟨some configs, some activeForwards, _⟩ =>
      some ({ s with requests := s.requests.eraseIdx i
                     hook := ⟨configs, activeForwards⟩ }, [])
    | _ => none
  | .deliver now, s =>
    match s.emitted[s.delivered]? with
    | none => none
    | some event =>
      some ({ s with delivered := s.delivered + 1
                     hook := s.hook.handle contextFilter now event },
        [])

end PortForwardsHook
