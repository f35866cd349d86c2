/-
The port-forward manager (portforward.go) as a machine.

# Goroutines

A goroutine is the list of what it has still to do (`Frame`), and a step
runs the head of one of them: a critical section of `mutex`, the closing
of a channel, one case of a `select`, an emission. A method that lets
go of the mutex in the middle leaves the rest of itself behind as
frames, with what it had read until then. `DeleteConfig` inside
`CleanupIngressConfigs`, or `Stop` inside `DeleteConfig`, is a frame
like any other; the caller's own frames lie behind it.

# Environment

What a step is told from outside (`Env`): a new UUID, the time, whether
the system would let the port be listened on, the order in which `range`
meets the keys, how a connection went. The file `saveConfigs` writes is
an output, and whether writing it failed is only logged.

# Values

A map of pointers to configurations is a map of configurations, since no
configuration is written to once it is filed. The active forwards are
written to, by goroutines that hold them long after the map has lost
them, so `active` holds positions in `forwards`, the list of all there
have ever been.

# The UI

The port-forward manager as the UI sees it (portforward.go,
app_portforward.go): operations that emit in order, and the lists it
gives when it is asked for them.

# Turns

`Start`, `Stop`, `DeleteConfig` and `updateStatus` let go of the mutex
before they emit, so the goroutine that changed something may be
overtaken on its way to the emission. In a `turn` it is not: what a
goroutine has changed it emits before anything else happens. A turn is
one step of the manager, or two (`turn_run`).
-/
import Kubikles.Lib.FinMap
import Kubikles.Lib.Machine

namespace PortForwardManager

-- ======== the structs

/-- `PortForwardConfig`, each field absent from a stored configuration
being the zero of its type. -/
structure PortForwardConfig where
  id : String := ""
  context : String := ""
  ns : String := ""
  resourceType : String := ""
  resourceName : String := ""
  localPort : Int := 0
  remotePort : Int := 0
  label : String := ""
  favorite : Bool := false
  autoStart : Bool := false
  keepAlive : Bool := false
  https : Bool := false
  createdAt : Nat := 0
deriving DecidableEq

inductive Status where
  | starting
  | running
  | reconnecting
  | stopped
  | error
deriving DecidableEq

/-- `ActivePortForward`. Of its channels: is `stopChan` closed, does the
goroutine that closes `doneChan` exist, and has it. -/
structure ActivePortForward where
  config : PortForwardConfig
  status : Status
  error : String
  startedAt : Nat
  stopClosed : Bool
  spawned : Bool
  doneClosed : Bool
deriving DecidableEq

/-- The type of a `PortForwardEvent`: one of its own, or the name of a
status. -/
inductive EventType where
  | started
  | status (status : Status)
  | configAdded
  | configRemoved
  | configUpdated
deriving DecidableEq

structure PortForwardEvent where
  type : EventType
  configID : String
  config : Option PortForwardConfig := none
  status : Option Status := none
  error : String := ""
deriving DecidableEq

/-- The maps of a manager, and all forwards it has ever started. -/
structure Manager where
  configs : FinMap String PortForwardConfig
  active : FinMap String Nat
  usedPorts : FinMap Int String
  forwards : List ActivePortForward

-- ======== calls and frames

/-- A method called from outside the manager, or by another of its
methods. -/
inductive Call where
  | addConfig (cfg : PortForwardConfig)
  | updateConfig (cfg : PortForwardConfig)
  | deleteConfig (configID : String)
  | start (configID : String)
  | stop (configID : String)
  | stopAll
  | cleanupIngressConfigs (contextName : String)
  | stopAllForContext (contextName : String)
  | startAutoStart (contextName : String)
deriving DecidableEq

/-- What a method returns. -/
inductive Result where
  | ok
  | config (cfg : PortForwardConfig)
  | error (message : String)
deriving DecidableEq

/-- Where the goroutine of a forward is in `runWithReconnect`. -/
inductive Point where
  /-- At the head of the loop. -/
  | retry
  /-- In `runPortForward`, until the connection is ready. -/
  | connect
  /-- In `runPortForward`, from then on. -/
  | serve
  /-- Behind `runPortForward`. -/
  | returned (wasConnected : Bool)
  /-- In the `select` that waits for the next attempt. -/
  | backingOff
  /-- About to ask whether the pod still exists. -/
  | probe
deriving DecidableEq

/-- Something a goroutine has still to do. -/
inductive Frame where
  | call (call : Call)
  | emitEvent (event : PortForwardEvent)
  | reply (result : Result)
  /-- `Start`: the `go` statement. -/
  | spawn (af : Nat)
  /-- `Stop`: close the forward's `stopChan`. -/
  | signal (af : Nat)
  /-- `Stop`: wait for the forward's `doneChan`. -/
  | wait (af : Nat)
  /-- `Stop`: the second critical section. -/
  | remove (configID : String)
  /-- `DeleteConfig`: the second critical section, with the port read
  in the first. -/
  | finishDelete (configID : String) (localPort : Int)
  | runWithReconnect (af : Nat) (point : Point) (attempt : Int)
      (backoff : Nat)
  | updateStatus (configID : String) (status : Status) (errMsg : String)
  /-- `runWithReconnect`: the deferred close of `doneChan`. -/
  | closeDone (af : Nat)
deriving DecidableEq

/-- What the environment tells a step. -/
inductive Env where
  | go
  | added (newID : String) (now : Nat)
  | started (available : Bool) (now : Nat)
  | order (ids : List String)
  | timeout
  | ready
  | lost
  | elapsed
  | alive (alive : Bool)
deriving DecidableEq

/-- What the manager gives away: an event for the UI, the configurations
for the file, the result of a method. -/
inductive Out where
  | event (event : PortForwardEvent)
  | saved (configs : FinMap String PortForwardConfig)
  | returned (result : Result)

/-- What comes of a frame: the manager behind it, the frames it leaves
to its own goroutine, a goroutine it starts. -/
structure Effect where
  manager : Manager
  frames : List Frame := []
  spawned : List (List Frame) := []
  out : List Out := []

-- ======== loading

/-- What the loop in `loadConfigs` does with one configuration. -/
def Manager.load (m : Manager) (cfg : PortForwardConfig) : Manager :=
  { m with configs := m.configs.insert cfg.id cfg
           usedPorts := m.usedPorts.insert cfg.localPort cfg.id }

/-- `NewPortForwardManager` and its `loadConfigs`: `none` is a file that
is missing, unreadable or not a `PortForwardStorage`. -/
def loadConfigs (storage : Option (List PortForwardConfig)) : Manager :=
  (storage.getD []).foldl Manager.load ⟨∅, ∅, ∅, []⟩

-- ======== configurations

/-- The text of the error for a configuration that is not there. -/
def notFound (configID : String) : String :=
  s!"config not found: {configID}"

/-- The text of the error for a port another configuration has. -/
def alreadyUsed (localPort : Int) : String :=
  s!"local port {localPort} is already used by another port forward"

/-- The port is used, and not by the configuration of this ID. -/
def Manager.portTaken (m : Manager) (localPort : Int) (id : String) :
    Bool :=
  match m.usedPorts.lookup localPort with
  | some existingID => existingID ≠ id
  | none => false

/-- The configuration `AddConfig` would file. -/
def PortForwardConfig.stamp (newID : String) (now : Nat)
    (cfg : PortForwardConfig) : PortForwardConfig :=
  { cfg with id := if cfg.id = "" then newID else cfg.id
             createdAt := now }

def Manager.addConfig (newID : String) (now : Nat)
    (cfg : PortForwardConfig) (m : Manager) : Effect :=
  let cfg := cfg.stamp newID now
  if m.portTaken cfg.localPort cfg.id then
    { manager := m
      out := [.returned (.error (alreadyUsed cfg.localPort))] }
  else
    let m := m.load cfg
    { manager := m
      out := [.saved m.configs,
        .event { type := .configAdded, configID := cfg.id, config := some cfg },
        .returned (.config cfg)] }

/-- The end of `UpdateConfig`, where the port is settled. -/
def Manager.replaceConfig (existing cfg : PortForwardConfig)
    (m : Manager) : Effect :=
  let cfg := { cfg with createdAt := existing.createdAt }
  let m := { m with configs := m.configs.insert cfg.id cfg }
  { manager := m
    out := [.saved m.configs,
      .event { type := .configUpdated, configID := cfg.id, config := some cfg },
      .returned .ok] }

def Manager.updateConfig (cfg : PortForwardConfig) (m : Manager) :
    Effect :=
  match m.configs.lookup cfg.id with
  | none =>
    { manager := m, out := [.returned (.error (notFound cfg.id))] }
  | some existing =>
    if existing.localPort = cfg.localPort then
      m.replaceConfig existing cfg
    else if m.portTaken cfg.localPort cfg.id then
      { manager := m
        out := [.returned (.error (alreadyUsed cfg.localPort))] }
    else
      { m with
        usedPorts := (m.usedPorts.erase existing.localPort).insert
          cfg.localPort cfg.id }.replaceConfig existing cfg

/-- The end of `DeleteConfig`, from where it holds the mutex for the
last time. -/
def Manager.finishDelete (configID : String) (localPort : Int)
    (m : Manager) : Effect :=
  let m := { m with usedPorts := m.usedPorts.erase localPort
                    configs := m.configs.erase configID }
  { manager := m
    frames := [.emitEvent { type := .configRemoved, configID },
      .reply .ok]
    out := [.saved m.configs] }

def Manager.deleteConfig (configID : String) (m : Manager) : Effect :=
  match m.configs.lookup configID with
  | none =>
    { manager := m, out := [.returned (.error (notFound configID))] }
  | some cfg =>
    if configID ∈ m.active then
      { manager := m
        frames := [.call (.stop configID),
          .finishDelete configID cfg.localPort] }
    else m.finishDelete configID cfg.localPort

/-- `CleanupIngressConfigs` matches a configuration. -/
def PortForwardConfig.ingress (contextName : String)
    (cfg : PortForwardConfig) : Bool :=
  cfg.context = contextName && "Ingress ".toList.isPrefixOf cfg.label.toList

-- ======== forwards

/-- File a new forward under the ID it is started for. -/
def Manager.register (configID : String) (cfg : PortForwardConfig)
    (now : Nat) (m : Manager) : Manager :=
  { m with
    active := m.active.insert configID m.forwards.length
    forwards := m.forwards ++ [⟨cfg, .starting, "", now, false, false, false⟩] }

def Manager.start (available : Bool) (now : Nat) (configID : String)
    (m : Manager) : Effect :=
  match m.configs.lookup configID with
  | none =>
    { manager := m, out := [.returned (.error (notFound configID))] }
  | some cfg =>
    if configID ∈ m.active then
      { manager := m
        out := [.returned (.error
          s!"port forward already running for {configID}")] }
    else if ¬ available then
      { manager := m
        out := [.returned (.error
          s!"local port {cfg.localPort} is not available")] }
    else
      { manager := m.register configID cfg now
        frames := [
          .emitEvent { type := .started, configID, config := some cfg
                       status := some .starting },
          .spawn m.forwards.length, .reply .ok] }

/-- `Stop`, up to where it lets go of the mutex. -/
def Manager.stop (configID : String) (m : Manager) : Effect :=
  match m.active.lookup configID with
  | none =>
    { manager := m
      out := [.returned (.error
        s!"no active port forward for {configID}")] }
  | some af =>
    { manager := m
      frames := [.signal af, .wait af, .remove configID,
        .emitEvent { type := .status .stopped, configID
                     status := some .stopped },
        .reply .ok] }

def Manager.modifyForward (af : Nat)
    (f : ActivePortForward → ActivePortForward) (m : Manager) : Manager :=
  { m with forwards := m.forwards.modify af f }

/-- The critical section of `updateStatus`: whatever forward is filed
under the ID gets the status. -/
def Manager.updateStatus (configID : String) (status : Status)
    (errMsg : String) (m : Manager) : Manager :=
  match m.active.lookup configID with
  | none => m
  | some af => m.modifyForward af ({ · with status, error := errMsg })

/-- The type of the event `updateStatus` emits. -/
def Status.eventType (status : Status) : EventType :=
  if status = .running then .started else .status status

-- ======== goroutines

/-- `time.Second`. -/
def second : Nat := 1000000000

def maxRetries : Int := 10

/-- One step of `runWithReconnect`, `runPortForward` included, of the
forward at `i`: what its goroutine does next. A `select` with a ready
`stopChan` may still take its other case. -/
def ActivePortForward.runWithReconnect (i : Nat) (attempt : Int)
    (backoff : Nat) (af : ActivePortForward) :
    Point → Env → Option (List Frame)
  | .retry, .go =>
    if attempt < maxRetries then
      if af.stopClosed then some []
      else some [.runWithReconnect i .connect attempt backoff]
    else
      some [.updateStatus af.config.id .error
        "Connection lost: max reconnect attempts exceeded"]
  | .connect, .ready =>
    some [.updateStatus af.config.id .running "",
      .runWithReconnect i .serve attempt backoff]
  | .connect, .lost =>
    some [.runWithReconnect i (.returned false) attempt backoff]
  | .connect, .go =>
    if af.stopClosed then
      some [.runWithReconnect i (.returned false) attempt backoff]
    else none
  | .serve, .lost =>
    some [.runWithReconnect i (.returned true) attempt backoff]
  | .serve, .go =>
    if af.stopClosed then
      some [.runWithReconnect i (.returned true) attempt backoff]
    else none
  | .returned wasConnected, .go =>
    if af.stopClosed then some []
    else
      let attempt := if wasConnected then -1 else attempt
      let backoff := if wasConnected then second else backoff
      some [.updateStatus af.config.id .reconnecting
          s!"Reconnecting (attempt {attempt + 1}/{maxRetries})...",
        .runWithReconnect i .backingOff attempt backoff]
  | .backingOff, .go => if af.stopClosed then some [] else none
  | .backingOff, .elapsed =>
    let backoff := min (backoff * 2) (30 * second)
    if af.config.resourceType = "pod" then
      some [.runWithReconnect i .probe attempt backoff]
    else some [.runWithReconnect i .retry (attempt + 1) backoff]
  | .probe, .alive alive =>
    if alive then
      some [.runWithReconnect i .retry (attempt + 1) backoff]
    else
      some [.updateStatus af.config.id .error "Pod no longer exists"]
  | _, _ => none

/-- The forwards `StopAllForContext` stops. -/
def Manager.stopsForContext (m : Manager) (contextName : String)
    (id : String) : Bool :=
  (m.configs.lookup id).any fun cfg =>
    cfg.context = contextName && !cfg.keepAlive && decide (id ∈ m.active)

/-- The forwards `StartAutoStart` starts. -/
def Manager.autoStarts (m : Manager) (contextName : String)
    (id : String) : Bool :=
  (m.configs.lookup id).any fun cfg =>
    cfg.autoStart && decide (id ∉ m.active)
      && (cfg.context = contextName || cfg.keepAlive)

/-- The configurations `CleanupIngressConfigs` deletes. -/
def Manager.cleansUp (m : Manager) (contextName : String)
    (id : String) : Bool :=
  (m.configs.lookup id).any (·.ingress contextName)

/-- A method that collects IDs from a map and calls another method for
each. -/
def Manager.forEach (ids : List String) (call : String → Call)
    (m : Manager) : Effect :=
  { manager := m
    frames := ids.map (fun id => .call (call id)) ++ [.reply .ok] }

/-- What a method does, up to where it lets go of the mutex. -/
def Call.exec (m : Manager) : Call → Env → Option Effect
  | .addConfig cfg, .added newID now => some (m.addConfig newID now cfg)
  | .updateConfig cfg, .go => some (m.updateConfig cfg)
  | .deleteConfig configID, .go => some (m.deleteConfig configID)
  | .start configID, .started available now =>
    some (m.start available now configID)
  | .stop configID, .go => some (m.stop configID)
  | .stopAll, .order ids =>
    if FinMap.Enumerates ids m.active then some (m.forEach ids .stop)
    else none
  | .cleanupIngressConfigs contextName, .order ids =>
    if FinMap.Enumerates ids m.configs then
      some (m.forEach (ids.filter (m.cleansUp contextName)) .deleteConfig)
    else none
  | .stopAllForContext contextName, .order ids =>
    if FinMap.Enumerates ids m.configs then
      some (m.forEach (ids.filter (m.stopsForContext contextName)) .stop)
    else none
  | .startAutoStart contextName, .order ids =>
    if FinMap.Enumerates ids m.configs then
      some (m.forEach (ids.filter (m.autoStarts contextName)) .start)
    else none
  | _, _ => none

def Frame.exec (m : Manager) : Frame → Env → Option Effect
  | .call method, env => method.exec m env
  | .emitEvent event, .go => some { manager := m, out := [.event event] }
  | .reply result, .go => some { manager := m, out := [.returned result] }
  | .spawn af, .go =>
    some { manager := m.modifyForward af ({ · with spawned := true })
           spawned := [[.runWithReconnect af .retry 0 second,
             .closeDone af]] }
  | .signal af, .go =>
    some { manager := m.modifyForward af ({ · with stopClosed := true }) }
  | .wait af, .go =>
    if (m.forwards[af]?.any (·.doneClosed)) then some { manager := m }
    else none
  | .wait _, .timeout => some { manager := m }
  | .remove configID, .go =>
    some { manager := { m with active := m.active.erase configID } }
  | .finishDelete configID localPort, .go =>
    some (m.finishDelete configID localPort)
  | .runWithReconnect af point attempt backoff, env =>
    (m.forwards[af]?.bind fun forward =>
      forward.runWithReconnect af attempt backoff point env).map
        fun frames => { manager := m, frames }
  | .updateStatus configID status errMsg, .go =>
    some { manager := m.updateStatus configID status errMsg
           frames := [.emitEvent
             { type := status.eventType, configID
               status := some status, error := errMsg }] }
  | .closeDone af, .go =>
    some { manager := m.modifyForward af ({ · with doneClosed := true }) }
  | _, _ => none

-- ======== transitions

/-- A manager, and what each goroutine has still to do. -/
structure Sys where
  manager : Manager
  goroutines : List (List Frame)

/-- A manager that has loaded its file. -/
def Sys.init (storage : Option (List PortForwardConfig)) : Sys :=
  ⟨loadConfigs storage, []⟩

/-- A method is called, or a goroutine takes its next step. -/
inductive Act where
  | call (call : Call)
  | run (i : Nat) (env : Env)
deriving DecidableEq

/-- The next thing goroutine `i` has to do, and what is behind it. -/
def Sys.next (s : Sys) (i : Nat) : Option (Frame × List Frame) :=
  match s.goroutines[i]? with
  | some (frame :: rest) => some (frame, rest)
  | _ => none

/-- The transitions of the manager; an output says whose it is. -/
def step : Machine.Step Sys Act (Nat × Out)
  | .call call, s =>
    some ({ s with goroutines := s.goroutines ++ [[.call call]] }, [])
  | .run i env, s =>
    match s.next i with
    | none => none
    | some (frame, rest) =>
      (frame.exec s.manager env).map fun effect =>
        (⟨effect.manager,
          s.goroutines.set i (effect.frames ++ rest)
            ++ effect.spawned⟩,
          effect.out.map (i, ·))

end PortForwardManager

namespace PortForwardManager

open Machine (run)

-- ======== turns

/-- The next thing goroutine `i` has to do is an emission. -/
def Sys.emitsNext (s : Sys) (i : Nat) : Bool :=
  match s.next i with
  | some (.emitEvent _, _) => true
  | _ => false

/-- A method is called, or a goroutine takes its next step and emits
what comes right behind it. -/
def turn : Machine.Step Sys Act (Nat × Out)
  | .call call, s => step (.call call) s
  | .run i env, s =>
    match step (.run i env) s with
    | none => none
    | some (s', out) =>
      if s'.emitsNext i then
        (step (.run i .go) s').map fun r => (r.1, out ++ r.2)
      else some (s', out)

theorem turn_run {act : Act} {s s' : Sys} {out : List (Nat × Out)}
    (h : turn act s = some (s', out)) :
    ∃ acts, run step s acts = some (s', out) := by
  cases act with
  | call call =>
    refine ⟨[.call call], Machine.run_cons_iff.mpr ?_⟩
    exact ⟨s', out, [], h, rfl, (List.append_nil _).symm⟩
  | run i env =>
    simp only [turn] at h
    cases hstep : step (.run i env) s with
    | none =>
      rw [hstep] at h
      cases h
    | some p =>
      obtain ⟨s₁, out₁⟩ := p
      rw [hstep] at h
      simp only at h
      split at h
      next =>
        obtain ⟨⟨s₂, out₂⟩, hemit, heq⟩ := Option.map_eq_some_iff.mp h
        cases heq
        refine ⟨[.run i env, .run i .go], Machine.run_cons_iff.mpr ?_⟩
        refine ⟨s₁, out₁, out₂, hstep, ?_, rfl⟩
        exact Machine.run_cons_iff.mpr
          ⟨s₂, out₂, [], hemit, rfl, (List.append_nil _).symm⟩
      next =>
        cases h
        refine ⟨[.run i env], Machine.run_cons_iff.mpr ?_⟩
        exact ⟨s', out, [], hstep, rfl, (List.append_nil _).symm⟩

def Out.event? : Out → Option PortForwardEvent
  | .event e => some e
  | _ => none

/-- The events among what a turn gives away. -/
def events (out : List (Nat × Out)) : List PortForwardEvent :=
  out.filterMap (·.2.event?)

-- ======== lists

/-- The configuration passes the filter; the empty one filters
nothing. -/
def PortForwardConfig.passes (contextFilter : String)
    (cfg : PortForwardConfig) : Bool :=
  contextFilter = "" || cfg.context = contextFilter

/-- `GetConfigs`, in the order in which `range` meets the keys. -/
def Manager.getConfigs (contextFilter : String) (ids : List String)
    (m : Manager) : List PortForwardConfig :=
  ids.filterMap fun id =>
    (m.configs.lookup id).filter (·.passes contextFilter)

/-- What is serialised of an `ActivePortForward`. -/
structure ActiveForward where
  config : PortForwardConfig
  status : Status
  error : String
  startedAt : Nat
deriving DecidableEq

/-- The copy `GetActiveForwards` makes. -/
def ActivePortForward.copy (af : ActivePortForward) : ActiveForward :=
  ⟨af.config, af.status, af.error, af.startedAt⟩

def Manager.filed (m : Manager) (configID : String) :
    Option ActivePortForward :=
  (m.active.lookup configID).bind (m.forwards[·]?)

/-- `GetActiveForwards`, in the order in which `range` meets the
keys. -/
def Manager.getActiveForwards (ids : List String) (m : Manager) :
    List ActiveForward :=
  ids.filterMap fun id => (m.filed id).map (·.copy)

end PortForwardManager
