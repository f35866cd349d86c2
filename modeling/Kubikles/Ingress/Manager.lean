/-
The ingress-forward manager (ingressforward.go).

# Goroutines

A method is the frames it runs: a critical section of `mutex`, a call of
the port-forward manager, an update of the hosts file, a listing, an
emission. `Start` lets go of the mutex between any two of them, so it is
in one of many places (`Point`), with what it has in its local variables
(`Local`) and nothing else.

# The world

The state of the manager, the port-forward manager and the hosts file;
beside them what a reader of a run wants to know of the past: the
configurations that were ever created, and whether the entries of the
hosts file could once not be removed.

# Environment

What a frame is told from outside (`Env`): the current context, what the
cluster lists, which ports are free, a new UUID, the time, what the
system answers to an update of the hosts file. The error branch behind
`CollectIngressHostnames` is never taken: it returns no error.
-/
import Kubikles.Forward.Atomic
import Kubikles.Ingress.Hosts
import Kubikles.Lib.Goroutine
import Kubikles.Lib.StableSort

namespace IngressForwardManager

open Hosts (Host HostsError Entry)
open PortForwardManager (PortForwardConfig)

-- ======== the structs

structure IngressController where
  ns : String
  name : String
  type : String
  httpPort : Int
  httpsPort : Int
deriving DecidableEq

inductive Status where
  | stopped
  | starting
  | running
  | error
deriving DecidableEq

/-- An error that is returned or shown. -/
inductive Err where
  | text (message : String)
  | hosts (err : HostsError)
  /-- `Port forwarding active but hosts file update failed: …`. -/
  | hostsUpdateFailed (err : HostsError)
deriving DecidableEq

structure IngressForwardState where
  active : Bool := false
  status : Status := .stopped
  error : Option Err := none
  context : String := ""
  controller : Option IngressController := none
  localHTTPPort : Int := 0
  localHTTPSPort : Int := 0
  hostnames : List Text := []
  portForwardIDs : List String := []
  hostsFileUpdated : Bool := false
deriving DecidableEq

/-- The type of an `IngressForwardEvent`. -/
inductive EventType where
  | starting
  | started
  | stopped
  | error
  | hostsUpdated
deriving DecidableEq

/-- All that the methods read and write. -/
structure World where
  state : IngressForwardState := {}
  forwards : PortForwardManager.Manager
  hosts : Host
  /-- The configurations that were ever created, by ID. -/
  created : List String := []
  /-- The entries of the hosts file could not be removed. -/
  removalFailed : Bool := false

-- ======== hostnames

/-- An ingress: the host of each rule, and the hosts of each TLS
section. -/
structure Ingress where
  rules : List Text
  tls : List (List Text)
deriving DecidableEq

/-- `'*'`. -/
def asterisk : UInt8 := 42

def isHostname (host : Text) : Bool := host ≠ [] && asterisk ∉ host

/-- `CollectIngressHostnames`; a listing that fails is passed over. -/
def collectIngressHostnames (namespaces : List String)
    (listIngresses : String → Option (List Ingress)) : List Text :=
  let namespaces := if namespaces = [] then [""] else namespaces
  let ingresses := namespaces.flatMap fun ns =>
    (listIngresses ns).getD []
  let hostnames := ingresses.flatMap fun ing =>
    ing.rules ++ ing.tls.flatten
  StableSort.sortBy id (hostnames.filter isHostname).dedup

/-- `127.0.0.1`. -/
def localhost : Text := Text.ofString "127.0.0.1"

def entriesOf (hostnames : List Text) : List Entry :=
  hostnames.map fun hostname => ⟨localhost, hostname⟩

-- ======== calls and frames

inductive Call where
  | start (controller : IngressController) (namespaces : List String)
  | stop
  | refreshHostnames (namespaces : List String)
deriving DecidableEq

/-- The local variables of `Start`. -/
structure Local where
  context : String
  controller : IngressController
  hostnames : List Text := []
  httpsPort : Int := 0
  httpPort : Int := 0
deriving DecidableEq

/-- Where `Start` is. -/
inductive Point where
  /-- About to call `CleanupIngressConfigs`. -/
  | cleanup (namespaces : List String)
  /-- About to call `CollectIngressHostnames`. -/
  | collect (namespaces : List String)
  | setHostnames
  | choosePorts
  | setPorts
  /-- About to call `AddConfig` for HTTPS. -/
  | addHTTPS
  /-- About to call `AddConfig` for HTTP, with the IDs so far. -/
  | addHTTP (ids : List String)
  | setIDs (ids : List String)
  /-- About to call `Start` of the port-forward manager. -/
  | startForward (id : String) (rest : List String)
  /-- About to call `AddEntriesWithPortRedirect`. -/
  | updateHosts
  | hostsUpdated
  | hostsFailed (err : HostsError)
  | setRunning
deriving DecidableEq

/-- Something a goroutine has still to do. -/
inductive Frame where
  | start (controller : IngressController) (namespaces : List String)
  | starting (l : Local) (point : Point)
  | stop
  /-- `Stop`: call `Stop` of the port-forward manager. -/
  | stopForward (id : String)
  /-- `Stop`: call `DeleteConfig`. -/
  | deleteConfig (id : String)
  /-- `Stop`: call `RemoveEntries`. -/
  | removeEntries
  /-- `Stop`: the last critical section. -/
  | reset
  | refreshHostnames (namespaces : List String)
  /-- `RefreshHostnames`: call `CollectIngressHostnames`. -/
  | recollect (namespaces : List String)
  /-- `RefreshHostnames`: call `AddEntries`. -/
  | addEntries (hostnames : List Text)
  /-- `RefreshHostnames`: the last critical section. -/
  | setRefreshed (hostnames : List Text)
  | setError (err : Err)
  | emitEvent (type : EventType)
  | reply (err : Option Err)
deriving DecidableEq

/-- What the environment tells a frame. -/
inductive Env where
  | go
  | context (name : String)
  | order (ids : List String)
  | listed (listIngresses : String → Option (List Ingress))
  /-- Is port 8443 free, which ports are when the others are looked at,
  is port 8080? -/
  | ports (https : Bool) (isPortAvailable : Int → Bool) (http : Bool)
  | added (id : String) (now : Nat)
  | started (available : Bool) (now : Nat)
  | hosts (env : Hosts.Env)

/-- What the manager gives away: an event for the UI, the result of a
method. -/
inductive Out where
  | event (type : EventType) (state : IngressForwardState)
  | returned (err : Option Err)
deriving DecidableEq

abbrev Effect := Goroutine.Effect World Frame Out

-- ======== Start

/-- `setError`, and an error that is returned behind it. -/
def failed (shown returned : Err) : List Frame :=
  [.setError shown, .reply (some returned)]

def World.modifyState (f : IngressForwardState → IngressForwardState)
    (w : World) : World :=
  { w with state := f w.state }

/-- The HTTPS port of `Start`. -/
def chooseHTTPSPort (https : Bool) (isPortAvailable : Int → Bool)
    (m : PortForwardManager.Manager) : Int :=
  if https then 8443 else m.getAvailablePort 8443 isPortAvailable

def Local.httpsConfig (l : Local) (id : String) : PortForwardConfig where
  id := id
  context := l.context
  ns := l.controller.ns
  resourceType := "service"
  resourceName := l.controller.name
  localPort := l.httpsPort
  remotePort := l.controller.httpsPort
  label := s!"Ingress HTTPS ({l.controller.type})"
  https := true
  keepAlive := true

def Local.httpConfig (l : Local) (id : String) : PortForwardConfig where
  id := id
  context := l.context
  ns := l.controller.ns
  resourceType := "service"
  resourceName := l.controller.name
  localPort := l.httpPort
  remotePort := l.controller.httpPort
  label := s!"Ingress HTTP ({l.controller.type})"
  keepAlive := true

/-- `AddConfig` is called for a configuration. -/
def World.addConfig (cfg : PortForwardConfig) (now : Nat) (w : World) :
    World × Option String :=
  match w.forwards.addConfigNow cfg.id now cfg with
  | (forwards, none) =>
    ({ w with forwards, created := cfg.id :: w.created }, none)
  | (forwards, some message) => ({ w with forwards }, some message)

/-- Behind the port forwards there are to create. -/
def Local.created (l : Local) (ids : List String) : List Frame :=
  if ids = [] then
    failed (.text "failed to create any port forwards")
      (.text "failed to create any port forwards")
  else [.starting l (.setIDs ids)]

def Local.behindHTTPS (l : Local) (ids : List String) : List Frame :=
  if 0 < l.httpPort ∧ 0 < l.controller.httpPort then
    [.starting l (.addHTTP ids)]
  else l.created ids

def Local.behindPorts (l : Local) : List Frame :=
  if 0 < l.controller.httpsPort then [.starting l .addHTTPS]
  else l.behindHTTPS []

def Local.startForwards (l : Local) : List String → List Frame
  | [] => [.starting l .updateHosts]
  | id :: rest => [.starting l (.startForward id rest)]

/-- What `Start` does at a point. -/
def Local.exec (l : Local) (w : World) : Point → Env → Option Effect
  | .cleanup namespaces, .order ids =>
    if FinMap.Enumerates ids w.forwards.configs then
      some { world := { w with forwards :=
                w.forwards.cleanupIngressConfigsNow ids l.context }
             frames := [.starting l (.collect namespaces)] }
    else none
  | .collect namespaces, .listed listIngresses =>
    let hostnames := collectIngressHostnames namespaces listIngresses
    some { world := w
           frames :=
             if hostnames = [] then
               failed (.text "no ingress hostnames found in cluster")
                 (.text "no ingress hostnames found")
             else [.starting { l with hostnames } .setHostnames] }
  | .setHostnames, .go =>
    some { world := w.modifyState ({ · with
             hostnames := l.hostnames, controller := some l.controller })
           frames := [.starting l .choosePorts] }
  | .choosePorts, .ports https isPortAvailable http =>
    let l := { l with
      httpsPort := chooseHTTPSPort https isPortAvailable w.forwards
      httpPort := if http then 8080 else 0 }
    some { world := w, frames := [.starting l .setPorts] }
  | .setPorts, .go =>
    some { world := w.modifyState ({ · with
             localHTTPPort := l.httpPort, localHTTPSPort := l.httpsPort })
           frames := l.behindPorts }
  | .addHTTPS, .added id now =>
    match w.addConfig (l.httpsConfig id) now with
    | (w, none) => some { world := w, frames := l.behindHTTPS [id] }
    | (w, some message) =>
      some { world := w
             frames := failed (.text
               s!"failed to create HTTPS port forward config: {message}")
               (.text message) }
  | .addHTTP ids, .added id now =>
    match w.addConfig (l.httpConfig id) now with
    | (w, none) => some { world := w, frames := l.created (ids ++ [id]) }
    | (w, some _) => some { world := w, frames := l.created ids }
  | .setIDs ids, .go =>
    some { world := w.modifyState ({ · with portForwardIDs := ids })
           frames := l.startForwards ids }
  | .startForward id rest, .started available now =>
    match w.forwards.startNow available now id with
    | (forwards, none) =>
      some { world := { w with forwards }
             frames := l.startForwards rest }
    | (forwards, some message) =>
      some { world := { w with forwards }
             frames := .stop :: failed (.text
               s!"failed to start port forward: {message}")
               (.text message) }
  | .updateHosts, .hosts env =>
    match w.hosts.addEntriesWithPortRedirect env (entriesOf l.hostnames)
      l.httpsPort l.httpPort with
    | (hosts, none) =>
      some { world := { w with hosts }
             frames := [.starting l .hostsUpdated] }
    | (hosts, some err) =>
      some { world := { w with hosts }
             frames := [.starting l (.hostsFailed err)] }
  | .hostsUpdated, .go =>
    some { world := w.modifyState fun state =>
             { state with
               hostsFileUpdated := true
               localHTTPSPort := 443
               localHTTPPort :=
                 if 0 < l.httpPort then 80 else state.localHTTPPort }
           frames := [.starting l .setRunning] }
  | .hostsFailed err, .go =>
    some { world := w.modifyState ({ · with
             hostsFileUpdated := false
             error := some (.hostsUpdateFailed err) })
           frames := [.starting l .setRunning] }
  | .setRunning, .go =>
    some { world := w.modifyState ({ · with status := .running })
           frames := [.emitEvent .started, .reply none] }
  | _, _ => none

/-- `Start`, its first critical section. -/
def World.start (context : String) (controller : IngressController)
    (namespaces : List String) (w : World) : Effect :=
  if w.state.active then
    { world := w
      frames := [.reply
        (some (.text "ingress forwarding is already active"))] }
  else
    { world := w.modifyState ({ · with
        status := .starting, active := true, error := none, context })
      frames := [.emitEvent .starting,
        .starting { context, controller } (.cleanup namespaces)] }

-- ======== Stop and the rest

/-- Behind the first critical section of `Stop`. -/
def stopFrames (portForwardIDs : List String) (hostsFileUpdated : Bool) :
    List Frame :=
  portForwardIDs.flatMap (fun id => [.stopForward id, .deleteConfig id])
    ++ ((if hostsFileUpdated then [.removeEntries] else [])
      ++ [.reset, .emitEvent .stopped])

/-- `Stop`, its first critical section. -/
def World.stop (w : World) : Effect :=
  { world := w
    frames :=
      if w.state.active then
        stopFrames w.state.portForwardIDs w.state.hostsFileUpdated
      else [] }

/-- `RefreshHostnames`, its first critical section. -/
def World.refreshHostnames (namespaces : List String) (w : World) :
    Effect :=
  { world := w
    frames :=
      if w.state.active then [.recollect namespaces]
      else [.reply (some (.text "ingress forwarding is not active"))] }

def exec : Goroutine.Exec World Frame Env Out
  | .start controller namespaces, .context context, w =>
    some (w.start context controller namespaces)
  | .starting l point, env, w => l.exec w point env
  | .stop, .go, w => some w.stop
  | .stopForward id, .go, w =>
    some { world := { w with forwards := (w.forwards.stopNow id).1 } }
  | .deleteConfig id, .go, w =>
    some { world :=
      { w with forwards := (w.forwards.deleteConfigNow id).1 } }
  | .removeEntries, .hosts env, w =>
    match w.hosts.removeEntries env with
    | (hosts, none) => some { world := { w with hosts } }
    | (hosts, some _) =>
      some { world := { w with hosts, removalFailed := true } }
  | .reset, .go, w => some { world := { w with state := {} } }
  | .refreshHostnames namespaces, .go, w =>
    some (w.refreshHostnames namespaces)
  | .recollect namespaces, .listed listIngresses, w =>
    some { world := w
           frames := [.addEntries
             (collectIngressHostnames namespaces listIngresses)] }
  | .addEntries hostnames, .hosts env, w =>
    match w.hosts.addEntries env (entriesOf hostnames) with
    | (hosts, none) =>
      some { world := { w with hosts }
             frames := [.setRefreshed hostnames] }
    | (hosts, some err) =>
      some { world := { w with hosts }
             frames := [.reply (some (.hosts err))] }
  | .setRefreshed hostnames, .go, w =>
    some { world := w.modifyState ({ · with
             hostnames, hostsFileUpdated := true })
           frames := [.emitEvent .hostsUpdated, .reply none] }
  | .setError err, .go, w =>
    some { world := w.modifyState ({ · with
             status := .error, error := some err, active := false })
           frames := [.emitEvent .error] }
  | .emitEvent type, .go, w =>
    some { world := w, out := [.event type w.state] }
  | .reply err, .go, w => some { world := w, out := [.returned err] }
  | _, _, _ => none

def Call.frames : Call → List Frame
  | .start controller namespaces => [.start controller namespaces]
  | .stop => [.stop, .reply none]
  | .refreshHostnames namespaces => [.refreshHostnames namespaces]

-- ======== the runs

abbrev Sys := Goroutine.Sys World Frame

/-- A call is made, or a goroutine runs its next frame. -/
abbrev Act := Goroutine.Act Call Env

/-- The transitions: any interleaving of calls. -/
def step : Machine.Step Sys Act (Nat × Out) :=
  Goroutine.step exec Call.frames

/-- `NewIngressForwardManager`, of an application that may have port
forwards already. -/
def World.init (forwards : PortForwardManager.Manager) (hosts : Host) :
    World :=
  { forwards, hosts }

/-- What a call returns, and the world it leaves. -/
structure Return where
  err : Option Err
  world : World

/-- The result among what a call gives away. -/
def replied (out : List Out) : Option (Option Err) :=
  match out.getLast? with
  | some (.returned err) => some err
  | _ => none

/-- Calls one after the other: a call with all it is told on the way. -/
def calls : Machine.Step World (Call × List Env) Return :=
  fun (call, envs) w =>
    match Goroutine.complete exec envs call.frames w with
    | some (w', out) => (replied out).map fun err => (w', [⟨err, w'⟩])
    | none => none

end IngressForwardManager
