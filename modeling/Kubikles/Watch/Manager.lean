/-
The resource watcher manager (app_watchermgr.go) as a machine.

# What is in the state

The manager's map from key to `ResourceWatcher`, the cleanup timers
(each captured a key), and every watch loop ever started. A loop is
named by its position, as is the context it runs on: `Cancel` of a
watcher is the name of its current loop. The struct's `Cancel` is never
nil in the map, so the model has no case for it.

Two things are there for the statements alone. `subscriptions` are the
subscribers, with the key their `Subscribe` returned, whether a
`StopAll` has passed since (`stale`), and whether they have
unsubscribed. `mark` is the number of loops there were when the last
`RestartAll` began.

# What is in an action

One call, which is one critical section of `mutex`; a timer's delay
passing; or a timer's `cleanup` getting the mutex. The order in which
`range` meets the keys is an argument of `StopAll` and `RestartAll`.
-/
import Kubikles.Lib.FinMap
import Kubikles.Lib.Machine
import Kubikles.Lib.Timer

namespace WatcherManager

-- ======== the structs

/-- `atomic.AddInt32`: addition that wraps around at 32 bits. -/
def addInt32 (n delta : Int) : Int := Int.bmod (n + delta) (2 ^ 32)

structure ResourceWatcher where
  key : String
  resourceType : String
  ns : String
  group : String := ""
  version : String := ""
  resource : String := ""
  isCRD : Bool
  refCount : Int
  cancel : Nat
  cleanupTimer : Option Nat := none
  resourceVersion : String := ""
deriving DecidableEq, Repr

/-- A watch loop, as it is started. -/
inductive Launch where
  | watchResourceLoop (resourceType ns : String)
  | watchCRDLoop (group version resource ns : String)
deriving DecidableEq, Repr

/-- The key `Subscribe` files a resource watcher under. -/
def resourceKey (resourceType ns : String) : String :=
  resourceType ++ ":" ++ ns

/-- The key `SubscribeCRD` files a CRD watcher under. -/
def crdKey (group version resource ns : String) : String :=
  "crd:" ++ group ++ "/" ++ version ++ "/" ++ resource ++ ":" ++ ns

/-- The key a loop emits its events under. -/
def Launch.key : Launch → String
  | .watchResourceLoop resourceType ns => resourceKey resourceType ns
  | .watchCRDLoop group version resource ns =>
    crdKey group version resource ns

/-- A loop that was started, and whether its context is cancelled. -/
structure WatchLoop where
  launch : Launch
  cancelled : Bool
deriving DecidableEq, Repr

structure Subscription where
  key : String
  stale : Bool
  unsubscribed : Bool
deriving DecidableEq, Repr

/-- A subscriber that has not unsubscribed, and that no `StopAll` has
cut off. -/
def Subscription.Live (sub : Subscription) : Prop :=
  sub.stale = false ∧ sub.unsubscribed = false

instance (sub : Subscription) : Decidable sub.Live :=
  inferInstanceAs (Decidable (_ ∧ _))

/-- A manager, its timers, its loops and its subscribers. -/
structure Sys where
  watchers : FinMap String ResourceWatcher
  timers : Timers String
  loops : List WatchLoop
  subscriptions : List Subscription
  mark : Nat

/-- `NewResourceWatcherManager`. -/
def Sys.init : Sys where
  watchers := ∅
  timers := []
  loops := []
  subscriptions := []
  mark := 0

-- ======== methods

def cancelLoop (ctx : Nat) (loops : List WatchLoop) : List WatchLoop :=
  loops.modify ctx fun l => { l with cancelled := true }

/-- `Subscribe` and `SubscribeCRD`: reuse the watcher of the key, or
file `watcher` (on the context about to be created) and start its
loop. -/
def Sys.subscribeKey (key : String) (watcher : Nat → ResourceWatcher)
    (launch : Launch) (s : Sys) : Sys × List Launch :=
  let subscriptions := s.subscriptions ++ [⟨key, false, false⟩]
  match s.watchers.lookup key with
  | some w =>
    ({ s with
      timers := Timers.stopAt w.cleanupTimer s.timers
      watchers := s.watchers.insert key { w with
        cleanupTimer := none, refCount := addInt32 w.refCount 1 }
      subscriptions }, [])
  | none =>
    ({ s with
      watchers := s.watchers.insert key (watcher s.loops.length)
      loops := s.loops ++ [⟨launch, false⟩]
      subscriptions }, [launch])

def Sys.subscribe (resourceType ns : String) (s : Sys) :
    Sys × List Launch :=
  let key := resourceKey resourceType ns
  s.subscribeKey key
    (fun cancel =>
      { key, resourceType, ns, isCRD := false, refCount := 1, cancel })
    (.watchResourceLoop resourceType ns)

def Sys.subscribeCRD (group version resource ns : String) (s : Sys) :
    Sys × List Launch :=
  let key := crdKey group version resource ns
  s.subscribeKey key
    (fun cancel =>
      { key, resourceType := resource, ns, group, version, resource
        isCRD := true, refCount := 1, cancel })
    (.watchCRDLoop group version resource ns)

/-- `Unsubscribe`. A timer the watcher still names is overwritten, not
stopped. -/
def Sys.unsubscribe (watcherKey : String) (s : Sys) : Sys :=
  match s.watchers.lookup watcherKey with
  | none => s
  | some w =>
    let newCount := addInt32 w.refCount (-1)
    if newCount ≤ 0 then
      { s with
        watchers := s.watchers.insert watcherKey { w with
          refCount := newCount, cleanupTimer := some s.timers.length }
        timers := Timers.start watcherKey s.timers }
    else
      { s with
        watchers :=
          s.watchers.insert watcherKey { w with refCount := newCount } }

def Sys.cleanup (watcherKey : String) (s : Sys) : Sys :=
  match s.watchers.lookup watcherKey with
  | none => s
  | some w =>
    if 0 < w.refCount then s
    else
      { s with
        loops := cancelLoop w.cancel s.loops
        watchers := s.watchers.erase watcherKey }

/-- The body of the loop in `StopAll`. -/
def Sys.stopWatcher (s : Sys) (key : String) : Sys :=
  match s.watchers.lookup key with
  | none => s
  | some w =>
    { s with
      timers := Timers.stopAt w.cleanupTimer s.timers
      loops := cancelLoop w.cancel s.loops }

def Sys.stopAll (order : List String) (s : Sys) : Sys :=
  { order.foldl Sys.stopWatcher s with
    watchers := ∅
    subscriptions := s.subscriptions.map ({ · with stale := true }) }

/-- The loop `RestartAll` starts for a watcher. -/
def ResourceWatcher.launch (w : ResourceWatcher) : Launch :=
  if w.isCRD then .watchCRDLoop w.group w.version w.resource w.ns
  else .watchResourceLoop w.resourceType w.ns

/-- The body of the loop in `RestartAll`. -/
def Sys.restartWatcher (s : Sys × List Launch) (key : String) :
    Sys × List Launch :=
  match s.1.watchers.lookup key with
  | none => s
  | some w =>
    if w.refCount ≤ 0 then s
    else
      ({ s.1 with
        loops := cancelLoop w.cancel s.1.loops ++ [⟨w.launch, false⟩]
        watchers := s.1.watchers.insert key { w with
          resourceVersion := "", cancel := s.1.loops.length } },
        s.2 ++ [w.launch])

def Sys.restartAll (order : List String) (s : Sys) : Sys × List Launch :=
  order.foldl Sys.restartWatcher ({ s with mark := s.loops.length }, [])

-- ======== transitions

/-- One critical section of the manager, or a timer's delay passing. -/
inductive Act where
  | subscribe (resourceType ns : String)
  | subscribeCRD (group version resource ns : String)
  | unsubscribe (subscriber : Nat)
  | timerFires (timer : Nat)
  | cleanup (timer : Nat)
  | stopAll (order : List String)
  | restartAll (order : List String)

/-- The transitions of the manager. A subscriber unsubscribes at most
once, with the key its own `Subscribe` returned. -/
def step : Machine.Step Sys Act Launch
  | .subscribe resourceType ns, s => some (s.subscribe resourceType ns)
  | .subscribeCRD group version resource ns, s =>
    some (s.subscribeCRD group version resource ns)
  | .unsubscribe i, s =>
    match s.subscriptions[i]? with
    | some ⟨key, stale, false⟩ =>
      some ({ s with subscriptions :=
        s.subscriptions.set i ⟨key, stale, true⟩ }.unsubscribe key, [])
    | _ => none
  | .timerFires i, s =>
    (Timers.fire i s.timers).map fun ts => ({ s with timers := ts }, [])
  | .cleanup i, s =>
    (Timers.take i s.timers).map fun (key, ts) =>
      ({ s with timers := ts }.cleanup key, [])
  | .stopAll order, s =>
    if FinMap.Enumerates order s.watchers then
      some (s.stopAll order, [])
    else none
  | .restartAll order, s =>
    if FinMap.Enumerates order s.watchers then
      some (s.restartAll order)
    else none

end WatcherManager
