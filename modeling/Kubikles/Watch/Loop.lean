/-
The watch loops (app_watchers.go) and the version they share.

# One loop

`watchResourceLoop` and `watchCRDLoop` differ in what they watch and in
nothing else, so they are one machine with a `Launch`. A loop's state is
where its goroutine is (`Pc`) and its failure count; a step is what lies
between two points where another goroutine can be seen: a `select`, a
lock of the version, a call to the client. Where `select` has two ready
cases the action says which one it takes. So a cancelled loop may still
receive an event, and only at the guards does it look at its context.

# Several loops

The loops of a watcher share its `ResourceVersion`. `RestartAll` cancels
the current loop, clears the version and starts the next loop, in that
order and without holding the lock of the version throughout, so the
cancelled loop may run in between (`Restart`). `opened` and `received`
are there for the statements alone: the versions a loop has passed to
the client, and those its streams have delivered.
-/
import Kubikles.Watch.Manager
import Kubikles.Watch.Coalescer

namespace WatchLoop

open WatcherManager (Launch)

variable {α : Type}

-- ======== one loop

/-- `Launch.resourceType`: the type a loop's events carry. -/
def resourceType : Launch → String
  | .watchResourceLoop resourceType _ => resourceType
  | .watchCRDLoop group version resource _ =>
    "crd:" ++ group ++ "/" ++ version ++ "/" ++ resource

/-- An event of a watch stream: its type, the reason of its object where
that is a `metav1.Status`, and the map its object converts to, if it
does. -/
structure WatchEvent (α : Type) where
  type : EventType
  reason : Option String := none
  object : Option (Resource α) := none
deriving DecidableEq, Repr

/-- The version `setResourceVersion` would store for an event: nothing
where the field is missing, not a string, or empty. -/
def WatchEvent.version (event : WatchEvent α) : Option String :=
  if event.type = .error then none
  else
    ((event.object.bind (·.metadata)).bind (·.resourceVersion)).filter
      (· ≠ "")

/-- The watch has expired: `StatusReasonExpired` or
`StatusReasonGone`. -/
def WatchEvent.expired (event : WatchEvent α) : Bool :=
  event.reason = some "Expired" || event.reason = some "Gone"

/-- Where a loop's goroutine is. -/
inductive Pc (α : Type) where
  /-- Not scheduled yet. -/
  | starting
  | head
  /-- About to read the version. -/
  | reading
  | opening (resourceVersion : String)
  /-- In the `select` of the inner loop. -/
  | streaming (receivedAny : Bool)
  /-- With a received event, before the version is touched. -/
  | handling (event : WatchEvent α)
  | handled (event : WatchEvent α)
  /-- In a `select` with a timer. -/
  | waiting (delay : Nat)
  | stopped
deriving DecidableEq, Repr

/-- A loop; `attached` says whether its lookup found the watcher. -/
structure Loop (α : Type) where
  pc : Pc α
  attached : Bool
  consecutiveFailures : Nat
deriving DecidableEq, Repr

/-- What a loop does that others can see. -/
inductive LoopOut (α : Type) where
  | open (resourceVersion : String)
  | watcherStatus (status : String)
  | watcherError (error : String) (premature receivedAny : Bool)
      (openDurationMillis : Nat)
  | sleep (delay : Nat)
  | emit (event : ResourceEvent α)
deriving DecidableEq, Repr

inductive LoopAct (α : Type) where
  /-- The goroutine starts: is there a client, is the watcher in the
  manager's map? -/
  | start (client attached : Bool)
  | checkContext
  | readVersion
  /-- The client's answer: a stream, or an error. -/
  | openWatch (error : Option String)
  | receive (event : WatchEvent α)
  | touchVersion
  | finishEvent
  | channelClosed (openDuration : Nat)
  | contextDone
  | timerElapsed
deriving DecidableEq, Repr

/-- `time.Second`. -/
def second : Nat := 1000000000

def baseDelay : Nat := 1 * second

def maxDelay : Nat := 2 * 60 * second

/-- The delay behind a failure: exponential, capped. -/
def backoff (consecutiveFailures : Nat) : Nat :=
  let delay := baseDelay * 2 ^ min consecutiveFailures 7
  if maxDelay < delay then maxDelay else delay

/-- `strings.Contains`. -/
def contains (s sub : String) : Bool := sub.toList <:+: s.toList

/-- The server no longer has the version a watch was opened from. -/
def versionLost (resourceVersion error : String) : Bool :=
  resourceVersion ≠ "" && (contains error "too old" || contains error "expired")

def Loop.stop (l : Loop α) : Loop α × List (LoopOut α) :=
  ({ l with pc := .stopped }, [.watcherStatus "stopped"])

/-- What `setResourceVersion` and `clearResourceVersion` do with an
event to the shared version. -/
def WatchEvent.touch (event : WatchEvent α) (attached : Bool)
    (resourceVersion : String) : String :=
  if ¬ attached then resourceVersion
  else if event.type = .error then
    if event.expired then "" else resourceVersion
  else event.version.getD resourceVersion

/-- What a loop emits for an event behind the version's update. -/
def WatchEvent.resourceEvent (launch : Launch) (event : WatchEvent α) :
    Option (ResourceEvent α) :=
  if event.type = .added ∨ event.type = .modified ∨ event.type = .deleted then
    event.object.map fun resource =>
      { type := event.type
        resourceType := resourceType launch
        ns := (resource.metadata.bind (·.ns)).getD ""
        resource }
  else none

/-- The step behind the version's update: an ERROR ends the stream, an
event that is to be emitted meets the context's guard. -/
def Loop.finishEvent (launch : Launch) (cancelled : Bool)
    (event : WatchEvent α) (l : Loop α) : Loop α × List (LoopOut α) :=
  if event.type = .error then
    ({ l with pc := .head
              consecutiveFailures := l.consecutiveFailures + 1 }, [])
  else
    match event.resourceEvent launch with
    | none => ({ l with pc := .streaming true }, [])
    | some resourceEvent =>
      if cancelled then l.stop
      else ({ l with pc := .streaming true }, [.emit resourceEvent])

/-- The channel closed: a stream that delivered nothing within five
seconds counts as a failure. -/
def Loop.channelClosed (receivedAny : Bool) (openDuration : Nat)
    (l : Loop α) : Loop α × List (LoopOut α) :=
  if receivedAny = false ∧ openDuration < 5 * second then
    let consecutiveFailures := l.consecutiveFailures + 1
    let delay := backoff consecutiveFailures
    ({ l with pc := .waiting delay, consecutiveFailures },
      [.watcherError "watch stream closed unexpectedly" true false
          (openDuration / 1000000),
        .watcherStatus "reconnecting", .sleep delay])
  else
    ({ l with pc := .waiting baseDelay, consecutiveFailures := 0 },
      [.watcherStatus "reconnecting", .sleep baseDelay])

def Loop.openFailed (error : String) (l : Loop α) :
    Loop α × List (LoopOut α) :=
  let consecutiveFailures := l.consecutiveFailures + 1
  let delay := backoff consecutiveFailures
  ({ l with pc := .waiting delay, consecutiveFailures },
    [.watcherError error false false 0, .watcherStatus "reconnecting",
      .sleep delay])

/-- One step of a loop whose context is or is not cancelled, on the
shared version. -/
def watchLoop (launch : Launch) (cancelled : Bool) (resourceVersion : String)
    (act : LoopAct α) (l : Loop α) :
    Option (String × Loop α × List (LoopOut α)) :=
  match l.pc, act with
  | .starting, .start client attached =>
    if client then
      some (resourceVersion, { l with pc := .head, attached }, [])
    else some (resourceVersion, l.stop)
  | .head, .checkContext =>
    if cancelled then some (resourceVersion, l.stop)
    else some (resourceVersion, { l with pc := .reading }, [])
  | .reading, .readVersion =>
    some (resourceVersion,
      { l with pc := .opening (if l.attached then resourceVersion else "") },
      [])
  | .opening rv, .openWatch none =>
    some (resourceVersion, { l with pc := .streaming false },
      [.open rv, .watcherStatus "connected"])
  | .opening rv, .openWatch (some error) =>
    let (l', out) := l.openFailed error
    some (if versionLost rv error && l.attached then "" else resourceVersion,
      l', .open rv :: out)
  | .streaming _, .receive event =>
    some (resourceVersion,
      { l with pc := .handling event, consecutiveFailures := 0 }, [])
  | .streaming receivedAny, .channelClosed openDuration =>
    some (resourceVersion, l.channelClosed receivedAny openDuration)
  | .streaming _, .contextDone =>
    if cancelled then some (resourceVersion, l.stop) else none
  | .handling event, .touchVersion =>
    some (event.touch l.attached resourceVersion,
      { l with pc := .handled event }, [])
  | .handled event, .finishEvent =>
    some (resourceVersion, l.finishEvent launch cancelled event)
  | .waiting _, .timerElapsed =>
    some (resourceVersion, { l with pc := .head }, [])
  | .waiting _, .contextDone =>
    if cancelled then some (resourceVersion, l.stop) else none
  | _, _ => none

def watchResourceLoop (resourceType ns : String) :=
  watchLoop (α := α) (.watchResourceLoop resourceType ns)

def watchCRDLoop (group version resource ns : String) :=
  watchLoop (α := α) (.watchCRDLoop group version resource ns)

-- ======== several loops

/-- A loop of a watcher, with its context and its history. -/
structure Running (α : Type) where
  loop : Loop α
  cancelled : Bool
  received : List String
  opened : List String

/-- A loop that `go` has just started. -/
def Running.launched : Running α :=
  ⟨⟨.starting, false, 0⟩, false, [], []⟩

/-- Where a `RestartAll` in progress is with this watcher. -/
inductive Restart where
  | idle
  | cancelled
  | cleared
deriving DecidableEq, Repr

/-- A watcher: the version its loops share, and all loops it has had,
the current one last. -/
structure Sys (α : Type) where
  resourceVersion : String
  loops : List (Running α)
  restart : Restart

/-- A watcher that `Subscribe` has just created. -/
def Sys.init : Sys α := ⟨"", [.launched], .idle⟩

/-- A step of one of the loops, or one of `RestartAll`. -/
inductive Act (α : Type) where
  | loop (i : Nat) (act : LoopAct α)
  | restartCancel
  | restartClear
  | restartLaunch

def receives : LoopAct α → List String
  | .receive event => event.version.toList
  | _ => []

/-- The versions a step passes to the client. -/
def opens (out : List (LoopOut α)) : List String :=
  out.filterMap fun
    | .open resourceVersion => some resourceVersion
    | _ => none

/-- The history of a loop behind a step. -/
def Running.record (act : LoopAct α) (out : List (LoopOut α))
    (r : Running α) : Running α :=
  { r with received := r.received ++ receives act
           opened := r.opened ++ opens out }

def cancelCurrent (loops : List (Running α)) : List (Running α) :=
  loops.modify (loops.length - 1) fun r => { r with cancelled := true }

/-- The transitions of a watcher's loops; an output says whose it is. -/
def step (launch : Launch) :
    Machine.Step (Sys α) (Act α) (Nat × LoopOut α)
  | .loop i act, s =>
    match s.loops[i]? with
    | none => none
    | some r =>
      (watchLoop launch r.cancelled s.resourceVersion act r.loop).map
        fun (resourceVersion, loop, out) =>
          ({ s with
            resourceVersion
            loops := s.loops.set i ({ r with loop }.record act out) },
            out.map (i, ·))
  | .restartCancel, s =>
    if s.restart = .idle then
      some ({ s with loops := cancelCurrent s.loops
                     restart := .cancelled }, [])
    else none
  | .restartClear, s =>
    if s.restart = .cancelled then
      some ({ s with resourceVersion := "", restart := .cleared }, [])
    else none
  | .restartLaunch, s =>
    if s.restart = .cleared then
      some ({ s with loops := s.loops ++ [.launched]
                     restart := .idle }, [])
    else none

end WatchLoop
