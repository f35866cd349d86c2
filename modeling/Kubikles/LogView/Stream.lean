/-
The stream of the log viewer
(frontend/src/components/shared/log-viewer/useLogStream.ts).

# What is in the state

`Hook` is what the hook keeps of its stream: the ref with its id, the
two flags of a lost connection, the logs shown, and whether it is
mounted and its tab stale. `starts` are the calls of the backend's
Start functions that the hook awaits, with the id the backend has made
for each once it has served it. `streams` are the backend's streams in
the order they were made; an id is a place in that list. `discarded`
are the entries that the hook's handlers were given and did not show.

# What is in an action

A function of the hook or an effect, the backend serving a start call,
the response of one, or an event of a stream, which is where the hook
handles it. `setLogs` stands for everything else that changes what is
shown: the loads, and the viewer itself.
-/
import Kubikles.Lib.Machine
import Kubikles.LogView.Lines

namespace StreamHook

open LogView
open Machine (Step)

-- ======== the state

structure Hook where
  streamIdRef : Option Nat := none
  streamDisconnected : Bool := false
  disconnectReason : String := ""
  logs : List LogEntry := []
  isStale : Bool := false
  mounted : Bool := true
deriving DecidableEq, Repr

/-- A stream of the backend. It has ended for the hook once it has been
told so. -/
structure Stream where
  stopped : Bool := false
  ended : Bool := false
  discarded : List LogEntry := []
deriving DecidableEq, Repr

/-- Nobody has stopped the stream and it has not ended. -/
def Stream.live (stream : Stream) : Bool :=
  !stream.stopped && !stream.ended

/-- The hook and the backend. -/
structure Sys where
  hook : Hook := {}
  starts : List (Option Nat) := []
  streams : List Stream := []
deriving DecidableEq, Repr

structure LogStreamEvent where
  streamId : Nat
  line : String := ""
  done : Bool := false
  error : String := ""
deriving DecidableEq, Repr

structure LogStreamBatchEvent where
  streamId : Nat
  lines : List String
deriving DecidableEq, Repr

/-- What reaches the hook over its two channels. -/
inductive Event where
  | logStream (event : LogStreamEvent)
  | logStreamBatch (event : LogStreamBatchEvent)
deriving DecidableEq, Repr

def Event.streamId : Event → Nat
  | .logStream event => event.streamId
  | .logStreamBatch event => event.streamId

/-- The event says that its stream is over. -/
def Event.ends : Event → Bool
  | .logStream event => event.done || event.error ≠ ""
  | .logStreamBatch _ => false

def Event.entries : Event → List LogEntry
  | .logStream event =>
    if event.done || event.error ≠ "" then []
    else parseLogLines event.line .stream
  | .logStreamBatch event =>
    event.lines.flatMap fun line => parseLogLines line .stream

inductive Act where
  | startStreaming
  | stopStreaming
  | fetchLogs
  | loadAllLogs
  | setLogs (logs : List LogEntry)
  | setIsStale (isStale : Bool)
  | unmount
  | serve (call : Nat)
  | respond (call : Nat)
  | fail (call : Nat)
  | event (event : Event)
deriving DecidableEq, Repr

-- ======== the transitions

namespace Sys

def stopLogStream (id : Nat) (s : Sys) : Sys :=
  { s with streams := s.streams.modify id ({ · with stopped := true }) }

/-- The stream that the ref names is stopped, and the ref cleared. -/
def stopStreaming (s : Sys) : Sys :=
  match s.hook.streamIdRef with
  | none => s
  | some id =>
    let s := s.stopLogStream id
    { s with hook := { s.hook with streamIdRef := none } }

/-- `startStreaming`, up to its `await`. -/
def startStreaming (s : Sys) : Sys :=
  let s := s.stopStreaming
  { s with starts := s.starts ++ [none] }

/-- What `fetchLogs` does to the stream. -/
def fetchLogs (s : Sys) : Sys :=
  let s := s.stopStreaming
  { s with hook := { s.hook with
      streamDisconnected := false
      disconnectReason := "" } }

/-- What `loadAllLogs` does to the stream. -/
def loadAllLogs (s : Sys) : Sys := s.fetchLogs

/-- The tab becomes stale, or is so no longer. -/
def setIsStale (isStale : Bool) (s : Sys) : Sys :=
  let s := { s with hook := { s.hook with isStale := isStale } }
  if isStale then s.stopStreaming else s

/-- The cleanup on unmount, and the end of the two subscriptions. -/
def unmount (s : Sys) : Sys :=
  let s := s.stopStreaming
  { s with hook := { s.hook with mounted := false } }

/-- The functional update of `processLine` and `processBatch`. -/
def processEntries (entries : List LogEntry) (hook : Hook) : Hook :=
  { hook with
    logs := hook.logs ++ newerThan (lastTimestamp hook.logs) entries }

/-- `handleLogEvent`, of an event that passes the test on its id. -/
def handleLogEvent (event : LogStreamEvent) (hook : Hook) : Hook :=
  if event.done then
    { hook with
      streamIdRef := none
      streamDisconnected := true
      disconnectReason := "Pod terminated or container restarted" }
  else if event.error ≠ "" then
    { hook with
      streamIdRef := none
      streamDisconnected := true
      disconnectReason := event.error }
  else processEntries (parseLogLines event.line .stream) hook

/-- `handleBatchEvent`, of an event that passes the test on its id. -/
def handleBatchEvent (event : LogStreamBatchEvent) (hook : Hook) : Hook :=
  processEntries
    (event.lines.flatMap fun line => parseLogLines line .stream) hook

def handle (hook : Hook) : Event → Hook
  | .logStream event => handleLogEvent event hook
  | .logStreamBatch event => handleBatchEvent event hook

/-- The hook takes an event: it listens, and the ref names the
stream. -/
def takes (event : Event) (hook : Hook) : Bool :=
  hook.mounted && hook.streamIdRef = some event.streamId

/-- The entries of an event that the handlers do not show. Where the
hook is not mounted there are no handlers. -/
def discards (event : Event) (hook : Hook) : List LogEntry :=
  if takes event hook then
    event.entries.filter fun e =>
      e ∉ newerThan (lastTimestamp hook.logs) event.entries
  else if hook.mounted then event.entries
  else []

def deliver (event : Event) (s : Sys) : Sys :=
  { s with
    hook := if takes event s.hook then handle s.hook event else s.hook
    streams := s.streams.modify event.streamId fun stream =>
      { stream with
        ended := stream.ended || event.ends
        discarded := stream.discarded ++ discards event s.hook } }

end Sys

/-- The transitions. The backend serves a start call once and answers it
once; a stream that is over has no more lines. -/
def step : Step Sys Act Empty
  | .startStreaming, s => some (s.startStreaming, [])
  | .stopStreaming, s => some (s.stopStreaming, [])
  | .fetchLogs, s => some (s.fetchLogs, [])
  | .loadAllLogs, s => some (s.loadAllLogs, [])
  | .setLogs logs, s =>
    some ({ s with hook := { s.hook with logs := logs } }, [])
  | .setIsStale isStale, s => some (s.setIsStale isStale, [])
  | .unmount, s => if s.hook.mounted then some (s.unmount, []) else none
  | .serve call, s =>
    match s.starts[call]? with
    | some none =>
      some ({ s with
        starts := s.starts.set call (some s.streams.length)
        streams := s.streams ++ [{}] }, [])
    | _ => none
  | .respond call, s =>
    match s.starts[call]? with
    | some (some id) =>
      some ({ s with
        hook := { s.hook with streamIdRef := some id }
        starts := s.starts.eraseIdx call }, [])
    | _ => none
  | .fail call, s =>
    match s.starts[call]? with
    | some none => some ({ s with starts := s.starts.eraseIdx call }, [])
    | _ => none
  | .event event, s =>
    match s.streams[event.streamId]? with
    | none => none
    | some stream =>
      if stream.ended ∧ ¬ event.ends then none
      else some (s.deliver event, [])

end StreamHook
