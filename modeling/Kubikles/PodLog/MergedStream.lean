/-
Streaming the logs of many pods as one (pkg/k8s/podlogs.go,
`StreamAllPodsLogs`).

# Parties

One producer a stream, each in its own goroutine; a closer, which waits
for all of them; and the consumer, the caller's goroutine. They meet at
two channels of bounded capacity: a send to a full channel waits, and so
does a receive from an empty one that is not closed. A step is one
operation on a channel, the end of a `StreamPodLogs`, or a flush; where a
`select` has several ready cases the action says which it takes.

# Streams

What the producers' `StreamPodLogs` deliver is given (`Behaviour`): some
lines, and then an error or none. The context is not cancelled. Lines
carry the number of their stream along, which the code does not: the
statements need to know whose a line is.
-/
import Kubikles.Lib.Machine
import Kubikles.PodLog.Merge

namespace PodLog

-- ======== values

/-- How a `StreamPodLogs` ends that returns an error: with
`context.Canceled` itself, or with another. -/
inductive StreamError where
  | canceled
  | other (message : Text)
deriving DecidableEq

/-- What a `StreamPodLogs` does. -/
structure Behaviour where
  lines : List Text
  ending : Option StreamError
deriving DecidableEq

/-- A call of `StreamAllPodsLogs`, and what its streams do. -/
structure StreamConfig where
  pods : List PodContainerPair
  allContainers : Bool
  timestamps : Bool
  behaviour : Nat → Behaviour

/-- The streams for many pods. Here the container is part of the mark
only where all containers of the pod are streamed. -/
def streamFetches (pods : List PodContainerPair) (allContainers : Bool) :
    List Fetch :=
  pods.flatMap fun p => (p.wanted allContainers).map fun containerName =>
    ⟨p.podName, containerName,
      if allContainers ∧ 1 < p.containerNames.length then
        p.podName ++ Text.ofString "/" ++ containerName
      else p.podName⟩

def StreamConfig.streams (cfg : StreamConfig) : List Fetch :=
  streamFetches cfg.pods cfg.allContainers

/-- The capacity of `lineChan`. -/
def lineCapacity : Nat := 1000

/-- The capacity of `errChan`. -/
def StreamConfig.errCapacity (cfg : StreamConfig) : Nat :=
  cfg.pods.length * 10

/-- `streamLine`, and the number of its stream. -/
structure StreamLine where
  stream : Nat
  line : TimestampedLogLine
deriving DecidableEq

def StreamConfig.streamLine (cfg : StreamConfig) (i : Nat) (line : Text) :
    StreamLine :=
  ⟨i, timestamped ((cfg.streams[i]?.map (·.tag)).getD []) line⟩

-- ======== states

inductive Producer where
  /-- In `StreamPodLogs`, with lines still to come and then an end. -/
  | streaming (lines : List Text) (ending : Option StreamError)
  /-- About to send its error. -/
  | reporting (err : Text)
  | done
deriving DecidableEq

inductive Consumer where
  /-- In the `select`. -/
  | selecting
  /-- In the loop over `errChan`. -/
  | draining
  | returned
deriving DecidableEq

/-- The goroutines and the channels between them. -/
structure MergedStream where
  producers : List Producer
  lineChan : List StreamLine
  lineClosed : Bool
  errChan : List Text
  errClosed : Bool
  buffer : List StreamLine
  consumer : Consumer
deriving DecidableEq

/-- What the caller sees. -/
inductive StreamOut where
  | onLine (stream : Nat) (line : Text)
  | returned (err : Option Text)
deriving DecidableEq

inductive StreamAct where
  /-- A producer sends its next line. -/
  | send (i : Nat)
  /-- Its `StreamPodLogs` returns. -/
  | streamEnds (i : Nat)
  /-- It sends its error. -/
  | report (i : Nat)
  | closeLines
  | closeErrs
  | receive
  /-- It finds `lineChan` closed. -/
  | receiveClosed
  | tick
  /-- The consumer takes an error, or finds `errChan` closed. -/
  | drain
deriving DecidableEq

def StreamConfig.init (cfg : StreamConfig) : MergedStream :=
  if cfg.pods = [] then ⟨[], [], true, [], true, [], .returned⟩
  else
    { producers := (List.range cfg.streams.length).map fun i =>
        .streaming (cfg.behaviour i).lines (cfg.behaviour i).ending
      lineChan := []
      lineClosed := false
      errChan := []
      errClosed := false
      buffer := []
      consumer := .selecting }

-- ======== transitions

def MergedStream.setProducer (i : Nat) (p : Producer) (s : MergedStream) :
    MergedStream :=
  { s with producers := s.producers.set i p }

/-- What is passed to `onLine` for a line. -/
def StreamConfig.emitted (cfg : StreamConfig) (line : StreamLine) : Text :=
  if cfg.timestamps then line.line.content
  else stripTimestamp line.line.content

def MergedStream.sorted (s : MergedStream) : List StreamLine :=
  StableSort.sortBy (·.line.timestamp) s.buffer

def StreamConfig.flushBuffer (cfg : StreamConfig) (s : MergedStream) :
    MergedStream × List StreamOut :=
  ({ s with buffer := [] },
    s.sorted.map fun line => .onLine line.stream (cfg.emitted line))

/-- Where a producer goes when its `StreamPodLogs` has returned. -/
def afterStream : Option StreamError → Producer
  | none => .done
  | some .canceled => .done
  | some (.other message) => .reporting message

def StreamConfig.step (cfg : StreamConfig) :
    Machine.Step MergedStream StreamAct StreamOut
  | .send i, s =>
    match s.producers[i]? with
    | some (.streaming (line :: lines) ending) =>
      if s.lineChan.length < lineCapacity then
        some ({ s.setProducer i (.streaming lines ending) with
          lineChan := s.lineChan ++ [cfg.streamLine i line] }, [])
      else none
    | _ => none
  | .streamEnds i, s =>
    match s.producers[i]? with
    | some (.streaming [] ending) =>
      some (s.setProducer i (afterStream ending), [])
    | _ => none
  | .report i, s =>
    match s.producers[i]? with
    | some (.reporting err) =>
      if s.errChan.length < cfg.errCapacity then
        some ({ s.setProducer i .done with
          errChan := s.errChan ++ [err] }, [])
      else none
    | _ => none
  | .closeLines, s =>
    if s.lineClosed = false ∧ ∀ p ∈ s.producers, p = .done then
      some ({ s with lineClosed := true }, [])
    else none
  | .closeErrs, s =>
    if s.lineClosed = true ∧ s.errClosed = false then
      some ({ s with errClosed := true }, [])
    else none
  | .receive, s =>
    match s.consumer, s.lineChan with
    | .selecting, line :: lines =>
      some ({ s with lineChan := lines
                     buffer := s.buffer ++ [line] }, [])
    | _, _ => none
  | .receiveClosed, s =>
    match s.consumer, s.lineChan, s.lineClosed with
    | .selecting, [], true =>
      let (s, out) := cfg.flushBuffer s
      some ({ s with consumer := .draining }, out)
    | _, _, _ => none
  | .tick, s =>
    match s.consumer with
    | .selecting => some (cfg.flushBuffer s)
    | _ => none
  | .drain, s =>
    match s.consumer, s.errChan with
    | .draining, err :: errs =>
      some ({ s with errChan := errs, consumer := .returned },
        [.returned (some err)])
    | .draining, [] =>
      if s.errClosed then
        some ({ s with consumer := .returned }, [.returned none])
      else none
    | _, _ => none

/-- The call has returned and all its goroutines have ended. -/
structure MergedStream.Finished (s : MergedStream) : Prop where
  producers : ∀ p ∈ s.producers, p = .done
  lineClosed : s.lineClosed = true
  errClosed : s.errClosed = true
  consumer : s.consumer = .returned

end PodLog
