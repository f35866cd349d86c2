/-
The log coalescer (logcoalescer.go) as a machine.

# What is in the state

`LogCoalescer` has the fields of the Go struct. Around it are the
timers it has created (each captured the id of its stream), the batches
that timer goroutines have taken under the lock and not yet emitted
outside it (`detached`, in the order they were taken), and what the
producer of each stream is doing. A producer calls `EmitLine` any number
of times and closes with `EmitDone`, with `EmitError`, or with the one
behind the other, as the streaming goroutines of app_logs.go do.

# What is in an action

A critical section of `mu`, one `emitEvent`, or a timer's delay
passing. `EmitDone` and `EmitError` are several actions each; the
producer's state says which one is next.
-/
import Kubikles.Lib.FinMap
import Kubikles.Lib.Machine
import Kubikles.Lib.Timer

namespace LogStream

-- ======== the structs

/-- `logStreamBuffer`; `timer` is the position of the timer the field
points at. -/
structure LogStreamBuffer where
  lines : List String
  timer : Option Nat
  pending : Bool
deriving DecidableEq, Repr

/-- `LogCoalescer`; the interval is in nanoseconds. -/
structure LogCoalescer where
  frameInterval : Int
  streams : FinMap String LogStreamBuffer

/-- `NewLogCoalescer`: an interval of 0 is the default of 16 ms. -/
def newLogCoalescer (frameInterval : Int) : LogCoalescer where
  frameInterval := if frameInterval = 0 then 16000000 else frameInterval
  streams := ∅

/-- `LogStreamEvent`, with Go's zero values as defaults. -/
structure LogStreamEvent where
  streamID : String
  line : String := ""
  error : String := ""
  done : Bool := false
deriving DecidableEq, Repr

structure LogStreamBatchEvent where
  streamID : String
  lines : List String
deriving DecidableEq, Repr

/-- What the coalescer hands to `emitEvent`: the event's name is the
constructor. -/
inductive AppEvent where
  | logStream (event : LogStreamEvent)
  | logStreamBatch (event : LogStreamBatchEvent)
deriving DecidableEq, Repr

/-- The lines of a stream an emission carries. An event that is neither
done nor an error is a line, as the log viewer reads it. -/
def AppEvent.linesFor (streamID : String) : AppEvent → List String
  | .logStream event =>
    if event.streamID = streamID ∧ event.done = false ∧ event.error = ""
    then [event.line] else []
  | .logStreamBatch event =>
    if event.streamID = streamID then event.lines else []

def AppEvent.IsDone (streamID : String) : AppEvent → Prop
  | .logStream event => event.streamID = streamID ∧ event.done = true
  | .logStreamBatch _ => False

-- ======== the state

/-- The event a producer closes with. -/
inductive Final where
  | done
  | error (errMsg : String)
deriving DecidableEq, Repr

inductive Producer where
  /-- Between two calls of `EmitLine`. -/
  | streaming
  /-- In `EmitError`, between the two sections of `FlushStream`. -/
  | flushing (errMsg : String)
  /-- About to emit the lines it has taken, then its final event. -/
  | emitting (lines : List String) (last : Final)
  /-- About to emit its final event. -/
  | closing (last : Final)
  /-- Back from `EmitError`. -/
  | errored
  /-- Back from `EmitDone`. -/
  | finished
deriving DecidableEq, Repr

/-- A log coalescer, its goroutines and its producers. -/
structure Sys where
  c : LogCoalescer
  timers : Timers String
  detached : List (String × List String)
  producers : FinMap String Producer

/-- A coalescer nobody has used yet. -/
def Sys.init (frameInterval : Int) : Sys where
  c := newLogCoalescer frameInterval
  timers := []
  detached := []
  producers := ∅

/-- The producer of a stream; one that was never heard of is about to
call `EmitLine` for the first time. -/
def Sys.producer (s : Sys) (streamID : String) : Producer :=
  (s.producers.lookup streamID).getD .streaming

def Sys.setProducer (streamID : String) (p : Producer) (s : Sys) : Sys :=
  { s with producers := s.producers.insert streamID p }

def Sys.setBuffer (streamID : String) (buf : LogStreamBuffer) (s : Sys) :
    Sys :=
  { s with c := { s.c with streams := s.c.streams.insert streamID buf } }

-- ======== methods

def Sys.emitLine (streamID line : String) (s : Sys) : Sys :=
  let buf := (s.c.streams.lookup streamID).getD ⟨[], none, false⟩
  let lines := buf.lines ++ [line]
  if buf.pending then s.setBuffer streamID { buf with lines }
  else
    { s.setBuffer streamID ⟨lines, some s.timers.length, true⟩ with
      timers := Timers.start streamID s.timers }

/-- The critical section of `flushStream`: what it leaves, and the
lines it takes. -/
def Sys.takeLines (streamID : String) (s : Sys) : Sys × List String :=
  match s.c.streams.lookup streamID with
  | none => (s, [])
  | some buf =>
    if buf.lines = [] then
      (s.setBuffer streamID { buf with pending := false }, [])
    else
      (s.setBuffer streamID { buf with lines := [], pending := false },
        buf.lines)

def emitBatch (streamID : String) : List String → List AppEvent
  | [] => []
  | [line] => [.logStream { streamID, line }]
  | lines => [.logStreamBatch { streamID, lines }]

/-- What a producer that has taken `lines` does next. -/
def Producer.holding (lines : List String) (last : Final) : Producer :=
  if lines = [] then .closing last else .emitting lines last

/-- A timer goroutine's section of `flushStream`. -/
def Sys.timerFlush (streamID : String) (s : Sys) : Sys :=
  let (s', lines) := s.takeLines streamID
  if lines = [] then s'
  else { s' with detached := s'.detached ++ [(streamID, lines)] }

/-- The section of `EmitDone`. -/
def Sys.emitDone (streamID : String) (s : Sys) : Sys :=
  match s.c.streams.lookup streamID with
  | none => s.setProducer streamID (.closing .done)
  | some buf =>
    { s with
      timers := Timers.stopAt buf.timer s.timers
      c := { s.c with streams := s.c.streams.erase streamID }
      producers :=
        s.producers.insert streamID (.holding buf.lines .done) }

/-- The first section of `FlushStream`, called by `EmitError`. -/
def Sys.emitError (streamID errMsg : String) (s : Sys) : Sys :=
  { s.setProducer streamID (.flushing errMsg) with
    timers :=
      match s.c.streams.lookup streamID with
      | none => s.timers
      | some buf => Timers.stopAt buf.timer s.timers }

/-- The section of `flushStream`, called by `FlushStream` for
`EmitError`. -/
def Sys.errorFlush (streamID errMsg : String) (s : Sys) : Sys :=
  let (s', lines) := s.takeLines streamID
  s'.setProducer streamID (.holding lines (.error errMsg))

/-- The next event a producer emits, and what it does after. -/
def Producer.emit (streamID : String) :
    Producer → Option (Producer × List AppEvent)
  | .emitting lines last => some (.closing last, emitBatch streamID lines)
  | .closing .done =>
    some (.finished, [.logStream { streamID, done := true }])
  | .closing (.error errMsg) =>
    some (.errored, [.logStream { streamID, error := errMsg }])
  | _ => none

-- ======== transitions

/-- One critical section, one emission, or a timer's delay passing. -/
inductive Act where
  | emitLine (streamID line : String)
  | timerFires (timer : Nat)
  | timerFlush (timer : Nat)
  | emitDetached (batch : Nat)
  | emitDone (streamID : String)
  | emitError (streamID errMsg : String)
  | errorFlush (streamID : String)
  | producerEmits (streamID : String)

/-- The transitions of the log coalescer. -/
def step : Machine.Step Sys Act AppEvent
  | .emitLine id line, s =>
    if s.producer id = .streaming then some (s.emitLine id line, [])
    else none
  | .timerFires i, s =>
    (Timers.fire i s.timers).map fun ts => ({ s with timers := ts }, [])
  | .timerFlush i, s =>
    (Timers.take i s.timers).map fun (id, ts) =>
      ({ s with timers := ts }.timerFlush id, [])
  | .emitDetached j, s =>
    s.detached[j]?.map fun (id, lines) =>
      ({ s with detached := s.detached.eraseIdx j }, emitBatch id lines)
  | .emitDone id, s =>
    if s.producer id = .streaming ∨ s.producer id = .errored then
      some (s.emitDone id, [])
    else none
  | .emitError id errMsg, s =>
    if s.producer id = .streaming then some (s.emitError id errMsg, [])
    else none
  | .errorFlush id, s =>
    match s.producer id with
    | .flushing errMsg => some (s.errorFlush id errMsg, [])
    | _ => none
  | .producerEmits id, s =>
    ((s.producer id).emit id).map fun (p, o) => (s.setProducer id p, o)

/-- The lines a list of actions passes to `EmitLine` for a stream. -/
def passed (streamID : String) (acts : List Act) : List String :=
  acts.flatMap fun
    | .emitLine id line => if id = streamID then [line] else []
    | _ => []

/-- The lines of a stream a list of emissions carries, in order. -/
def emitted (streamID : String) (out : List AppEvent) : List String :=
  out.flatMap (·.linesFor streamID)

end LogStream
