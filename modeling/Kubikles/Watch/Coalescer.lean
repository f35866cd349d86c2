/-
The event coalescer (eventcoalescer.go) as a machine.

# What is in the state

`EventCoalescer` has the fields of the Go struct. `Sys` adds what the
struct's methods share with the runtime: every timer the coalescer has
created (a timer that `c.timer` no longer names may still be armed) and
the `FlushNow` calls in progress. A `FlushNow` call is either about to
look at the buffer's length (`draining`) or has found it nonempty and
is about to flush (`flushing`): those are separate critical sections,
and anything may happen between them.

# What is in an action

One action is one critical section. Where Go leaves a choice open, the
action carries it: the order in which `range` meets the buffer's keys
is an argument of both flushing actions, and a timer that fires is
named. `Emit` reads `frameInterval` before it locks; the model reads it
inside the section, which no run can tell apart while the interval
stays at or above a millisecond, and `SetFrameInterval` cannot take it
below.
-/
import Kubikles.Lib.FinMap
import Kubikles.Lib.Machine
import Kubikles.Lib.Timer
import Kubikles.Watch.Event

namespace Coalescer

variable {α : Type}

-- ======== the buffer

/-- The buffer of a coalescer: at most one event a key, each filed
under its own key and none of them DELETED. -/
structure EventBuffer (α : Type) where
  entries : FinMap String (ResourceEvent α)
  keyed : ∀ {k e}, entries.lookup k = some e → eventKey e = k
  undeleted : ∀ {k e}, entries.lookup k = some e → e.type ≠ .deleted

namespace EventBuffer

def empty : EventBuffer α where
  entries := ∅
  keyed h := by simp at h
  undeleted h := by simp at h

/-- File an event under its key, over whatever is there. -/
def put (event : ResourceEvent α) (h : event.type ≠ .deleted)
    (b : EventBuffer α) : EventBuffer α where
  entries := b.entries.insert (eventKey event) event
  keyed := by
    intro k e he
    rw [FinMap.lookup_insert] at he
    split at he
    next hk => rw [← Option.some.inj he, hk]
    next => exact b.keyed he
  undeleted := by
    intro k e he
    rw [FinMap.lookup_insert] at he
    split at he
    next hk => exact Option.some.inj he ▸ h
    next => exact b.undeleted he

def drop (ks : List String) (b : EventBuffer α) : EventBuffer α where
  entries := FinMap.eraseAll b.entries ks
  keyed := by
    intro k e he
    rw [FinMap.lookup_eraseAll] at he
    split at he
    next => cases he
    next => exact b.keyed he
  undeleted := by
    intro k e he
    rw [FinMap.lookup_eraseAll] at he
    split at he
    next => cases he
    next => exact b.undeleted he

/-- The event filed under a key, if any. -/
def get (k : String) (b : EventBuffer α) : Option (ResourceEvent α) :=
  b.entries.lookup k

/-- `len(c.events)`. -/
def len (b : EventBuffer α) : Nat := FinMap.size b.entries

end EventBuffer

-- ======== the struct

/-- `time.Millisecond`, in the nanoseconds of a `time.Duration`. -/
def millisecond : Int := 1000000

/-- `EventCoalescer`; `timer` is the position of the timer the field
points at. -/
structure EventCoalescer (α : Type) where
  frameInterval : Int
  maxBatchSize : Int
  events : EventBuffer α
  timer : Option Nat
  pending : Bool

/-- `NewEventCoalescer`: an interval of 0 is the default of 16 ms. -/
def newEventCoalescer (frameInterval : Int) : EventCoalescer α where
  frameInterval := if frameInterval = 0 then 16 * millisecond else frameInterval
  maxBatchSize := 500
  events := .empty
  timer := none
  pending := false

/-- What the coalescer hands to `emitEvent`: the event's name is the
constructor. -/
inductive AppEvent (α : Type) where
  | resourceEvent (event : ResourceEvent α)
  | resourceEventsBatch (events : List (ResourceEvent α))
deriving DecidableEq, Repr

/-- The watch events an emission carries, in order. -/
def AppEvent.events : AppEvent α → List (ResourceEvent α)
  | .resourceEvent event => [event]
  | .resourceEventsBatch events => events

/-- A coalescer and the runtime around it. -/
structure Sys (α : Type) where
  c : EventCoalescer α
  timers : Timers Unit
  draining : Nat
  flushing : Nat

/-- A coalescer nobody has used yet. -/
def Sys.init (frameInterval : Int) : Sys α where
  c := newEventCoalescer frameInterval
  timers := []
  draining := 0
  flushing := 0

-- ======== methods

/-- `c.timer = time.AfterFunc(c.frameInterval, c.flush)`, with the flag
that goes with it. -/
def Sys.arm (s : Sys α) : Sys α :=
  { s with
    c := { s.c with pending := true, timer := some s.timers.length }
    timers := Timers.start () s.timers }

def Sys.emit (event : ResourceEvent α) (s : Sys α) :
    Sys α × List (AppEvent α) :=
  if s.c.frameInterval < millisecond then
    (s, [.resourceEvent event])
  else if h : event.type = .deleted then
    ({ s with c := { s.c with
        events := s.c.events.drop [eventKey event] } },
      [.resourceEvent event])
  else
    let s' := { s with c := { s.c with events := s.c.events.put event h } }
    (if s'.c.pending then s' else s'.arm, [])

/-- The `range` loop of `flush`: entries in iteration order until the
batch is full. -/
def collect (maxBatchSize : Int) (events : EventBuffer α) :
    List String → List (String × ResourceEvent α) →
      List (String × ResourceEvent α)
  | [], batch => batch
  | k :: order, batch =>
    if 0 < maxBatchSize ∧ maxBatchSize ≤ batch.length then batch
    else
      match events.get k with
      | none => collect maxBatchSize events order batch
      | some event =>
        collect maxBatchSize events order (batch ++ [(k, event)])

/-- What a flush hands to `emitEvent`: a lone event goes out as
itself, several as a batch. -/
def emission : List (ResourceEvent α) → List (AppEvent α)
  | [] => []
  | [event] => [.resourceEvent event]
  | events => [.resourceEventsBatch events]

/-- `flush`, with the order in which `range` meets the keys. -/
def Sys.flush (order : List String) (s : Sys α) :
    Sys α × List (AppEvent α) :=
  if s.c.events.len = 0 then
    ({ s with c := { s.c with pending := false } }, [])
  else
    let batch := collect s.c.maxBatchSize s.c.events order []
    let events := s.c.events.drop (batch.map Prod.fst)
    let s' := { s with c := { s.c with events := events } }
    (if events.len = 0 then
        { s' with c := { s'.c with pending := false } }
      else s'.arm,
      emission (batch.map Prod.snd))

/-- The first section of `FlushNow`: stop the timer the field names. -/
def Sys.flushNow (s : Sys α) : Sys α :=
  { s with timers := Timers.stopAt s.c.timer s.timers
           draining := s.draining + 1 }

/-- The length check of `FlushNow`'s loop: a call that finds the
buffer empty returns, any other goes on to flush. -/
def Sys.flushNowCheck (s : Sys α) : Sys α :=
  if s.c.events.len = 0 then { s with draining := s.draining - 1 }
  else { s with draining := s.draining - 1, flushing := s.flushing + 1 }

def Sys.clear (s : Sys α) : Sys α :=
  { s with
    c := { s.c with timer := none, events := .empty, pending := false }
    timers := Timers.stopAt s.c.timer s.timers }

/-- `SetFrameInterval`, in milliseconds, clamped to 1-100. -/
def Sys.setFrameInterval (ms : Int) (s : Sys α) : Sys α :=
  let ms := if ms < 1 then 1 else ms
  let ms := if ms > 100 then 100 else ms
  { s with c := { s.c with frameInterval := ms * millisecond } }

/-- `SetMaxBatchSize`, clamped to 50-5000. -/
def Sys.setMaxBatchSize (n : Int) (s : Sys α) : Sys α :=
  let n := if n < 50 then 50 else n
  let n := if n > 5000 then 5000 else n
  { s with c := { s.c with maxBatchSize := n } }

-- ======== transitions

/-- One critical section of the coalescer, or a timer's delay
passing. -/
inductive Act (α : Type) where
  | emit (event : ResourceEvent α)
  | timerFires (timer : Nat)
  | timerFlush (timer : Nat) (order : List String)
  | flushNow
  | flushNowCheck
  | flushNowFlush (order : List String)
  | clear
  | setFrameInterval (ms : Int)
  | setMaxBatchSize (n : Int)

def step : Machine.Step (Sys α) (Act α) (AppEvent α)
  | .emit event, s => some (s.emit event)
  | .timerFires i, s =>
    (Timers.fire i s.timers).map fun ts => ({ s with timers := ts }, [])
  | .timerFlush i order, s =>
    match Timers.take i s.timers with
    | none => none
    | some (_, ts) =>
      if FinMap.Enumerates order s.c.events.entries then
        some ({ s with timers := ts }.flush order)
      else none
  | .flushNow, s => some (s.flushNow, [])
  | .flushNowCheck, s =>
    if 0 < s.draining then some (s.flushNowCheck, []) else none
  | .flushNowFlush order, s =>
    if 0 < s.flushing ∧ FinMap.Enumerates order s.c.events.entries then
      some ({ s with flushing := s.flushing - 1
                     draining := s.draining + 1 }.flush order)
    else none
  | .clear, s => some (s.clear, [])
  | .setFrameInterval ms, s => some (s.setFrameInterval ms, [])
  | .setMaxBatchSize n, s => some (s.setMaxBatchSize n, [])

/-- The events a list of actions passes to `Emit`, in order. -/
def passed (acts : List (Act α)) : List (ResourceEvent α) :=
  acts.flatMap fun
    | .emit event => [event]
    | _ => []

/-- The events a list of emissions carries, in order. -/
def emitted (out : List (AppEvent α)) : List (ResourceEvent α) :=
  out.flatMap AppEvent.events

def forKey (k : String) (events : List (ResourceEvent α)) :
    List (ResourceEvent α) :=
  events.filter fun e => eventKey e = k

end Coalescer
