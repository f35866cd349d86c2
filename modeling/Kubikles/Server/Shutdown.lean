/-
The event channel of the server and its shutdown (pkg/server/server.go).

# The channel

`EmitEvent` is one `select` of a send on `broadcast` and a receive from
`done`. Where both could go on it takes the one that it polls first, which
is left open; where neither could it waits in both queues, until a receiver
takes its event or `done` is closed. A send that is polled on a closed
channel is a panic, whatever the other case.

# The parties

`Run` waits for its context, closes `done`, and then closes `broadcast`.
`handleBroadcast` takes one event after the other; how long it writes it to
its clients is left open. Any number of emitters come at any time.
-/
import Kubikles.Lib.Goroutine

namespace Server

open Machine (Step)

/-- `Event`, with its data. -/
structure Event (D : Type) where
  type : String
  name : String
  data : D
deriving DecidableEq

/-- A call of `EmitEvent`. -/
inductive Emitter (D : Type) where
  /-- It has not come to its `select`. -/
  | calling (event : Event D)
  /-- It waits in its `select`. -/
  | parked (event : Event D)
  | sent
  | dropped
  | panicked
deriving DecidableEq

/-- Where `Run` is. -/
inductive RunPhase where
  | idle
  /-- It waits for its context. -/
  | serving
  /-- It has closed `done`. -/
  | closing
  /-- It has closed `broadcast`. -/
  | closed
deriving DecidableEq

/-- Where `handleBroadcast` is. -/
inductive HandlerPhase (D : Type) where
  | idle
  | receiving
  | writing (event : Event D)
  | ended
deriving DecidableEq

/-- The server, and those who are at its channels. -/
structure State (D : Type) where
  broadcast : Chan (Event D) := { capacity := 100 }
  /-- The emitters that wait, in the order they came. -/
  sendq : List Nat := []
  /-- `done` is closed. -/
  done : Bool := false
  cancelled : Bool := false
  run : RunPhase := .idle
  handler : HandlerPhase D := .idle
  emitters : List (Emitter D) := []
deriving DecidableEq

/-- A case of the `select` of `EmitEvent`. -/
inductive Case where
  | send
  | done
deriving DecidableEq

inductive Action (D : Type) where
  /-- `Run` is called. -/
  | start
  | cancel
  /-- `Run` goes on. -/
  | run
  /-- `handleBroadcast` goes on. -/
  | handle
  | emitEvent (name : String) (data : D)
  /-- An emitter comes to its `select`, and polls a case first. -/
  | select (i : Nat) (first : Case)
deriving DecidableEq

variable {D : Type}

namespace State

def setEmitter (s : State D) (i : Nat) (e : Emitter D) : State D :=
  { s with emitters := s.emitters.set i e }

def pollSend (s : State D) (i : Nat) (event : Event D) :
    Option (State D) :=
  match s.broadcast.send event with
  | .panic => some (s.setEmitter i .panicked)
  | .done broadcast => some ({ s with broadcast }.setEmitter i .sent)
  | .blocked => none

/-- The receive from `done` is polled. -/
def pollDone (s : State D) (i : Nat) : Option (State D) :=
  if s.done then some (s.setEmitter i .dropped) else none

def park (s : State D) (i : Nat) (event : Event D) : State D :=
  { s with sendq := s.sendq ++ [i] }.setEmitter i (.parked event)

/-- The `select` of an emitter. -/
def select (s : State D) (i : Nat) (event : Event D) : Case → State D
  | .send =>
    ((s.pollSend i event).or (s.pollDone i)).getD (s.park i event)
  | .done =>
    ((s.pollDone i).or (s.pollSend i event)).getD (s.park i event)

/-- Those who wait go on, in the same way. -/
def wakeAll (s : State D) (e : Emitter D) : State D :=
  { s with
    sendq := []
    emitters := s.sendq.foldl (fun emitters i => emitters.set i e)
      s.emitters }

/-- `close(s.done)`: those who wait take that case. -/
def closeDone (s : State D) : State D :=
  { s with done := true, run := .closing }.wakeAll .dropped

/-- `close(s.broadcast)`: those who wait to send panic. -/
def closeBroadcast (s : State D) : State D :=
  { s with
    broadcast := { s.broadcast with closed := true }
    run := .closed }.wakeAll .panicked

/-- The first of those who wait sends, now that there is room. -/
def handOver (s : State D) : State D :=
  match s.sendq with
  | [] => s
  | i :: sendq =>
    match s.emitters[i]? with
    | some (.parked event) =>
      { s with
        sendq
        broadcast :=
          { s.broadcast with buffer := s.broadcast.buffer ++ [event] }
      }.setEmitter i .sent
    | _ => s

end State

def step : Step (State D) (Action D) Unit
  | .start, s =>
    if s.run = .idle then
      some ({ s with run := .serving, handler := .receiving }, [])
    else none
  | .cancel, s => some ({ s with cancelled := true }, [])
  | .run, s =>
    match s.run with
    | .serving => if s.cancelled then some (s.closeDone, []) else none
    | .closing => some (s.closeBroadcast, [])
    | _ => none
  | .handle, s =>
    match s.handler with
    | .receiving =>
      match s.broadcast.receive with
      | .done (some event, broadcast) =>
        some ({ s with broadcast, handler := .writing event }.handOver,
          [])
      | .done (none, _) => some ({ s with handler := .ended }, [])
      | _ => none
    | .writing _ => some ({ s with handler := .receiving }, [])
    | _ => none
  | .emitEvent name data, s =>
    some ({ s with
      emitters := s.emitters ++ [.calling ⟨"event", name, data⟩] }, [])
  | .select i first, s =>
    match s.emitters[i]? with
    | some (.calling event) => some (s.select i event first, [])
    | _ => none

end Server
