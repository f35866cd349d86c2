/-
The chat panel and the manager behind it (AIChatContext.tsx,
pkg/ai/manager.go).

# The manager

Of a session there is what the panel can tell apart: its generation and
whether it is listed. `SendMessage` looks the session up, and what follows
counts the generation on and starts the request, or fails, before that or
behind it. What a request emits there carries its session and generation,
and its last event is done (`Ai.out_provided`). A context that is cancelled
is among the reasons for what a request emits, so nothing follows from a
cancellation here but a mark.

# Messages

Calls of `SendAIMessage` and `ClearAISession` are known by their place
among all of their kind. They are handled in any order, and so are their
answers; the events of each reach the panel in their order, and apart from
that at any time.

For the statements alone there are `display` (how often the conversation on
display has been replaced), the display that a call was made under, and
what has become of it.
-/
import Kubikles.Ai.Chat
import Kubikles.Lib.Place

namespace Chat

open Ai (AIResponseEvent)
open Machine (Step)

structure Session where
  generation : Nat := 0
  listed : Bool := true
deriving DecidableEq

/-- How far the manager is with a call of `SendMessage`. -/
inductive Phase where
  | sent
  | found
  | accepted (gen : Nat)
  | rejected
deriving DecidableEq

/-- A call of `SendAIMessage`. -/
structure Call where
  session : Nat
  display : Nat
  phase : Phase := .sent
  /-- The panel has its answer, or knows that there is none. -/
  answered : Bool := false
  /-- The events the panel has not handled yet. -/
  inFlight : List AIResponseEvent := []
  /-- The last event is emitted. -/
  ended : Bool := false
  cancelled : Bool := false
deriving DecidableEq

/-- How far a call of `ClearAISession` is. -/
inductive Clearing where
  | sent
  | served (newId : Nat)
  | settled
deriving DecidableEq

/-- A call of `ClearAISession`, and the conversation that is to be loaded
behind it. -/
structure Clear where
  session : Nat
  load : Option Conversation
  phase : Clearing := .sent
deriving DecidableEq

structure State where
  ui : Ui
  sessions : List Session
  calls : List Call := []
  clears : List Clear := []
  /-- The calls of `CloseAISession` that are not handled yet. -/
  closes : List Nat := []
  display : Nat := 0
deriving DecidableEq

inductive Act where
  /-- `sendMessage` of a trimmed text. -/
  | sendMessage (text : Text)
  | cancelRequest
  | startNewChat
  | loadConversation (convId : String)
  | deleteConversation (convId : String)
  /-- The effect that saves the conversation. -/
  | autosave (newId : String)
  /-- The manager finds the session of a call. -/
  | find (i : Nat)
  /-- It returns false before the generation is counted on. -/
  | reject (i : Nat) (error : Text)
  /-- It starts the request. -/
  | accept (i : Nat)
  /-- It returns false behind that: the session of a CLI does not start. -/
  | rejectStarted (i : Nat) (error : Text)
  | emit (i : Nat) (event : AIResponseEvent)
  /-- The panel handles the next event of a call. -/
  | deliver (i : Nat)
  /-- It handles the answer to a call. -/
  | respond (i : Nat)
  | callFails (i : Nat)
  /-- The manager handles a `ClearAISession`. -/
  | clearServed (j : Nat)
  | clearAnswered (j : Nat)
  | clearFails (j : Nat)
  /-- The manager handles the next `CloseAISession`. -/
  | closeServed
deriving DecidableEq

-- ======== parts

def Call.accepted (c : Call) : Bool :=
  match c.phase with
  | .accepted _ => true
  | _ => false

def Call.waiting (c : Call) : Bool := c.phase = .sent || c.phase = .found

/-- Mark the requests of a session as cancelled. -/
def cancelAll (session : Nat) (calls : List Call) : List Call :=
  calls.map fun c =>
    if c.session = session ∧ c.accepted then { c with cancelled := true }
    else c

namespace State

def replace (ui : Ui) (s : State) : State :=
  { s with ui, display := s.display + 1 }

/-- The reset that follows a `ClearAISession`: a new chat, or a
conversation that is loaded. -/
def resetUi (load : Option Conversation) (ui : Ui) : Ui :=
  match load with
  | none => ui.resetChatState
  | some conv => ui.loadState conv

/-- `startNewChat`, and `loadConversation` where it finds one. -/
def clear (load : Option Conversation) (s : State) : State :=
  match s.ui.sessionId with
  | some session =>
    { s with clears := s.clears ++ [⟨session, load, .sent⟩] }
  | none => s.replace (resetUi load s.ui)

def setCall (i : Nat) (c : Call) (s : State) : State :=
  { s with calls := s.calls.set i c }

def generation (s : State) (session : Nat) : Nat :=
  (s.sessions[session]?.map Session.generation).getD 0

/-- The manager counts the generation of a session on. -/
def advance (session : Nat) (s : State) : State :=
  { s with sessions := s.sessions.modify session fun a =>
      { a with generation := a.generation + 1 } }

def lists (s : State) (session : Nat) : Bool :=
  s.sessions[session]?.any Session.listed

/-- The manager takes a session off its list, which cancels its requests. -/
def unlist (session : Nat) (s : State) : State :=
  if s.lists session then
    { s with
      sessions := s.sessions.modify session fun a =>
        { a with listed := false }
      calls := cancelAll session s.calls }
  else s

end State

-- ======== transitions

def panelStep : Act → State → Option State
  | .sendMessage text, s =>
    match s.ui.sessionId with
    | some session =>
      if text = [] ∨ s.ui.isStreaming then some s
      else
        some { s with
          ui := s.ui.send text
          calls := s.calls ++ [{ session, display := s.display }] }
    | none => some s
  | .cancelRequest, s =>
    match s.ui.sessionId with
    | some session =>
      some { s with ui := s.ui.cancel
                    calls := cancelAll session s.calls }
    | none => some s
  | .startNewChat, s => some (s.clear none)
  | .loadConversation convId, s =>
    match s.ui.conversationHistory.find? (·.id = convId) with
    | some conv =>
      some (State.clear (some conv)
        { s with ui := s.ui.countPast conv })
    | none => some s
  | .deleteConversation convId, s =>
    let forgot := { s with ui := s.ui.forget convId }
    if s.ui.conversationId = some convId then
      some (forgot.replace forgot.ui.resetChatState)
    else some forgot
  | .autosave newId, s => some { s with ui := s.ui.autosave newId }
  | _, _ => none

/-- What the manager does with a call of `SendMessage`. -/
def serve (i : Nat) (c : Call) : Act → State → Option State
  | .find _, s =>
    if c.phase = .sent ∧ s.lists c.session then
      some (s.setCall i { c with phase := .found })
    else none
  | .reject _ error, s =>
    if c.waiting then
      some (s.setCall i { c with
        phase := .rejected
        inFlight := [{ sessionID := c.session, error, done := true }]
        ended := true })
    else none
  | .accept _, s =>
    if c.phase = .found then
      some (({ s with calls := cancelAll c.session s.calls }.advance
        c.session).setCall i { c with
          phase := .accepted (s.generation c.session + 1) })
    else none
  | .rejectStarted _ error, s =>
    if c.phase = .found then
      some ((s.advance c.session).setCall i { c with
        phase := .rejected
        inFlight := [{ sessionID := c.session
                       generation := s.generation c.session + 1
                       error, done := true }]
        ended := true })
    else none
  | .emit _ event, s =>
    match c.phase with
    | .accepted gen =>
      if c.ended then none
      else
        some (s.setCall i { c with
          inFlight := c.inFlight
            ++ [{ event with sessionID := c.session, generation := gen }]
          ended := event.done })
    | _ => none
  | _, _ => none

/-- What the panel does with what it hears of a call. -/
def hear (i : Nat) (c : Call) : Act → State → Option State
  | .deliver _, s =>
    match c.inFlight with
    | event :: rest =>
      some ({ s with ui := s.ui.handler event }.setCall i
        { c with inFlight := rest })
    | [] => none
  | .respond _, s =>
    if c.answered then none
    else
      match c.phase with
      | .accepted _ =>
        some ({ s with ui := { s.ui with isStreaming := true } }.setCall i
          { c with answered := true })
      | .rejected => some (s.setCall i { c with answered := true })
      | _ => none
  | .callFails _, s =>
    if c.answered then none
    else some (s.setCall i { c with answered := true })
  | _, _ => none

/-- The panel behind a `ClearAISession`: the reset, and the new session if
there is one, behind which the old one is closed. -/
def State.settle (s : State) (j : Nat) (k : Clear) (newId : Option Nat) :
    State :=
  let cleared := { s.replace (State.resetUi k.load s.ui) with
    clears := s.clears.set j { k with phase := .settled } }
  match newId with
  | some id =>
    { cleared with
      ui := { cleared.ui with sessionId := some id }
      closes :=
        if s.ui.sessionId = some id then s.closes
        else s.closes ++ s.ui.sessionId.toList }
  | none => cleared

/-- The steps of a `ClearAISession`. -/
def clearStep (j : Nat) (k : Clear) : Act → State → Option State
  | .clearServed _, s =>
    if k.phase = .sent then
      let s' := s.unlist k.session
      some { s' with
        sessions := s'.sessions ++ [{}]
        clears := s'.clears.set j
          { k with phase := .served s'.sessions.length } }
    else none
  | .clearAnswered _, s =>
    match k.phase with
    | .served newId => some (s.settle j k (some newId))
    | _ => none
  | .clearFails _, s =>
    if k.phase = .settled then none else some (s.settle j k none)
  | _, _ => none

def next (a : Act) (s : State) : Option State :=
  match a with
  | .find i | .reject i _ | .accept i | .rejectStarted i _ | .emit i _ =>
    s.calls[i]?.bind fun c => serve i c a s
  | .deliver i | .respond i | .callFails i =>
    s.calls[i]?.bind fun c => hear i c a s
  | .clearServed j | .clearAnswered j | .clearFails j =>
    s.clears[j]?.bind fun k => clearStep j k a s
  | .closeServed =>
    match s.closes with
    | session :: rest => some { s.unlist session with closes := rest }
    | [] => none
  | _ => panelStep a s

def step : Step State Act Empty := fun a s => (next a s).map (·, [])

/-- An open panel with its first session, and the conversations of earlier
times. -/
def start (conversationHistory : List Conversation) : State :=
  { ui := { sessionId := some 0, conversationHistory }
    sessions := [{}] }

end Chat
