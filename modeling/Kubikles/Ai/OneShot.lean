/-
AI requests in one-shot mode (pkg/ai/manager.go, `SendMessage` and
`sendMessageOneShot`).

# Sections

Each critical section of `m.mu` is one step, and so is each step that a
provider takes (`Provider`): what it streams there reaches the frontend
with it. What the manager does behind the return of `SendMessage` up to
the end of the request, or up to its last section, is part of the step
that returns.

# Contexts

Whether a context is cancelled or past its deadline is not kept. What a
look at it finds is an answer of the environment, so every moment of
cancellation and of time out is among the runs, whoever asked for it.

# Left out

The registry of providers: a system has one provider, which may be made
of others (`Provider.either`). Sessions are not removed here.
-/
import Kubikles.Ai.Provider
import Kubikles.Lib.Goroutine

namespace Ai

open Goroutine (Exec Effect Sys)

-- ======== contexts

/-- What `ctx.Err()` finds of a context that is done. -/
inductive CtxErr where
  | canceled
  | deadlineExceeded
deriving DecidableEq

def CtxErr.text : CtxErr → Text
  | .canceled => Text.ofString "context canceled"
  | .deadlineExceeded => Text.ofString "context deadline exceeded"

-- ======== providers

/-- How far a provider's `SendMessage` is behind a step. -/
inductive Provided (P : Type*) where
  | more (rest : P)
  | returned (err : Option Text)
  | panicked (value : Text)

/-- What comes of a step of `SendMessage`: the variables of the tools
package behind it, how far it is, what it has streamed, what it has done
else. -/
structure Streamed (P G O : Type*) where
  tools : G
  provided : Provided P
  events : List StreamEvent := []
  out : List O := []

/-- A provider's `SendMessage`, step by step, each with an answer of the
environment. -/
structure Provider (P A G O : Type*) where
  begin : Request → P
  step : P → A → G → Option (Streamed P G O)

/-- The `SendMessage` of one of two providers, which is not yet known
before it begins. -/
inductive Either (P Q : Type*) where
  | undecided (req : Request)
  | first (p : P)
  | second (q : Q)

inductive EitherAnswer (A B : Type*) where
  /-- Which provider is the active one. -/
  | choose (first : Bool)
  | first (a : A)
  | second (b : B)

def Provided.map {P Q : Type*} (state : P → Q) : Provided P → Provided Q
  | .more p => .more (state p)
  | .returned err => .returned err
  | .panicked value => .panicked value

/-- A step of one of them. -/
def Streamed.map {P Q G O O' : Type*} (state : P → Q) (seen : O → O')
    (e : Streamed P G O) : Streamed Q G O' where
  tools := e.tools
  provided := e.provided.map state
  events := e.events
  out := e.out.map seen

/-- Two providers, of which each request meets the one that is active when
it begins. -/
def Provider.either {P Q A B G O O' : Type*} (p : Provider P A G O)
    (q : Provider Q B G O') :
    Provider (Either P Q) (EitherAnswer A B) G (O ⊕ O') where
  begin := .undecided
  step
    | .undecided req, .choose first, tools =>
      some { tools
             provided := .more (if first then .first (p.begin req)
               else .second (q.begin req)) }
    | .first state, .first a, tools =>
      (p.step state a tools).map (Streamed.map .first .inl)
    | .second state, .second b, tools =>
      (q.step state b tools).map (Streamed.map .second .inr)
    | _, _, _ => none

-- ======== events

structure AIToolEvent where
  id : Text
  name : Text
  input : Text := []
  result : Text := []
  error : Bool := false
  done : Bool := false
deriving DecidableEq

structure AIResponseEvent where
  sessionID : Nat
  generation : Nat := 0
  chunk : Text := []
  done : Bool := false
  error : Text := []
  usage : Option TokenUsage := none
  tool : Option AIToolEvent := none
deriving DecidableEq

/-- What the callback emits for an event of the provider. -/
def respond (sessionID gen : Nat) (event : StreamEvent) :
    AIResponseEvent :=
  match event.type with
  | .text =>
    { sessionID, generation := gen, chunk := event.content,
      usage := event.usage }
  | .toolUse =>
    { sessionID, generation := gen,
      tool := some { id := event.toolID, name := event.toolName,
                     input := event.content } }
  | .toolResult =>
    { sessionID, generation := gen,
      tool := some { id := event.toolID, name := event.toolName,
                     result := event.content, error := event.isError,
                     done := true } }
  | .done =>
    { sessionID, generation := gen, done := true, usage := event.usage }
  | .error => { sessionID, generation := gen, error := event.content }

/-- What is emitted last of a request that has failed, after two looks at
its context. -/
def failed (sessionID gen : Nat) (err : Text)
    (first second : Option CtxErr) : AIResponseEvent :=
  if first = some .canceled then
    { sessionID, generation := gen, done := true }
  else if second = some .deadlineExceeded then
    { sessionID, generation := gen,
      error := Text.ofString "request timed out", done := true }
  else
    { sessionID, generation := gen,
      error := Text.ofString "provider error: " ++ err, done := true }

/-- What is emitted last of one that has panicked. -/
def recovered (sessionID gen : Nat) (value : Text) : AIResponseEvent :=
  { sessionID, generation := gen,
    error := Text.ofString "internal error: " ++ value, done := true }

-- ======== state

structure Session where
  generation : Nat := 0
  hasHistory : Bool := false
  messages : List Message := []
deriving DecidableEq

/-- The sessions of the manager, and the variables of the tools package
that a provider uses. -/
structure World (G : Type*) where
  sessions : FinMap Nat Session := ∅
  tools : G
  /-- The session and generation of each turn that was appended, in order.
  Nothing reads it. -/
  turns : List (Nat × Nat) := []

/-- The arguments of `SendMessage`. -/
structure SendCall where
  sessionID : Nat
  message : Text := []
  systemPrompt : Text := []
  model : Text := []
  k8sContext : Text := []
  allowedTools : List Text := []
  allowedCommands : List Text := []
deriving DecidableEq

inductive Call where
  /-- `StartSession`, and the ID it makes. -/
  | startSession (id : Nat)
  | sendMessage (call : SendCall)
  | cancelRequest (id : Nat)
deriving DecidableEq

/-- What a goroutine has to do. -/
inductive Frame (P : Type*) where
  | startSession (id : Nat)
  /-- `SendMessage`, up to the mode it chooses. -/
  | sendMessage (call : SendCall)
  /-- The section of `sendMessageOneShot`. -/
  | snapshot (call : SendCall)
  /-- The provider's `SendMessage`, which has streamed these events. -/
  | provide (call : SendCall) (gen : Nat) (events : List StreamEvent)
      (p : P)
  /-- The section that appends the turn. -/
  | append (call : SendCall) (gen : Nat) (events : List StreamEvent)
  | cancelRequest (id : Nat)

/-- The answers of the environment. -/
inductive Env (A : Type*) where
  | tick
  | context (ready : Bool)
  /-- An answer to the provider; should it return an error, what the two
  looks at the context find. -/
  | provider (a : A) (first second : Option CtxErr)

/-- What is seen of the manager. -/
inductive Out (O : Type*) where
  /-- A request of this generation is handed to the provider, with this
  history. -/
  | requested (sessionID gen : Nat) (history : List Message)
  /-- An `ai:response` event. -/
  | emit (event : AIResponseEvent)
  | provider (call : SendCall) (o : O)
  /-- The turn of a generation that has finished is appended. -/
  | turn (sessionID gen : Nat) (turn : List Message)

-- ======== sections

def responseText (events : List StreamEvent) : Text :=
  (events.filter (·.type = .text)).flatMap StreamEvent.content

/-- A turn: the user's message, and the answer, if there is any. -/
def turnOf (call : SendCall) (events : List StreamEvent) : List Message :=
  ⟨.user, call.message⟩ ::
    (if responseText events ≠ [] then
      [⟨.assistant, responseText events⟩] else [])

def requestOf (call : SendCall) (session : Session) : Request where
  sessionID := call.sessionID
  message := call.message
  systemPrompt := call.systemPrompt
  model := call.model
  isResume := session.hasHistory
  history := session.messages
  k8sContext := call.k8sContext
  allowedTools := call.allowedTools
  allowedCommands := call.allowedCommands

variable {P A G O : Type*}

/-- What comes of a step of the provider. -/
def provided (call : SendCall) (gen : Nat) (events : List StreamEvent)
    (first second : Option CtxErr) (w : World G) (e : Streamed P G O) :
    Effect (World G) (Frame P) (Out O) :=
  let out := e.out.map (Out.provider call)
    ++ e.events.map fun event => .emit (respond call.sessionID gen event)
  let world := { w with tools := e.tools }
  match e.provided with
  | .more p =>
    { world, frames := [.provide call gen (events ++ e.events) p], out }
  | .returned none =>
    { world, frames := [.append call gen (events ++ e.events)], out }
  | .returned (some err) =>
    { world,
      out := out ++ [.emit (failed call.sessionID gen err first second)] }
  | .panicked value =>
    { world, out := out ++ [.emit (recovered call.sessionID gen value)] }

/-- The sections and the steps of a provider. -/
def exec (provider : Provider P A G O) :
    Exec (World G) (Frame P) (Env A) (Out O)
  | .startSession id, .tick, w =>
    match w.sessions.lookup id with
    | some _ => none
    | none =>
      some { world := { w with sessions := w.sessions.insert id {} } }
  | .sendMessage call, .context ready, w =>
    match w.sessions.lookup call.sessionID with
    | none =>
      some { world := w
             out := [.emit { sessionID := call.sessionID
                             error := Text.ofString "session not found"
                             done := true }] }
    | some _ =>
      if ready then some { world := w, frames := [.snapshot call] }
      else
        some { world := w
               out := [.emit { sessionID := call.sessionID
                               error := Text.ofString
                                 "app context not initialized"
                               done := true }] }
  | .snapshot call, .tick, w =>
    (w.sessions.lookup call.sessionID).map fun session =>
      let gen := session.generation + 1
      { world := { w with
          sessions := w.sessions.insert call.sessionID
            { session with generation := gen } }
        frames := [.provide call gen []
          (provider.begin (requestOf call session))]
        out := [.requested call.sessionID gen session.messages] }
  | .provide call gen events p, .provider a first second, w =>
    (provider.step p a w.tools).map
      (provided call gen events first second w)
  | .append call gen events, .tick, w =>
    (w.sessions.lookup call.sessionID).map fun session =>
      { world := { w with
          sessions := w.sessions.insert call.sessionID
            { session with
              hasHistory := true
              messages := session.messages ++ turnOf call events }
          turns := w.turns ++ [(call.sessionID, gen)] }
        out := [.turn call.sessionID gen (turnOf call events)] }
  | .cancelRequest _, .tick, w => some { world := w }
  | _, _, _ => none

-- ======== what steps do

/-- The session and generation of a request in progress. -/
def Frame.tag : Frame P → Option (Nat × Nat)
  | .provide call gen _ _ => some (call.sessionID, gen)
  | .append call gen _ => some (call.sessionID, gen)
  | _ => none

/-- The provider has streamed a done event. -/
def Frame.answered : Frame P → Bool
  | .provide _ _ events _ => events.any (·.type = .done)
  | .append _ _ events => events.any (·.type = .done)
  | _ => false

/-- The generation of a session, 0 before it is started. -/
def World.generation (w : World G) (sessionID : Nat) : Nat :=
  (w.sessions.lookup sessionID).elim 0 Session.generation

theorem exec_provide_iff {provider : Provider P A G O} {call : SendCall}
    {gen : Nat} {events : List StreamEvent} {p : P} {env : Env A}
    {w : World G} {effect : Effect (World G) (Frame P) (Out O)} :
    exec provider (.provide call gen events p) env w = some effect
      ↔ ∃ a first second e, env = .provider a first second
        ∧ provider.step p a w.tools = some e
        ∧ effect = provided call gen events first second w e := by
  constructor
  · intro h
    cases env with
    | provider a first second =>
      obtain ⟨e, he, heffect⟩ := Option.map_eq_some_iff.mp h
      exact ⟨a, first, second, e, rfl, he, heffect.symm⟩
    | _ => cases h
  · rintro ⟨a, first, second, e, rfl, he, rfl⟩
    exact Option.map_eq_some_iff.mpr ⟨e, he, rfl⟩

theorem exec_snapshot_iff {provider : Provider P A G O} {call : SendCall}
    {env : Env A} {w : World G}
    {effect : Effect (World G) (Frame P) (Out O)} :
    exec provider (.snapshot call) env w = some effect
      ↔ ∃ session, env = .tick
        ∧ w.sessions.lookup call.sessionID = some session
        ∧ effect =
          { world := { w with
              sessions := w.sessions.insert call.sessionID
                { session with generation := session.generation + 1 } }
            frames := [.provide call (session.generation + 1) []
              (provider.begin (requestOf call session))]
            out := [.requested call.sessionID (session.generation + 1)
              session.messages] } := by
  constructor
  · intro h
    cases env with
    | tick =>
      obtain ⟨session, hsession, heffect⟩ := Option.map_eq_some_iff.mp h
      exact ⟨session, rfl, hsession, heffect.symm⟩
    | _ => cases h
  · rintro ⟨session, rfl, hsession, rfl⟩
    exact Option.map_eq_some_iff.mpr ⟨session, hsession, rfl⟩

theorem exec_append_iff {provider : Provider P A G O} {call : SendCall}
    {gen : Nat} {events : List StreamEvent} {env : Env A} {w : World G}
    {effect : Effect (World G) (Frame P) (Out O)} :
    exec provider (.append call gen events) env w = some effect
      ↔ ∃ session, env = .tick
        ∧ w.sessions.lookup call.sessionID = some session
        ∧ effect =
          { world := { w with
              sessions := w.sessions.insert call.sessionID
                { session with
                  hasHistory := true
                  messages := session.messages ++ turnOf call events }
              turns := w.turns ++ [(call.sessionID, gen)] }
            out := [.turn call.sessionID gen (turnOf call events)] } := by
  constructor
  · intro h
    cases env with
    | tick =>
      obtain ⟨session, hsession, heffect⟩ := Option.map_eq_some_iff.mp h
      exact ⟨session, rfl, hsession, heffect.symm⟩
    | _ => cases h
  · rintro ⟨session, rfl, hsession, rfl⟩
    exact Option.map_eq_some_iff.mpr ⟨session, hsession, rfl⟩

/-- What is left of a request behind a step of its provider: nothing, or
one frame that knows of all events. -/
theorem frames_provided (call : SendCall) (gen : Nat)
    (events : List StreamEvent) (first second : Option CtxErr)
    (w : World G) (e : Streamed P G O) :
    (provided call gen events first second w e).frames = []
      ∨ ∃ f, (provided call gen events first second w e).frames = [f]
        ∧ f.tag = some (call.sessionID, gen)
        ∧ f.answered = (events ++ e.events).any (·.type = .done) := by
  obtain ⟨tools, rest, new, out⟩ := e
  rcases rest with p | (- | err) | value
  · exact Or.inr ⟨_, rfl, rfl, rfl⟩
  · exact Or.inr ⟨_, rfl, rfl, rfl⟩
  · exact Or.inl rfl
  · exact Or.inl rfl

/-- An event is done where the provider says so, or nothing comes
behind. -/
theorem respond_done (sessionID gen : Nat) (event : StreamEvent) :
    (respond sessionID gen event).done = (event.type = .done : Bool) := by
  unfold respond
  cases event.type <;> rfl

/-- What is seen of a step of a provider. -/
theorem out_provided {call : SendCall} {gen : Nat}
    {events : List StreamEvent} {first second : Option CtxErr}
    {w : World G} {e : Streamed P G O} {o : Out O}
    (h : o ∈ (provided call gen events first second w e).out) :
    (∃ o', o = .provider call o')
      ∨ ∃ event, o = .emit event ∧ event.sessionID = call.sessionID
        ∧ event.generation = gen
        ∧ (event.done = true →
          (provided call gen events first second w e).frames = []
            ∨ e.events.any (·.type = .done) = true) := by
  have hstream : ∀ o ∈ e.out.map (Out.provider call)
      ++ e.events.map fun event => .emit (respond call.sessionID gen event),
      (∃ o', o = .provider call o')
        ∨ ∃ event, o = .emit event ∧ event.sessionID = call.sessionID
          ∧ event.generation = gen
          ∧ (event.done = true →
            e.events.any (·.type = .done) = true) := by
    intro o ho
    rcases List.mem_append.mp ho with ho | ho
    · obtain ⟨o', -, rfl⟩ := List.mem_map.mp ho
      exact Or.inl ⟨o', rfl⟩
    · obtain ⟨event, hevent, rfl⟩ := List.mem_map.mp ho
      refine Or.inr ⟨_, rfl, ?_, ?_, fun hdone => ?_⟩
      · unfold respond
        cases event.type <;> rfl
      · unfold respond
        cases event.type <;> rfl
      · rw [respond_done] at hdone
        exact List.any_eq_true.mpr ⟨event, hevent, hdone⟩
  obtain ⟨tools, rest, new, out⟩ := e
  rcases rest with p | (- | err) | value
  · rcases hstream o h with h | ⟨event, rfl, hid, hgen, hdone⟩
    · exact Or.inl h
    · exact Or.inr ⟨event, rfl, hid, hgen, fun h => Or.inr (hdone h)⟩
  · rcases hstream o h with h | ⟨event, rfl, hid, hgen, hdone⟩
    · exact Or.inl h
    · exact Or.inr ⟨event, rfl, hid, hgen, fun h => Or.inr (hdone h)⟩
  · rcases List.mem_append.mp h with h | h
    · rcases hstream o h with h | ⟨event, rfl, hid, hgen, hdone⟩
      · exact Or.inl h
      · exact Or.inr ⟨event, rfl, hid, hgen, fun h => Or.inr (hdone h)⟩
    · obtain rfl := List.mem_singleton.mp h
      refine Or.inr ⟨_, rfl, ?_, ?_, fun _ => Or.inl rfl⟩
      · unfold failed
        split
        · rfl
        · split <;> rfl
      · unfold failed
        split
        · rfl
        · split <;> rfl
  · rcases List.mem_append.mp h with h | h
    · rcases hstream o h with h | ⟨event, rfl, hid, hgen, hdone⟩
      · exact Or.inl h
      · exact Or.inr ⟨event, rfl, hid, hgen, fun h => Or.inr (hdone h)⟩
    · obtain rfl := List.mem_singleton.mp h
      exact Or.inr ⟨_, rfl, rfl, rfl, fun _ => Or.inl rfl⟩

theorem provider_mem_provided {call call' : SendCall} {gen : Nat}
    {events : List StreamEvent} {first second : Option CtxErr}
    {w : World G} {e : Streamed P G O} {o : O} :
    .provider call' o ∈ (provided call gen events first second w e).out
      ↔ call' = call ∧ o ∈ e.out := by
  obtain ⟨tools, rest, new, out⟩ := e
  rcases rest with p | (- | err) | value <;>
    simp [provided, eq_comm, and_comm]

theorem tools_provided (call : SendCall) (gen : Nat)
    (events : List StreamEvent) (first second : Option CtxErr)
    (w : World G) (e : Streamed P G O) :
    (provided call gen events first second w e).world
      = { w with tools := e.tools } := by
  obtain ⟨tools, rest, new, out⟩ := e
  rcases rest with p | (- | err) | value <;> rfl

def framesOf : Call → List (Frame P)
  | .startSession id => [.startSession id]
  | .sendMessage call => [.sendMessage call]
  | .cancelRequest id => [.cancelRequest id]

def initial (tools : G) : Sys (World G) (Frame P) := ⟨⟨∅, tools, []⟩, []⟩

end Ai
