/-
AI requests over persistent CLI sessions (pkg/ai/manager.go,
`SendMessage`, `sendMessagePersistent`, and what closes sessions).

# Sections

Each critical section of `m.mu` is one step, and so is the question which
mode the provider supports and each message that a CLI session takes. The
goroutine that sends a message goes on where `SendMessage` has returned.

# Sessions

A session is an object that calls go on holding after it has been taken
out of the manager's map, so a session stays where it is and says whether
it is in the map. IDs are fresh, so an ID is the place of its session.

# CLI sessions

What a provider has started is one, too, until it is closed or exits. It
takes messages and answers them one after the other, and calls back with
events. It may do all of this at any time, as far as the manager knows.

# Left out

Contexts and the requests of one-shot mode, of which only the section that
counts the generation up is here. A CLI session that could not be started
does not call back.
-/
import Kubikles.Ai.OneShot
import Kubikles.Lib.Place
import Kubikles.Lib.StableSort

namespace Ai.Persistent

open Goroutine (Exec Effect Sys)

-- ======== helpers

/-- `'/'`. -/
def slash : UInt8 := 47

/-- `parseModel`: a provider and the name of its model. -/
def parseModel (compound : Text) : Text × Text :=
  let idx := compound.idxOf slash
  if idx < compound.length then
    (compound.take idx, compound.drop (idx + 1))
  else ([], compound)

def sortStrings (a : List Text) : List Text := StableSort.sortBy id a

def sortedEqual (a b : List Text) : Bool :=
  if a.length ≠ b.length then false else sortStrings a = sortStrings b

-- ======== state

/-- A session that a provider has started. -/
structure CLISession where
  /-- The `sessionID` that its `onEvent` has captured. -/
  sessionID : Nat
  closed : Bool := false
  exited : Bool := false
  /-- The generations of the messages it has taken and not yet answered,
  in order. -/
  queue : List Nat := []
deriving DecidableEq

def CLISession.isAlive (k : CLISession) : Bool := !k.closed && !k.exited

def CLISession.close (k : CLISession) : CLISession :=
  { k with closed := true }

/-- `session`; a CLI session is known by its place. -/
structure Session where
  clientID : Text
  /-- It is in the map. -/
  listed : Bool := true
  generation : Nat := 0
  cliSession : Option Nat := none
  model : Text := []
  allowedTools : List Text := []
  allowedCommands : List Text := []
deriving DecidableEq

/-- `Manager`, and all sessions there ever were. -/
structure World where
  providerID : Text := []
  /-- There is a registry. -/
  registry : Bool := true
  sessions : List Session := []
  cliSessions : List CLISession := []

/-- `m.sessions[id]`. -/
def World.lookup (w : World) (id : Nat) : Option Session :=
  w.sessions[id]?.filter (·.listed)

/-- The calls, and what CLI sessions do. -/
inductive Call where
  | startSession (clientID : Text)
  | sendMessage (call : SendCall)
  | clearSession (id : Nat)
  | closeSession (id : Nat)
  | closeAllSessions
  | onClientDisconnect (clientID : Text)
  /-- A CLI session calls back, with an event of its answer to the first of
  its messages, if it has any. -/
  | onEvent (c : Nat) (event : StreamEvent)
  | answered (c : Nat)
  | exits (c : Nat)
deriving DecidableEq

/-- What a goroutine has to do. -/
inductive Frame where
  | call (c : Call)
  /-- Is `SupportsSession` true? -/
  | chooseMode (call : SendCall)
  /-- The section of `sendMessagePersistent`. -/
  | persistent (call : SendCall)
  /-- The goroutine that hands a message over. -/
  | send (id c gen : Nat) (message : Text)
  /-- The section behind a message that could not be sent. -/
  | clear (id c : Nat)
  /-- The section of `sendMessageOneShot`. -/
  | oneShot (id : Nat)
deriving DecidableEq

/-- The answers of the environment. -/
inductive Env where
  | tick
  /-- Whether the provider asked for can be created and is available, and
  whether there is an app context. -/
  | sending (created : Except Text Bool) (ready : Bool)
  | supports (session : Bool)
  /-- What the provider's `StartSession` returns. -/
  | start (err : Option Text)
  | sent (err : Option Text)

/-- What is seen of the manager. -/
inductive Out where
  | session (id : Nat)
  /-- The provider's `StartSession` is called, with the arguments of this
  call. -/
  | start (call : SendCall)
  /-- An `ai:response` event, and the generation of the message that it
  answers, if it does answer one. -/
  | emit (answers : Option Nat) (event : AIResponseEvent)
deriving DecidableEq

-- ======== closing

def closeAll (cs : List Nat) (cliSessions : List CLISession) :
    List CLISession :=
  cs.foldl (fun ks c => ks.modify c CLISession.close) cliSessions

/-- The CLI sessions of the sessions in the map that are meant. -/
def World.closes (w : World) (p : Nat → Session → Bool) : List Nat :=
  w.sessions.zipIdx.filterMap fun (s, id) =>
    if s.listed && p id s then s.cliSession else none

/-- A loop over the map that closes the CLI sessions of those that are
meant, and what becomes of these. -/
def World.retire (w : World) (p : Nat → Session → Bool)
    (f : Session → Session) : World :=
  { w with
    sessions := w.sessions.mapIdx fun id s =>
      if s.listed && p id s then f s else s
    cliSessions := closeAll (w.closes p) w.cliSessions }

/-- `delete(m.sessions, id)`, with the CLI session closed. -/
def World.remove (w : World) (p : Nat → Session → Bool) : World :=
  w.retire p fun s => { s with listed := false }

/-- The CLI session closed and taken out of the session. -/
def World.drop (w : World) (p : Nat → Session → Bool) : World :=
  w.retire p fun s => { s with cliSession := none }

-- ======== sections

/-- The model or what is allowed is not what the CLI session was started
with. -/
def Session.changed (s : Session) (call : SendCall) : Bool :=
  s.model ≠ call.model || !sortedEqual s.allowedTools call.allowedTools
    || !sortedEqual s.allowedCommands call.allowedCommands

/-- The CLI session that a session keeps for its next message: one that
was started with the same arguments and is alive. -/
def World.kept (w : World) (s : Session) (call : SendCall) : Option Nat :=
  s.cliSession.filter fun c =>
    !s.changed call && w.cliSessions[c]?.any CLISession.isAlive

/-- The session where none is kept: it has none, and what the next is to be
started with. -/
def Session.cleared (s : Session) (call : SendCall) : Session :=
  { s with
    generation := s.generation + 1
    cliSession := none
    model := call.model
    allowedTools := call.allowedTools
    allowedCommands := call.allowedCommands }

/-- The CLI session there was is closed if it is not what is asked for, and
else it is dead. -/
def World.cleared (w : World) (s : Session) (call : SendCall) : World :=
  { w with
    sessions := w.sessions.set call.sessionID (s.cleared call)
    cliSessions := closeAll
      (if s.changed call then s.cliSession.toList else []) w.cliSessions }

def World.start (w : World) (id : Nat) (s : Session) : World :=
  { w with
    sessions := w.sessions.set id
      { s with cliSession := some w.cliSessions.length }
    cliSessions := w.cliSessions ++ [{ sessionID := id }] }

/-- `SendMessage` has emitted an error and returns false. -/
def refused (call : SendCall) (err : Text) (w : World) :
    Effect World Frame Out where
  world := w
  out := [.emit none
    { sessionID := call.sessionID, error := err, done := true }]

/-- Behind the switch of the provider: what was looked up before it is in
the map still. -/
def switched (call : SendCall) (modelName : Text) (ready : Bool)
    (w : World) : Effect World Frame Out :=
  match w.lookup call.sessionID with
  | none => refused call (Text.ofString "session not found") w
  | some _ =>
    if ready then
      { world := w
        frames := [.chooseMode { call with model := modelName }] }
    else refused call (Text.ofString "app context not initialized") w

/-- The first section of `SendMessage` and what follows up to the choice of
the mode; `quote` is `%q`. -/
def sendMessage (quote : Text → Text) (call : SendCall)
    (created : Except Text Bool) (ready : Bool) (w : World) :
    Effect World Frame Out :=
  let (wantProvider, modelName) := parseModel call.model
  if wantProvider ≠ [] ∧ wantProvider ≠ w.providerID ∧ w.registry then
    match created with
    | .error err =>
      refused call (Text.ofString "provider " ++ quote wantProvider
        ++ Text.ofString " not available: " ++ err) w
    | .ok false =>
      refused call (Text.ofString "provider " ++ quote wantProvider
        ++ Text.ofString " is not available") w
    | .ok true =>
      -- Their CLI sessions are bound to the old provider.
      switched call modelName ready
        { w.drop (fun _ _ => true) with providerID := wantProvider }
  else switched call modelName ready w

/-- The section of `sendMessagePersistent`, on a session that may have been
taken out of the map since. -/
def sendPersistent (call : SendCall) (err : Option Text) (s : Session)
    (w : World) : Effect World Frame Out :=
  let gen := s.generation + 1
  match w.kept s call, err with
  | some c, _ =>
    { world := { w with
        sessions := w.sessions.set call.sessionID
          { s with generation := gen } }
      frames := [.send call.sessionID c gen call.message] }
  | none, some err =>
    { world := w.cleared s call
      out := [.start call, .emit (some gen)
        { sessionID := call.sessionID, generation := gen
          error := Text.ofString "failed to start session: " ++ err
          done := true }] }
  | none, none =>
    let w := w.cleared s call
    { world := w.start call.sessionID (s.cleared call)
      frames := [.send call.sessionID w.cliSessions.length gen
        call.message]
      out := [.start call] }

def onEvent (c : Nat) (event : StreamEvent) (k : CLISession) (w : World) :
    List Out :=
  match w.lookup k.sessionID with
  | none => []
  | some s =>
    if s.cliSession = some c then
      [.emit k.queue.head? (respond k.sessionID s.generation event)]
    else []

/-- The sections, and what CLI sessions do. -/
def exec (quote : Text → Text) : Exec World Frame Env Out
  | .call (.startSession clientID), .tick, w =>
    some { world := { w with sessions := w.sessions ++ [{ clientID }] }
           out := [.session w.sessions.length] }
  | .call (.sendMessage call), .sending created ready, w =>
    some (sendMessage quote call created ready w)
  | .call (.clearSession id), .tick, w =>
    -- The ID may be unknown; the new session then has no client.
    let clientID := (w.lookup id).elim [] Session.clientID
    let w := w.remove fun id' _ => id' = id
    some { world := { w with sessions := w.sessions ++ [{ clientID }] }
           out := [.session w.sessions.length] }
  | .call (.closeSession id), .tick, w =>
    some { world := w.remove fun id' _ => id' = id }
  | .call .closeAllSessions, .tick, w =>
    some { world := w.remove fun _ _ => true }
  | .call (.onClientDisconnect clientID), .tick, w =>
    some { world := w.remove fun _ s => s.clientID = clientID }
  | .call (.onEvent c event), .tick, w =>
    w.cliSessions[c]?.map fun k =>
      { world := w, out := onEvent c event k w }
  | .call (.answered c), .tick, w =>
    some { world := { w with
      cliSessions := w.cliSessions.modify c fun k =>
        { k with queue := k.queue.tail } } }
  | .call (.exits c), .tick, w =>
    some { world := { w with
      cliSessions := w.cliSessions.modify c fun k =>
        { k with exited := true } } }
  | .chooseMode call, .supports session, w =>
    some { world := w
           frames := [if session then .persistent call
             else .oneShot call.sessionID] }
  | .persistent call, .start err, w =>
    w.sessions[call.sessionID]?.map fun s => sendPersistent call err s w
  | .send id c gen _, .sent err, w =>
    match err with
    | none =>
      some { world := { w with
        cliSessions := w.cliSessions.modify c fun k =>
          { k with queue := k.queue ++ [gen] } } }
    | some err =>
      some { world := w
             frames := [.clear id c]
             out := [.emit (some gen)
               { sessionID := id, generation := gen
                 error := Text.ofString "failed to send message: " ++ err
                 done := true }] }
  | .clear id c, .tick, w =>
    some { world := w.drop fun id' s =>
      id' = id && s.cliSession = some c }
  | .oneShot id, .tick, w =>
    some { world := { w with
      sessions := w.sessions.modify id fun s =>
        { s with generation := s.generation + 1 } } }
  | _, _, _ => none

def framesOf (c : Call) : List Frame := [.call c]

def initial (providerID : Text) (registry : Bool) : Sys World Frame :=
  ⟨{ providerID, registry }, []⟩

-- ======== what closing does

variable {w w' w'' : World} {p : Nat → Session → Bool}
variable {f : Session → Session}

theorem lookup_iff {id : Nat} {s : Session} :
    w.lookup id = some s
      ↔ w.sessions[id]? = some s ∧ s.listed = true :=
  Option.filter_eq_some_iff

theorem closeAll_getElem? (cs : List Nat) (ks : List CLISession)
    (c : Nat) :
    (closeAll cs ks)[c]?
      = ks[c]?.map fun k => if c ∈ cs then k.close else k := by
  induction cs generalizing ks with
  | nil => simp [closeAll]
  | cons d cs ih =>
    show (closeAll cs (ks.modify d CLISession.close))[c]? = _
    rw [ih, List.getElem?_modify]
    cases ks[c]? with
    | none => rfl
    | some k =>
      by_cases hd : d = c
      · subst hd
        by_cases hc : d ∈ cs <;> simp [hc, CLISession.close]
      · have hd' : ¬ c = d := fun h => hd h.symm
        by_cases hc : c ∈ cs <;> simp [hc, hd, hd']

theorem closeAll_cases {cs : List Nat} {ks : List CLISession} {c : Nat}
    {k' : CLISession} (h : (closeAll cs ks)[c]? = some k') :
    ∃ k, ks[c]? = some k ∧ k'.sessionID = k.sessionID
      ∧ k'.queue = k.queue
      ∧ (k'.isAlive = true → k.isAlive = true ∧ c ∉ cs) := by
  rw [closeAll_getElem?] at h
  obtain ⟨k, hk, rfl⟩ := Option.map_eq_some_iff.mp h
  refine ⟨k, hk, ?_⟩
  split
  next => exact ⟨rfl, rfl, fun halive => by cases halive⟩
  next hc => exact ⟨rfl, rfl, fun halive => ⟨halive, hc⟩⟩

theorem closeAll_stays {ks : List CLISession} {c : Nat} {k : CLISession}
    (cs : List Nat) (h : ks[c]? = some k) :
    ∃ k', (closeAll cs ks)[c]? = some k' ∧ k'.sessionID = k.sessionID := by
  rw [closeAll_getElem?, h]
  by_cases hc : c ∈ cs
  · exact ⟨k.close, by simp [hc], rfl⟩
  · exact ⟨k, by simp [hc], rfl⟩

theorem mem_closes {c : Nat} :
    c ∈ w.closes p
      ↔ ∃ id s, w.lookup id = some s ∧ p id s = true
        ∧ s.cliSession = some c := by
  unfold World.closes
  rw [List.mem_filterMap]
  constructor
  · rintro ⟨⟨s, id⟩, hmem, hc⟩
    have hs := List.mem_zipIdx_iff_getElem?.mp hmem
    simp only at hc
    split at hc
    next hp =>
      rw [Bool.and_eq_true] at hp
      exact ⟨id, s, lookup_iff.mpr ⟨hs, hp.1⟩, hp.2, hc⟩
    next => cases hc
  · rintro ⟨id, s, hs, hp, hc⟩
    obtain ⟨hs, hlisted⟩ := lookup_iff.mp hs
    refine ⟨(s, id), List.mem_zipIdx_iff_getElem?.mpr hs, ?_⟩
    simp only
    rw [if_pos (by rw [hlisted, hp]; rfl)]
    exact hc

theorem retire_sessions (id : Nat) :
    (w.retire p f).sessions[id]?
      = w.sessions[id]?.map fun s =>
        if s.listed && p id s then f s else s := by
  unfold World.retire
  exact List.getElem?_mapIdx

-- ======== quiet steps

/-- A step that hands no message over, counts no generation up and starts
no CLI session. It keeps every session and every CLI session at its place;
one that is still alive has not lost the session it is the CLI session
of. -/
structure Quiet (w w' : World) : Prop where
  session : ∀ {id : Nat} {s' : Session} {c : Nat},
    w'.sessions[id]? = some s' → s'.cliSession = some c →
      ∃ s, w.sessions[id]? = some s ∧ s.cliSession = some c
        ∧ s'.generation = s.generation
  cli : ∀ {c : Nat} {k' : CLISession}, w'.cliSessions[c]? = some k' →
    ∃ k, w.cliSessions[c]? = some k ∧ k'.sessionID = k.sessionID
      ∧ (k'.isAlive = true → k.isAlive = true)
      ∧ ∀ g ∈ k'.queue, g ∈ k.queue
  stays : ∀ {c : Nat} {k : CLISession}, w.cliSessions[c]? = some k →
    ∃ k', w'.cliSessions[c]? = some k'
  owner : ∀ {id : Nat} {s : Session} {c : Nat} {k' : CLISession},
    w.lookup id = some s → s.cliSession = some c →
      w'.cliSessions[c]? = some k' → k'.isAlive = true →
        ∃ s', w'.lookup id = some s' ∧ s'.cliSession = some c

theorem Quiet.refl (w : World) : Quiet w w where
  session := fun hs hc => ⟨_, hs, hc, rfl⟩
  cli := fun hk => ⟨_, hk, rfl, fun h => h, fun _ h => h⟩
  stays := fun hk => ⟨_, hk⟩
  owner := fun hs hc _ _ => ⟨_, hs, hc⟩

theorem Quiet.trans (h : Quiet w w') (h' : Quiet w' w'') :
    Quiet w w'' where
  session := fun hs hc => by
    obtain ⟨s', hs', hc', hgen'⟩ := h'.session hs hc
    obtain ⟨s, hs, hc, hgen⟩ := h.session hs' hc'
    exact ⟨s, hs, hc, hgen'.trans hgen⟩
  cli := fun hk => by
    obtain ⟨k', hk', hid', halive', hqueue'⟩ := h'.cli hk
    obtain ⟨k, hk, hid, halive, hqueue⟩ := h.cli hk'
    exact ⟨k, hk, hid'.trans hid, fun h => halive (halive' h),
      fun g hg => hqueue g (hqueue' g hg)⟩
  stays := fun hk => by
    obtain ⟨k', hk'⟩ := h.stays hk
    exact h'.stays hk'
  owner := fun hs hc hk halive => by
    obtain ⟨k', hk', -, halive', -⟩ := h'.cli hk
    obtain ⟨s', hs', hc'⟩ := h.owner hs hc hk' (halive' halive)
    exact h'.owner hs' hc' hk halive

theorem quiet_add (w : World) (clientID : Text) :
    Quiet w { w with sessions := w.sessions ++ [{ clientID }] } where
  session := fun hs hc => by
    rcases Place.append_cases hs with hs | ⟨-, rfl⟩
    · exact ⟨_, hs, hc, rfl⟩
    · -- The new one has no CLI session.
      cases hc
  cli := (Quiet.refl w).cli
  stays := (Quiet.refl w).stays
  owner := fun hs hc _ _ => by
    obtain ⟨hs, hlisted⟩ := lookup_iff.mp hs
    exact ⟨_, lookup_iff.mpr ⟨Place.append_of_some hs, hlisted⟩, hc⟩

theorem quiet_retire (w : World) (p : Nat → Session → Bool)
    (hf : ∀ s c, (f s).cliSession = some c →
      s.cliSession = some c ∧ (f s).generation = s.generation) :
    Quiet w (w.retire p f) where
  session := fun {id s' c} hs hc => by
    rw [retire_sessions] at hs
    obtain ⟨s, hget, rfl⟩ := Option.map_eq_some_iff.mp hs
    split at hc
    next hp =>
      obtain ⟨hc, hgen⟩ := hf s c hc
      rw [if_pos hp]
      exact ⟨s, hget, hc, hgen⟩
    next hp =>
      rw [if_neg hp]
      exact ⟨s, hget, hc, rfl⟩
  cli := fun hk => by
    obtain ⟨k, hk, hid, hqueue, halive⟩ := closeAll_cases hk
    exact ⟨k, hk, hid, fun h => (halive h).1, fun g hg => hqueue ▸ hg⟩
  stays := fun hk => by
    obtain ⟨k', hk', -⟩ := closeAll_stays (w.closes p) hk
    exact ⟨k', hk'⟩
  owner := fun {id s c k'} hs hc hk halive => by
    obtain ⟨_, _, _, _, hopen⟩ := closeAll_cases hk
    have hnot := (hopen halive).2
    obtain ⟨hget, hlisted⟩ := lookup_iff.mp hs
    have hp : ¬ (s.listed && p id s) = true := by
      intro hp
      rw [Bool.and_eq_true] at hp
      exact hnot (mem_closes.mpr ⟨id, s, hs, hp.2, hc⟩)
    refine ⟨s, lookup_iff.mpr ⟨?_, hlisted⟩, hc⟩
    rw [retire_sessions, hget, Option.map_some, if_neg hp]

theorem quiet_remove (w : World) (p : Nat → Session → Bool) :
    Quiet w (w.remove p) :=
  quiet_retire w p fun _ _ hc => ⟨hc, rfl⟩

theorem quiet_drop (w : World) (p : Nat → Session → Bool) :
    Quiet w (w.drop p) :=
  quiet_retire w p fun _ _ hc => by cases hc

theorem quiet_modify (w : World) (c : Nat)
    {g : CLISession → CLISession}
    (hid : ∀ k, (g k).sessionID = k.sessionID)
    (halive : ∀ k, (g k).isAlive = true → k.isAlive = true)
    (hqueue : ∀ k, ∀ n ∈ (g k).queue, n ∈ k.queue) :
    Quiet w { w with cliSessions := w.cliSessions.modify c g } where
  session := fun hs hc => ⟨_, hs, hc, rfl⟩
  cli := fun hk => by
    obtain ⟨k, hget, ⟨-, rfl⟩ | ⟨-, rfl⟩⟩ := Place.modify_cases hk
    · exact ⟨k, hget, hid k, halive k, hqueue k⟩
    · exact ⟨_, hget, rfl, fun h => h, fun _ h => h⟩
  stays := fun hk => ⟨_, Place.modify_of_some hk⟩
  owner := fun hs hc _ _ => ⟨_, hs, hc⟩

-- ======== what a step does

/-- The message that a frame hands over: to which CLI session, and its
generation. -/
def Frame.sends : Frame → Option (Nat × Nat)
  | .send _ c gen _ => some (c, gen)
  | _ => none

/-- An event has the generation of a session whose CLI session has still
to answer the message of generation `g`. -/
def Answers (w : World) (g : Nat) (event : AIResponseEvent) : Prop :=
  ∃ (id : Nat) (s : Session) (c : Nat) (k : CLISession),
    w.sessions[id]? = some s ∧ s.cliSession = some c
      ∧ w.cliSessions[c]? = some k ∧ g ∈ k.queue
      ∧ event.generation = s.generation

/-- A quiet step leaves no message to be handed over, and what it emits
about one is of its generation, or is an answer. -/
structure QuietEffect (w : World) (effect : Effect World Frame Out) :
    Prop where
  world : Quiet w effect.world
  frames : ∀ g ∈ effect.frames, g.sends = none
  out : ∀ g event, Out.emit (some g) event ∈ effect.out →
    event.generation = g ∨ Answers w g event

inductive Did (w : World) :
    Frame → Env → Effect World Frame Out → Prop where
  | quiet {f : Frame} {env : Env} {effect : Effect World Frame Out}
      (h : QuietEffect w effect) : Did w f env effect
  | persistent {call : SendCall} {err : Option Text} {s : Session}
      (hs : w.sessions[call.sessionID]? = some s) :
      Did w (.persistent call) (.start err) (sendPersistent call err s w)
  | sent {id c gen : Nat} {message : Text} :
      Did w (.send id c gen message) (.sent none)
        { world := { w with
            cliSessions := w.cliSessions.modify c fun k =>
              { k with queue := k.queue ++ [gen] } } }
  | oneShot {id : Nat} :
      Did w (.oneShot id) .tick
        { world := { w with
            sessions := w.sessions.modify id fun s =>
              { s with generation := s.generation + 1 } } }

theorem quietEffect_world (h : Quiet w w') :
    QuietEffect w { world := w' } where
  world := h
  frames := fun _ hg => nomatch hg
  out := fun _ _ hmem => nomatch hmem

theorem quietEffect_add (h : Quiet w w') (clientID : Text) :
    QuietEffect w
      { world := { w' with sessions := w'.sessions ++ [{ clientID }] }
        out := [.session w'.sessions.length] } where
  world := h.trans (quiet_add w' clientID)
  frames := fun _ hg => nomatch hg
  out := fun g e hmem => by
    rw [List.mem_singleton] at hmem
    cases hmem

theorem quietEffect_refused (h : Quiet w w') (call : SendCall)
    (err : Text) : QuietEffect w (refused call err w') where
  world := h
  frames := fun _ hg => nomatch hg
  out := fun g e hmem => by
    rw [refused, List.mem_singleton, Out.emit.injEq] at hmem
    cases hmem.1

theorem quietEffect_switched (h : Quiet w w') (call : SendCall)
    (modelName : Text) (ready : Bool) :
    QuietEffect w (switched call modelName ready w') := by
  unfold switched
  split
  · exact quietEffect_refused h call _
  · split
    · refine ⟨h, fun g hg => ?_, fun _ _ hmem => nomatch hmem⟩
      rw [List.mem_singleton] at hg
      rw [hg]
      rfl
    · exact quietEffect_refused h call _

theorem quietEffect_sendMessage (quote : Text → Text) (call : SendCall)
    (created : Except Text Bool) (ready : Bool) (w : World) :
    QuietEffect w (sendMessage quote call created ready w) := by
  have hdrop := quiet_drop w fun _ _ => true
  have hnew : Quiet w { w.drop (fun _ _ => true) with
      providerID := (parseModel call.model).1 } :=
    ⟨hdrop.session, hdrop.cli, hdrop.stays, hdrop.owner⟩
  unfold sendMessage
  simp only
  split
  · split
    · exact quietEffect_refused (Quiet.refl w) call _
    · exact quietEffect_refused (Quiet.refl w) call _
    · exact quietEffect_switched hnew call _ ready
  · exact quietEffect_switched (Quiet.refl w) call _ ready

theorem respond_generation (sessionID gen : Nat) (event : StreamEvent) :
    (respond sessionID gen event).generation = gen := by
  unfold respond
  split <;> rfl

theorem onEvent_answers {c g : Nat} {event : StreamEvent} {k : CLISession}
    {e : AIResponseEvent} (hk : w.cliSessions[c]? = some k)
    (h : Out.emit (some g) e ∈ onEvent c event k w) : Answers w g e := by
  unfold onEvent at h
  split at h
  · cases h
  next s hs =>
    split at h
    next hc =>
      rw [List.mem_singleton, Out.emit.injEq] at h
      obtain ⟨hg, rfl⟩ := h
      refine ⟨_, s, c, k, (lookup_iff.mp hs).1, hc, hk, ?_,
        respond_generation ..⟩
      exact List.mem_of_head? hg.symm
    next => cases h

theorem exec_did {quote : Text → Text} {f : Frame} {env : Env}
    {effect : Effect World Frame Out}
    (h : exec quote f env w = some effect) : Did w f env effect := by
  cases f with
  | call c =>
    refine .quiet ?_
    cases env with
    | tick =>
      cases c with
      | startSession clientID =>
        cases h
        exact quietEffect_add (Quiet.refl w) clientID
      | sendMessage call => cases h
      | clearSession id =>
        cases h
        exact quietEffect_add (quiet_remove w _) _
      | closeSession id =>
        cases h
        exact quietEffect_world (quiet_remove w _)
      | closeAllSessions =>
        cases h
        exact quietEffect_world (quiet_remove w _)
      | onClientDisconnect clientID =>
        cases h
        exact quietEffect_world (quiet_remove w _)
      | onEvent c event =>
        obtain ⟨k, hk, rfl⟩ := Option.map_eq_some_iff.mp h
        exact ⟨Quiet.refl w, (fun _ hg => nomatch hg),
          fun g e hmem => .inr (onEvent_answers hk hmem)⟩
      | answered c =>
        cases h
        exact quietEffect_world (quiet_modify w c (fun _ => rfl)
          (fun _ halive => halive)
          fun _ _ hn => List.mem_of_mem_tail hn)
      | exits c =>
        cases h
        refine quietEffect_world (quiet_modify w c (fun _ => rfl)
          (fun k halive => ?_) fun _ _ hn => hn)
        simp [CLISession.isAlive] at halive
    | sending created ready =>
      cases c with
      | sendMessage call =>
        cases h
        exact quietEffect_sendMessage ..
      | _ => cases h
    | _ => cases c <;> cases h
  | chooseMode call =>
    cases env with
    | supports session =>
      cases h
      refine .quiet ⟨Quiet.refl w, fun g hg => ?_,
        fun _ _ hmem => nomatch hmem⟩
      rw [List.mem_singleton] at hg
      rw [hg]
      split <;> rfl
    | _ => cases h
  | persistent call =>
    cases env with
    | start err =>
      obtain ⟨s, hs, rfl⟩ := Option.map_eq_some_iff.mp h
      exact .persistent hs
    | _ => cases h
  | send id c gen message =>
    cases env with
    | sent err =>
      cases err with
      | none =>
        cases h
        exact .sent
      | some err =>
        cases h
        refine .quiet ⟨Quiet.refl w, fun g hg => ?_,
          fun g e hmem => .inl ?_⟩
        · rw [List.mem_singleton] at hg
          rw [hg]
          rfl
        · rw [List.mem_singleton, Out.emit.injEq] at hmem
          obtain ⟨hg, rfl⟩ := hmem
          exact (Option.some.inj hg).symm
    | _ => cases h
  | clear id c =>
    cases env with
    | tick =>
      cases h
      exact .quiet (quietEffect_world (quiet_drop w _))
    | _ => cases h
  | oneShot id =>
    cases env with
    | tick =>
      cases h
      exact .oneShot
    | _ => cases h

-- ======== what a session holds

/-- The CLI session of a session is there, and was started for it. -/
def Held (w : World) : Prop :=
  ∀ (id : Nat) (s : Session) (c : Nat), w.sessions[id]? = some s →
    s.cliSession = some c →
      ∃ k, w.cliSessions[c]? = some k ∧ k.sessionID = id

theorem Held.of_quiet (hi : Held w) (h : Quiet w w') : Held w' := by
  intro id s' c hs' hc'
  obtain ⟨s, hs, hc, -⟩ := h.session hs' hc'
  obtain ⟨k, hk, hid⟩ := hi id s c hs hc
  obtain ⟨k', hk'⟩ := h.stays hk
  obtain ⟨k₁, hk₁, hid', -⟩ := h.cli hk'
  rw [hk, Option.some.injEq] at hk₁
  exact ⟨k', hk', hid'.trans (hk₁ ▸ hid)⟩

theorem Held.inj (hi : Held w) {id id' c : Nat} {s s' : Session}
    (hs : w.sessions[id]? = some s) (hc : s.cliSession = some c)
    (hs' : w.sessions[id']? = some s') (hc' : s'.cliSession = some c) :
    id = id' := by
  obtain ⟨k, hk, rfl⟩ := hi id s c hs hc
  obtain ⟨k', hk', rfl⟩ := hi id' s' c hs' hc'
  rw [hk, Option.some.injEq] at hk'
  rw [hk']

theorem Held.lt (hi : Held w) {id c : Nat} {s : Session}
    (hs : w.sessions[id]? = some s) (hc : s.cliSession = some c) :
    c < w.cliSessions.length := by
  obtain ⟨k, hk, -⟩ := hi id s c hs hc
  exact (List.getElem?_eq_some_iff.mp hk).1

-- ======== `sendMessagePersistent`

variable {call : SendCall} {err : Option Text} {s : Session} {c : Nat}

theorem kept_iff :
    w.kept s call = some c
      ↔ s.cliSession = some c ∧ s.changed call = false
        ∧ ∃ k, w.cliSessions[c]? = some k ∧ k.isAlive = true := by
  unfold World.kept
  rw [Option.filter_eq_some_iff, Bool.and_eq_true, Option.any_eq_true,
    Bool.not_eq_true']

theorem lookup_set_ne {id id' : Nat} (h : id ≠ id') (a : Session)
    (ks : List CLISession) :
    ({ w with sessions := w.sessions.set id a
              cliSessions := ks } : World).lookup id' = w.lookup id' := by
  unfold World.lookup
  rw [List.getElem?_set_ne h]

/-- Clearing a session is quiet where none is kept: what it had is not
alive any more. -/
theorem quiet_cleared (hs : w.sessions[call.sessionID]? = some s)
    (hnone : w.kept s call = none) : Quiet w (w.cleared s call) where
  session := fun hs' hc' => by
    rcases Place.set_cases hs' with ⟨-, rfl⟩ | ⟨-, hs'⟩
    · cases hc'
    · exact ⟨_, hs', hc', rfl⟩
  cli := fun hk => by
    obtain ⟨k, hk, hid, hqueue, halive⟩ := closeAll_cases hk
    exact ⟨k, hk, hid, fun h => (halive h).1, fun g hg => hqueue ▸ hg⟩
  stays := fun hk => by
    obtain ⟨k', hk', -⟩ := closeAll_stays _ hk
    exact ⟨k', hk'⟩
  owner := fun {id s' c k'} hs' hc hk halive => by
    by_cases hid : call.sessionID = id
    · -- It would have been kept.
      subst hid
      have hget := (lookup_iff.mp hs').1
      rw [hs, Option.some.injEq] at hget
      subst hget
      obtain ⟨k, hget, -, -, hopen⟩ := closeAll_cases hk
      obtain ⟨halive', hnot⟩ := hopen halive
      have hsame : s.changed call = false := by
        by_contra hchanged
        rw [if_pos (by simpa using hchanged), hc] at hnot
        exact hnot (List.mem_singleton.mpr rfl)
      rw [kept_iff.mpr ⟨hc, hsame, k, hget, halive'⟩] at hnone
      cases hnone
    · exact ⟨s', (lookup_set_ne hid _ _).trans hs', hc⟩

theorem cleared_sessions (hs : w.sessions[call.sessionID]? = some s) :
    (w.cleared s call).sessions[call.sessionID]?
      = some (s.cleared call) :=
  Place.set_self hs

theorem Held.start {id : Nat} (hi : Held w) : Held (w.start id s) := by
  intro id' s' c' hs' hc'
  rcases Place.set_cases hs' with ⟨rfl, rfl⟩ | ⟨-, hs'⟩
  · obtain rfl := Option.some.inj hc'
    exact ⟨_, List.getElem?_concat_length, rfl⟩
  · obtain ⟨k, hk, hid⟩ := hi id' s' c' hs' hc'
    exact ⟨k, Place.append_of_some hk, hid⟩

theorem Held.sendPersistent (hi : Held w)
    (hs : w.sessions[call.sessionID]? = some s) :
    Held (sendPersistent call err s w).world := by
  unfold Persistent.sendPersistent
  split
  next c hkept =>
    intro id s' c' hs' hc'
    rcases Place.set_cases hs' with ⟨rfl, rfl⟩ | ⟨-, hs'⟩
    · exact hi _ s c' hs hc'
    · exact hi id s' c' hs' hc'
  next e hnone => exact hi.of_quiet (quiet_cleared hs hnone)
  next hnone => exact (hi.of_quiet (quiet_cleared hs hnone)).start

/-- The CLI sessions are those of the sessions they were started for, in
every state. -/
theorem Held.did (hi : Held w) {f : Frame} {env : Env}
    {effect : Effect World Frame Out} (h : Did w f env effect) :
    Held effect.world := by
  cases h with
  | quiet h => exact hi.of_quiet h.world
  | persistent hs => exact hi.sendPersistent hs
  | sent =>
    intro id s c hs hc
    obtain ⟨k, hk, hid⟩ := hi id s c hs hc
    refine ⟨_, Place.modify_of_some hk, ?_⟩
    split <;> exact hid
  | oneShot =>
    intro id s c hs hc
    obtain ⟨s, hget, ⟨-, rfl⟩ | ⟨-, rfl⟩⟩ := Place.modify_cases hs
    · exact hi id s c hget hc
    · exact hi id _ c hget hc

end Ai.Persistent
