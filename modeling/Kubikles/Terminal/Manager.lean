/-
Terminal sessions (pkg/terminal/manager.go, and what it uses of
session_unix.go and terminal.go).

# Sections

Each critical section of `m.mu` is one step, and so is the start of a
process and each `Close`, which are outside of it.

# Maps

IDs are fresh, so an ID is the place of its session, and both maps are kept
with the sessions: a session says whether it is in `sessions`, and what its
entry in `sessionClient` is. A loop over a map goes by place; what it does
to one entry does not depend on another.
-/
import Kubikles.Lib.Goroutine
import Kubikles.Lib.Place

namespace Terminal

open Goroutine (Exec Effect Sys)

-- ======== state

structure SessionOptions where
  ns : String
  pod : String
  container : String := ""
  context : String := ""
  command : String := ""
  clientID : String := ""
deriving DecidableEq

/-- `Session`, with its entries in the maps. -/
structure Session where
  opts : SessionOptions
  listed : Bool := false
  client : Option String := none
  closed : Bool := false
deriving DecidableEq

/-- `Manager`: every session whose process was started. -/
structure World where
  sessions : List Session := []

inductive Call where
  | startSession (opts : SessionOptions)
  | closeSession (id : Nat)
  | closeAllSessions
  | onClientDisconnect (clientID : String)
deriving DecidableEq

/-- What a goroutine has to do. -/
inductive Frame where
  | call (c : Call)
  /-- `newSession`. -/
  | create (opts : SessionOptions)
  /-- The section that puts a session into the maps. -/
  | register (id : Nat)
  /-- `session.Close()`. -/
  | close (id : Nat)
deriving DecidableEq

/-- The answers of the environment. -/
inductive Env where
  | tick
  | emitter (ready : Bool)
  /-- What `pty.Start` returns. -/
  | started (err : Option String)

/-- What is seen of the manager. -/
inductive Out where
  /-- A `kubectl` process is started. -/
  | kubectl (args : List String)
  /-- `StartSession` returns. -/
  | returned (id : Except String Nat)

-- ======== sections

def buildKubectlArgs (opts : SessionOptions) : List String :=
  ["exec", "-it"]
    ++ (if opts.context ≠ "" then ["--context", opts.context] else [])
    ++ ["-n", opts.ns, opts.pod]
    ++ (if opts.container ≠ "" then ["-c", opts.container] else [])
    ++ if opts.command = "nsenter" then
      ["--", "nsenter", "-t", "1", "-m", "-u", "-i", "-n", "-p", "--",
        "/bin/sh"]
    else if opts.command ≠ "" then ["--", "/bin/sh", "-c", opts.command]
    else
      ["--", "/bin/sh", "-c", "if command -v bash >/dev/null 2>&1; "
        ++ "then exec bash; else exec sh; fi"]

/-- The entries that are meant are deleted from both maps. -/
def World.delete (w : World) (p : Nat → Session → Bool) : World where
  sessions := w.sessions.mapIdx fun id s =>
    if p id s then { s with listed := false, client := none } else s

/-- The sessions among them, to be closed outside the lock. -/
def World.toClose (w : World) (p : Nat → Session → Bool) : List Frame :=
  w.sessions.zipIdx.filterMap fun (s, id) =>
    if s.listed && p id s then some (.close id) else none

def takeOut (p : Nat → Session → Bool) (w : World) :
    Effect World Frame Out where
  world := w.delete p
  frames := w.toClose p

/-- A session is put into the maps; without a client only into one. -/
def World.register (w : World) (id : Nat) : World where
  sessions := w.sessions.modify id fun s =>
    { s with
      listed := true
      client := if s.opts.clientID ≠ "" then some s.opts.clientID
        else s.client }

def World.close (w : World) (id : Nat) : World where
  sessions := w.sessions.modify id fun s => { s with closed := true }

/-- The sections, and what is outside of them. -/
def exec : Exec World Frame Env Out
  | .call (.startSession opts), .emitter ready, w =>
    if opts.ns = "" ∨ opts.pod = "" then
      some { world := w
             out := [.returned
               (.error "namespace and pod are required")] }
    else if ready then some { world := w, frames := [.create opts] }
    else
      some { world := w
             out := [.returned
               (.error "manager emitter not initialized")] }
  | .create opts, .started err, w =>
    let args := buildKubectlArgs opts
    match err with
    | some err =>
      some { world := w
             out := [.kubectl args, .returned (.error err)] }
    | none =>
      some { world := { sessions := w.sessions ++ [{ opts }] }
             frames := [.register w.sessions.length]
             out := [.kubectl args] }
  | .register id, .tick, w =>
    some { world := w.register id, out := [.returned (.ok id)] }
  | .call (.closeSession id), .tick, w =>
    some (takeOut (fun id' s => id' = id && s.listed) w)
  | .call .closeAllSessions, .tick, w => some (takeOut (fun _ _ => true) w)
  | .call (.onClientDisconnect clientID), .tick, w =>
    some (takeOut (fun _ s => s.client = some clientID) w)
  | .close id, .tick, w =>
    some { world := w.close id }
  | _, _, _ => none

def framesOf (c : Call) : List Frame := [.call c]

def initial : Sys World Frame := ⟨{}, []⟩

-- ======== what a step does

variable {w : World} {p : Nat → Session → Bool}

theorem delete_cases {id : Nat} {s' : Session}
    (h : (w.delete p).sessions[id]? = some s') :
    ∃ s, w.sessions[id]? = some s
      ∧ (p id s = true ∧ s' = { s with listed := false, client := none }
        ∨ p id s = false ∧ s' = s) := by
  have h : (w.sessions.mapIdx _)[id]? = some s' := h
  rw [List.getElem?_mapIdx] at h
  obtain ⟨s, hs, rfl⟩ := Option.map_eq_some_iff.mp h
  refine ⟨s, hs, ?_⟩
  split
  next hp => exact .inl ⟨hp, rfl⟩
  next hp => exact .inr ⟨by simpa using hp, rfl⟩

theorem mem_toClose {id : Nat} {s : Session}
    (hs : w.sessions[id]? = some s) (hlisted : s.listed = true)
    (hp : p id s = true) : .close id ∈ w.toClose p := by
  unfold World.toClose
  refine List.mem_filterMap.mpr
    ⟨(s, id), List.mem_zipIdx_iff_getElem?.mpr hs, ?_⟩
  simp only
  rw [if_pos (by rw [hlisted, hp]; rfl)]

/-- What a step does to the sessions. -/
inductive Did (w : World) : Frame → Effect World Frame Out → Prop where
  /-- `StartSession` goes on, or returns. -/
  | starting {opts : SessionOptions} {frames : List Frame} {out : List Out}
      (h : ∀ f ∈ frames, f = .create opts) :
      Did w (.call (.startSession opts)) { world := w, frames, out }
  /-- The process cannot be started. -/
  | failed {opts : SessionOptions} {out : List Out} :
      Did w (.create opts) { world := w, out }
  | created {opts : SessionOptions} {out : List Out} :
      Did w (.create opts)
        { world := { sessions := w.sessions ++ [{ opts }] }
          frames := [.register w.sessions.length], out }
  | registered {id : Nat} {out : List Out} :
      Did w (.register id) { world := w.register id, out }
  | tookOut {c : Call} {p : Nat → Session → Bool}
      (h : ∀ clientID, c = .onClientDisconnect clientID →
        ∀ id s, s.client = some clientID → p id s = true) :
      Did w (.call c) (takeOut p w)
  | closed {id : Nat} : Did w (.close id) { world := w.close id }

theorem exec_did {f : Frame} {env : Env} {effect : Effect World Frame Out}
    (h : exec f env w = some effect) : Did w f effect := by
  cases f with
  | call c =>
    cases c with
    | startSession opts =>
      cases env with
      | emitter ready =>
        simp only [exec] at h
        split at h
        · cases h
          exact .starting fun _ hf => nomatch hf
        · split at h
          · cases h
            exact .starting fun f hf => List.mem_singleton.mp hf
          · cases h
            exact .starting fun _ hf => nomatch hf
      | _ => cases h
    | closeSession id =>
      cases env with
      | tick =>
        cases h
        exact .tookOut fun _ hc => nomatch hc
      | _ => cases h
    | closeAllSessions =>
      cases env with
      | tick =>
        cases h
        exact .tookOut fun _ hc => nomatch hc
      | _ => cases h
    | onClientDisconnect clientID =>
      cases env with
      | tick =>
        cases h
        refine .tookOut fun clientID' hc id s hs => ?_
        cases hc
        exact decide_eq_true hs
      | _ => cases h
  | create opts =>
    cases env with
    | started err =>
      cases err with
      | none =>
        cases h
        exact .created
      | some err =>
        cases h
        exact .failed
    | _ => cases h
  | register id =>
    cases env with
    | tick =>
      cases h
      exact .registered
    | _ => cases h
  | close id =>
    cases env with
    | tick =>
      cases h
      exact .closed
    | _ => cases h

end Terminal
