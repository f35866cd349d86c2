/-
The guard of credential plugins (execauth.go).

# Callers

`check` looks at its context, and then, under the lock, at the last
error: while the cooldown lasts, that is its result. Otherwise it waits
for the attempt in flight, which it starts if there is none, or for its
context, whichever its `select` takes.

# Attempts

An attempt is a goroutine with a probe of its own. It ends when the probe
has returned and the goroutine has published, under the lock and in one
piece, what came of it. Each section under the lock is one step here; a
caller or a goroutine may come to it at any time, and so may time pass and
contexts be cancelled.
-/
import Kubikles.Lib.Machine

namespace ExecAuth

-- ======== the guard

/-- 30 seconds. Times are in nanoseconds. -/
def execAuthFailureCooldown : Nat := 30 * 1000000000

/-- An error that `check` returns: that of its context, that of an earlier
attempt with the time until which there is no other, or that of its
attempt. -/
inductive CheckError where
  | context (err : String)
  | paused (retryAt : Nat) (err : String)
  | attempt (err : String)
  deriving DecidableEq

def CheckError.text (rfc3339 : Nat → String) : CheckError → String
  | .context err => err
  | .paused retryAt err =>
    "credential plugin retry paused until " ++ rfc3339 retryAt ++ ": "
      ++ err
  | .attempt err => err

/-- Where the goroutine of an attempt is; an error may be nil. -/
inductive Phase where
  | probing
  | returned (err : Option String)
  /-- The result is published, since the given time. -/
  | published (err : Option String) (time : Nat)
  deriving DecidableEq

/-- `execAuthAttempt`, with its goroutine. -/
structure Attempt where
  started : Nat
  phase : Phase
  deriving DecidableEq

/-- Where a call of `check` is. -/
inductive CallPhase where
  | called
  /-- Its context was not cancelled; it comes to the lock. -/
  | locking
  /-- It waits in its `select`. -/
  | waiting (attempt : Nat)
  | returned (result : Option CheckError)
  deriving DecidableEq

/-- A call of `check`; its context may have an error. -/
structure Call where
  ctx : Option String
  phase : CallPhase
  deriving DecidableEq

/-- `execAuthGuard`, and all who have to do with it. -/
structure State where
  now : Nat := 0
  inFlight : Option Nat := none
  err : Option String := none
  retryAt : Nat := 0
  attempts : List Attempt := []
  calls : List Call := []
  deriving DecidableEq

inductive Action where
  | tick (duration : Nat)
  /-- `check` is called. -/
  | call (ctx : Option String)
  /-- The context of a call is cancelled. -/
  | cancel (i : Nat) (err : String)
  | context (i : Nat)
  | lock (i : Nat)
  /-- A call takes one of the cases of its `select`. -/
  | done (i : Nat)
  | attempted (i : Nat)
  | probe (a : Nat) (err : Option String)
  /-- The goroutine of an attempt has the lock. -/
  | publish (a : Nat)
  deriving DecidableEq

namespace State

def setCall (s : State) (i : Nat) (c : Call) : State :=
  { s with calls := s.calls.set i c }

def setAttempt (s : State) (a : Nat) (attempt : Attempt) : State :=
  { s with attempts := s.attempts.set a attempt }

/-- A new attempt, whose probe runs. -/
def start (s : State) : State :=
  { s with
    inFlight := some s.attempts.length
    attempts := s.attempts ++ [⟨s.now, .probing⟩] }

/-- The attempt that is in flight, or a new one. -/
def join (s : State) : State × CallPhase :=
  match s.inFlight with
  | some a => (s, .waiting a)
  | none => (s.start, .waiting s.attempts.length)

/-- The section of `check` under the lock, and where it leaves the call. -/
def enter (s : State) : State × CallPhase :=
  match s.err with
  | some err =>
    if s.now < s.retryAt then
      (s, .returned (some (.paused s.retryAt err)))
    else s.join
  | none => s.join

/-- The section of an attempt under the lock. -/
def publish (s : State) (a : Nat) (started : Nat) (err : Option String) :
    State :=
  { s with
    err := err
    retryAt :=
      if err.isSome then s.now + execAuthFailureCooldown else s.retryAt
    inFlight := none
    attempts := s.attempts.set a ⟨started, .published err s.now⟩ }

end State

/-- A step of the guard, a caller, an attempt or the world. -/
def step : Machine.Step State Action Unit
  | .tick duration, s => some ({ s with now := s.now + duration }, [])
  | .call ctx, s =>
    some ({ s with calls := s.calls ++ [⟨ctx, .called⟩] }, [])
  | .cancel i err, s =>
    match s.calls[i]? with
    | some ⟨none, phase⟩ => some (s.setCall i ⟨some err, phase⟩, [])
    | _ => none
  | .context i, s =>
    match s.calls[i]? with
    | some ⟨some err, .called⟩ =>
      some (s.setCall i ⟨some err, .returned (some (.context err))⟩, [])
    | some ⟨none, .called⟩ => some (s.setCall i ⟨none, .locking⟩, [])
    | _ => none
  | .lock i, s =>
    match s.calls[i]? with
    | some ⟨ctx, .locking⟩ =>
      some (s.enter.1.setCall i ⟨ctx, s.enter.2⟩, [])
    | _ => none
  | .done i, s =>
    match s.calls[i]? with
    | some ⟨some err, .waiting _⟩ =>
      some (s.setCall i ⟨some err, .returned (some (.context err))⟩, [])
    | _ => none
  | .attempted i, s =>
    match s.calls[i]? with
    | some ⟨ctx, .waiting a⟩ =>
      match s.attempts[a]? with
      | some ⟨_, .published err _⟩ =>
        some (s.setCall i ⟨ctx, .returned (err.map .attempt)⟩, [])
      | _ => none
    | _ => none
  | .probe a err, s =>
    match s.attempts[a]? with
    | some ⟨started, .probing⟩ =>
      some (s.setAttempt a ⟨started, .returned err⟩, [])
    | _ => none
  | .publish a, s =>
    match s.attempts[a]? with
    | some ⟨started, .returned err⟩ =>
      some (s.publish a started err, [])
    | _ => none

end ExecAuth
