/-
Bulk actions (useBulkActions.tsx), with the switches of the context that may
come between their calls.

# Runs

`confirmBulkAction` runs on from one `await` to the next (`next`), and where
it waits is its phase. A call of the API names no context: it acts on the
one that the backend's client is on when it is handled. The runs of a hook
share its refs and its state; a name or a namespace that is missing is
empty.

The context that the UI is on when a run is confirmed is kept with it
(`cluster`), to be compared; no step reads it.
-/
import Kubikles.Switching.Context

namespace Bulk

open Machine (Step)

/-- `Resource`, with its metadata. -/
structure Resource where
  name : String
  ns : String := ""
deriving DecidableEq

/-- `UseBulkActionsConfig`: which APIs there are. -/
structure Config where
  isNamespaced : Bool := true
  restartApi : Bool := false
  customApis : List String := []
deriving DecidableEq

def Config.api (config : Config) (action : String) : Bool :=
  if action = "delete" then true
  else if action = "restart" then config.restartApi
  else config.customApis.contains action

/-- `BulkActionModalState`. -/
structure Modal where
  isOpen : Bool := false
  action : Option String := none
  items : List Resource := []
deriving DecidableEq

/-- `BulkActionResult`. -/
structure Result where
  name : String
  ns : String
  success : Bool
  message : String
deriving DecidableEq

inductive Status where
  | idle
  | inProgress
  | paused
  | complete
deriving DecidableEq

/-- `BulkProgressState`. -/
structure Progress where
  current : Nat := 0
  total : Nat := 0
  status : Status := .idle
  results : List Result := []
deriving DecidableEq

structure Hook where
  bulkActionModal : Modal := {}
  bulkProgress : Progress := {}
  pausedRef : Bool := false
  /-- The run whose promise the resolver is of. -/
  resumeResolverRef : Option Nat := none
deriving DecidableEq

-- ======== runs

/-- Where a run is: at an item, with the items behind it. -/
inductive Phase where
  | waiting (item : Resource) (rest : List Resource)
  | resumed (item : Resource) (rest : List Resource)
  | called (item : Resource) (rest : List Resource)
  | answered (item : Resource) (rest : List Resource) (err : Option String)
  | sleeping (rest : List Resource)
  | done
deriving DecidableEq

/-- From the top of the loop to where it waits. -/
def next (pausedRef : Bool) : List Resource → Phase
  | [] => .done
  | item :: rest =>
    if pausedRef then .waiting item rest
    else if item.name = "" then next pausedRef rest
    else .called item rest

def proceed (pausedRef : Bool) (item : Resource) (rest : List Resource) :
    Phase :=
  if item.name = "" then next pausedRef rest else .called item rest

/-- A run of `confirmBulkAction`. -/
structure Run where
  action : String
  items : List Resource
  delayMs : Int
  cluster : String
  phase : Phase
  results : List Result := []
deriving DecidableEq

def Hook.enter (hook : Hook) (r : Nat) : Phase → Hook
  | .waiting _ _ => { hook with resumeResolverRef := some r }
  | .done =>
    { hook with
      bulkProgress := { hook.bulkProgress with status := .complete } }
  | _ => hook

def resultOf (item : Resource) : Option String → Result
  | none => ⟨item.name, item.ns, true, ""⟩
  | some message => ⟨item.name, item.ns, false, message⟩

-- ======== state

structure State where
  switching : ContextSwitch.State
  hook : Hook := {}
  runs : List Run := []
deriving DecidableEq

inductive Act where
  /-- `openBulkDelete`, `openBulkRestart`, `openBulkCustomAction`. -/
  | openModal (action : String) (items : List Resource)
  /-- `closeBulkAction`. -/
  | close
  /-- `pauseBulkAction`. -/
  | pause
  /-- `resumeBulkAction`. -/
  | resume
  /-- `confirmBulkAction`. -/
  | confirm (items : List Resource) (delayMs : Int)
  /-- A run goes on behind its wait. -/
  | proceed (r : Nat)
  /-- The backend handles the call of a run. -/
  | handle (r : Nat) (err : Option String)
  /-- The answer arrives. -/
  | respond (r : Nat)
  /-- A run has slept. -/
  | wake (r : Nat)
  | switching (a : ContextSwitch.Act)
deriving DecidableEq

structure Acted where
  run : Nat
  cluster : String
  action : String
  ns : String
  name : String
deriving DecidableEq

def State.enter (s : State) (r : Nat) (run : Run) (phase : Phase) : State :=
  { s with
    hook := s.hook.enter r phase
    runs := s.runs.set r { run with phase } }

/-- The run that waits for the resolver may go on. -/
def State.resolve (s : State) : State :=
  match s.hook.resumeResolverRef with
  | none => s
  | some r =>
    let s := { s with
      hook := { s.hook with resumeResolverRef := none } }
    match s.runs[r]? with
    | some run =>
      match run.phase with
      | .waiting item rest => s.enter r run (.resumed item rest)
      | _ => s
    | none => s

/-- An answer: its result, and where the run goes on. -/
def State.answer (s : State) (r : Nat) (run : Run) (item : Resource)
    (rest : List Resource) (err : Option String) : State :=
  let run := { run with results := run.results ++ [resultOf item err] }
  let s := { s with
    hook := { s.hook with
      bulkProgress := { s.hook.bulkProgress with
        current := run.items.length - rest.length
        results := run.results } } }
  s.enter r run
    (if 0 < run.delayMs ∧ rest ≠ [] then .sleeping rest
    else next s.hook.pausedRef rest)

/-- `confirmBulkAction` starts. -/
def State.confirm (s : State) (action : String) (items : List Resource)
    (delayMs : Int) : State :=
  let hook := { s.hook with
    pausedRef := false
    resumeResolverRef := none
    bulkProgress := { s.hook.bulkProgress with
      status := .inProgress
      results := [] } }
  let phase := next false items
  { s with
    hook := hook.enter s.runs.length phase
    runs := s.runs ++ [
      { action, items, delayMs, phase
        cluster := s.switching.ui.currentContext }] }

def step (config : Config) : Step State Act Acted
  | .openModal action items, s =>
    if config.api action then
      some ({ s with
        hook := { s.hook with
          bulkActionModal := ⟨true, some action, items⟩
          bulkProgress := { total := items.length } } }, [])
    else some (s, [])
  | .close, s =>
    some ({ s with
      hook := { s.hook with
        bulkActionModal := {}
        bulkProgress := {} } }, [])
  | .pause, s =>
    some ({ s with
      hook := { s.hook with
        pausedRef := true
        bulkProgress := { s.hook.bulkProgress with
          status :=
            if s.hook.bulkProgress.status = .inProgress then .paused
            else s.hook.bulkProgress.status } } }, [])
  | .resume, s =>
    some (State.resolve { s with
      hook := { s.hook with
        pausedRef := false
        bulkProgress := { s.hook.bulkProgress with
          status :=
            if s.hook.bulkProgress.status = .paused then .inProgress
            else s.hook.bulkProgress.status } } }, [])
  | .confirm items delayMs, s =>
    match s.hook.bulkActionModal.action with
    | some action =>
      if config.api action then
        some (s.confirm action items delayMs, [])
      else some (s, [])
    | none => some (s, [])
  | .proceed r, s =>
    match s.runs[r]? with
    | some run =>
      match run.phase with
      | .resumed item rest =>
        some (s.enter r run
          (Bulk.proceed s.hook.pausedRef item rest), [])
      | _ => none
    | none => none
  | .handle r err, s =>
    match s.runs[r]? with
    | some run =>
      match run.phase with
      | .called item rest =>
        some (s.enter r run (.answered item rest err),
          [{ run := r
             cluster := s.switching.backend
             action := run.action
             ns := if config.isNamespaced then item.ns else ""
             name := item.name }])
      | _ => none
    | none => none
  | .respond r, s =>
    match s.runs[r]? with
    | some run =>
      match run.phase with
      | .answered item rest err =>
        some (s.answer r run item rest err, [])
      | _ => none
    | none => none
  | .wake r, s =>
    match s.runs[r]? with
    | some run =>
      match run.phase with
      | .sleeping rest =>
        some (s.enter r run (next s.hook.pausedRef rest), [])
      | _ => none
    | none => none
  | .switching a, s =>
    match ContextSwitch.step a s.switching with
    | some (switching, _) => some ({ s with switching }, [])
    | none => none

end Bulk
