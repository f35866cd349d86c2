/-
The loads of the log viewer
(frontend/src/components/shared/log-viewer/useLogStream.ts).

# What is in the state

`View` is what the hook keeps of the logs it has loaded: the entries
shown, what it knows of more, and the refs that keep a load from being
made twice. Each entry and each of the three flags carries the target
whose request put it there; that mark is in no variable of the program.
`requests` are the calls of the backend that are pending, each with what
its closure has kept.

# What is in an action

The user selects, a loader is called, or a pending request settles. A
loader runs in the closure of the last render, so it reads what is in
the state; a selection renders first and then runs the effect, whose
closure still has the old logs.
-/
import Kubikles.Lib.Machine
import Kubikles.LogView.Lines

namespace LoadHook

open LogView
open Machine (Step)

-- ======== the targets

inductive ViewMode where
  | start
  | atEnd
deriving DecidableEq, Repr

def allPods : String := "__ALL_PODS__"

/-- What is selected. -/
structure Target where
  pod : String
  container : String
  showPrevious : Bool
  sinceTime : String
  viewMode : ViewMode
deriving DecidableEq, Repr

/-- What else the effect asks for. -/
structure Props where
  ns : String
  siblingPods : List String
  initialAll : Bool
deriving DecidableEq, Repr

/-- The effect goes on: there is something to load the logs of. -/
def Props.ready (props : Props) (target : Target) : Bool :=
  props.ns ≠ "" && (if target.pod = allPods then
    props.siblingPods ≠ [] else target.pod ≠ "")

-- ======== the state

/-- An entry on display, and the target it was put there for. -/
structure Shown where
  entry : LogEntry
  target : Target
deriving DecidableEq, Repr

/-- A flag, and the target it was set for, if a request has set it. -/
structure Flag where
  value : Bool
  target : Option Target
deriving DecidableEq, Repr

/-- Which loader made a request, and what its closure has kept.
`resolving` is a `fetchLogs` that still waits for a fresh target,
`changed` is `refreshedTargetChanged`. -/
inductive Loader where
  | fetchLogs (hadLogs changed resolving : Bool)
  | loadAllLogs
  | loadOlderLogs
  | loadNewerLogs
  | pollNewerLogs (cursor : String)
deriving DecidableEq, Repr

/-- A pending request, and the target it is made for. -/
structure Request where
  loader : Loader
  target : Target
deriving DecidableEq, Repr

/-- The hook. `prev` are the five refs of the last target seen. -/
structure View where
  target : Target
  prev : Target
  logs : List Shown := []
  hasMoreBefore : Flag := ⟨false, none⟩
  hasMoreAfter : Flag := ⟨false, none⟩
  isAllLoaded : Flag
  loadingBefore : Bool := false
  loadingAfter : Bool := false
  pollingAfter : Bool := false
  lastFetchedBeforeTs : String := ""
  lastFetchedAfterTs : String := ""
  initialLoadDone : Bool := false
  streamDisconnected : Bool := false
  requests : List Request := []
deriving DecidableEq, Repr

/-- How a request settles. -/
inductive Outcome where
  | failed (err : String)
  | text (rawLogs : String)
  | page (page : Page)
  | pages (pages : List Page)
deriving DecidableEq, Repr

inductive Act where
  | select (target : Target)
  | effect
  | disconnect
  | fetchLogs (refreshTarget : Bool)
  | loadAllLogs
  | loadOlderLogs
  | loadNewerLogs
  | pollNewerLogs
  | resolved (request : Nat) (freshTarget : Option (String × String))
  | settle (request : Nat) (outcome : Outcome)
deriving DecidableEq, Repr

-- ======== the calls

namespace View

def flag (target : Target) (value : Bool) : Flag := ⟨value, some target⟩

def shownFor (target : Target) (entries : List LogEntry) : List Shown :=
  entries.map fun e => ⟨e, target⟩

def entries (v : View) : List LogEntry := v.logs.map (·.entry)

def request (loader : Loader) (v : View) : View :=
  { v with requests := v.requests ++ [⟨loader, v.target⟩] }

def resetChunkState (v : View) : View :=
  { v with
    loadingBefore := false
    loadingAfter := false
    lastFetchedBeforeTs := ""
    lastFetchedAfterTs := "" }

/-- `fetchLogs`, up to its first `await`. `hadLogs` is
`logs.length > 0`. -/
def fetchLogs (hadLogs refreshTarget : Bool) (v : View) : View :=
  let v := v.resetChunkState
  { v with
    streamDisconnected := false
    isAllLoaded := flag v.target false }.request
      (.fetchLogs hadLogs false refreshTarget)

/-- `loadAllLogs`, up to its `await`. -/
def loadAllLogs (v : View) : View :=
  let v := v.resetChunkState
  { v with
    hasMoreBefore := flag v.target false
    hasMoreAfter := flag v.target false
    isAllLoaded := flag v.target true }.request .loadAllLogs

/-- `loadOlderLogs`, up to its `await`. -/
def loadOlderLogs (v : View) : View :=
  if v.loadingBefore ∨ ¬ v.hasMoreBefore.value then v
  else
    let firstTs := firstTimestamp v.entries
    if firstTs = "" then { v with hasMoreBefore := flag v.target false }
    else if firstTs = v.lastFetchedBeforeTs then v
    else
      { v with
        lastFetchedBeforeTs := firstTs
        loadingBefore := true }.request .loadOlderLogs

/-- `loadNewerLogs`, up to its `await`. -/
def loadNewerLogs (v : View) : View :=
  if v.loadingAfter ∨ ¬ v.hasMoreAfter.value then v
  else
    let lastTs := lastTimestamp v.entries
    if lastTs = "" then { v with hasMoreAfter := flag v.target false }
    else if lastTs = v.lastFetchedAfterTs then v
    else
      { v with
        lastFetchedAfterTs := lastTs
        loadingAfter := true }.request .loadNewerLogs

/-- `pollNewerLogs`, up to its `await`. -/
def pollNewerLogs (v : View) : View :=
  if v.pollingAfter then v
  else
    let cursor := lastTimestamp v.entries
    if cursor = "" then v
    else { v with pollingAfter := true }.request (.pollNewerLogs cursor)

def runEffect (props : Props) (v : View) : View :=
  if ¬ props.ready v.target then v
  else if v.prev ≠ v.target then
    let hadLogs := !v.logs.isEmpty
    let v := { v with
      prev := v.target
      streamDisconnected := false
      logs := [] }.resetChunkState
    if v.isAllLoaded.value then v.loadAllLogs
    else v.fetchLogs hadLogs false
  else if ¬ v.initialLoadDone ∧ props.initialAll then
    { v with initialLoadDone := true }.loadAllLogs
  else if v.isAllLoaded.value ∨ v.streamDisconnected
      ∨ v.initialLoadDone then v
  else
    { v with initialLoadDone := true }.fetchLogs (!v.logs.isEmpty) false

/-- The hook is mounted: its first render and effect. -/
def mount (props : Props) (target : Target) : View :=
  runEffect props
    { target := target
      prev := target
      isAllLoaded := ⟨props.initialAll, none⟩ }

-- ======== the completions

/-- What `fetchLogs` does with the logs it gets. -/
def fetched (r : Request) (hadLogs changed : Bool) (rawLogs : String)
    (v : View) : View :=
  let parsed := parseLogLines rawLogs .initial
  { v with
    hasMoreBefore := flag r.target (r.target.viewMode ≠ .start)
    hasMoreAfter := flag r.target (r.target.viewMode = .start)
    logs :=
      if parsed.isEmpty ∧ hadLogs ∧ ¬ changed then v.logs
      else shownFor r.target parsed }

/-- What `fetchLogs` does where it fails. -/
def fetchFailed (r : Request) (hadLogs : Bool) (v : View) : View :=
  { v with
    hasMoreBefore := flag r.target false
    hasMoreAfter := flag r.target false
    logs := if hadLogs then v.logs else [] }

/-- What `loadAllLogs` does with its outcome. -/
def allLoaded (r : Request) (outcome : Except String String) (v : View) :
    View :=
  match outcome with
  | .ok rawLogs =>
    { v with
      logs := shownFor r.target (parseLogLines rawLogs .initial) }
  | .error err =>
    { v with
      logs := shownFor r.target
        [⟨"", "Error fetching all logs: " ++ err, .error⟩]
      isAllLoaded := flag r.target false }

/-- What `loadOlderLogs` does with its outcome. -/
def olderLoaded (r : Request) (outcome : Except String Page) (v : View) :
    View :=
  match outcome with
  | .ok page =>
    if page.hasText then
      { v with
        logs := shownFor r.target (parseLogLines page.logs .before)
          ++ v.logs
        hasMoreBefore := flag r.target page.hasMore
        loadingBefore := false }
    else
      { v with
        hasMoreBefore := flag r.target false
        loadingBefore := false }
  | .error _ =>
    { v with
      hasMoreBefore := flag r.target false
      loadingBefore := false }

/-- What `loadNewerLogs` does with its outcome. -/
def newerLoaded (r : Request) (outcome : Except String Page) (v : View) :
    View :=
  match outcome with
  | .ok page =>
    if page.hasText then
      { v with
        logs := v.logs
          ++ shownFor r.target (parseLogLines page.logs .after)
        hasMoreAfter := flag r.target page.hasMore
        loadingAfter := false }
    else
      { v with
        hasMoreAfter := flag r.target false
        loadingAfter := false }
  | .error _ =>
    { v with
      hasMoreAfter := flag r.target false
      loadingAfter := false }

/-- What `pollNewerLogs` does with its outcome. -/
def polled (r : Request) (cursor : String)
    (outcome : Except String (List Page)) (v : View) : View :=
  match outcome with
  | .ok pages =>
    { v with
      logs := appendUnique Shown.entry v.logs
        (shownFor r.target (drainLogPages maxLogPagesPerPoll pages cursor
          []))
      pollingAfter := false }
  | .error _ => { v with pollingAfter := false }

/-- What a request does when it settles, by its loader. -/
def settled (r : Request) (outcome : Outcome) (v : View) : Option View :=
  match r.loader, outcome with
  | .fetchLogs hadLogs changed false, .text rawLogs =>
    some (v.fetched r hadLogs changed rawLogs)
  | .fetchLogs hadLogs _ _, .failed _ => some (v.fetchFailed r hadLogs)
  | .loadAllLogs, .text rawLogs => some (v.allLoaded r (.ok rawLogs))
  | .loadAllLogs, .failed err => some (v.allLoaded r (.error err))
  | .loadOlderLogs, .page page => some (v.olderLoaded r (.ok page))
  | .loadOlderLogs, .failed err => some (v.olderLoaded r (.error err))
  | .loadNewerLogs, .page page => some (v.newerLoaded r (.ok page))
  | .loadNewerLogs, .failed err => some (v.newerLoaded r (.error err))
  | .pollNewerLogs cursor, .pages pages =>
    some (v.polled r cursor (.ok pages))
  | .pollNewerLogs cursor, .failed err =>
    some (v.polled r cursor (.error err))
  | _, _ => none

/-- A `fetchLogs` has its fresh target, and goes on with that. -/
def resolvedTo (r : Request) (hadLogs : Bool)
    (freshTarget : Option (String × String)) : Request :=
  match freshTarget with
  | none => ⟨.fetchLogs hadLogs false false, r.target⟩
  | some (pod, container) =>
    ⟨.fetchLogs hadLogs
      (pod ≠ r.target.pod || container ≠ r.target.container) false,
      { r.target with pod := pod, container := container }⟩

end View

def step (props : Props) : Step View Act Empty
  | .select target, v =>
    some ({ v with target := target }.runEffect props, [])
  | .effect, v => some (v.runEffect props, [])
  | .disconnect, v => some ({ v with streamDisconnected := true }, [])
  | .fetchLogs refreshTarget, v =>
    some (v.fetchLogs (!v.logs.isEmpty) refreshTarget, [])
  | .loadAllLogs, v => some (v.loadAllLogs, [])
  | .loadOlderLogs, v => some (v.loadOlderLogs, [])
  | .loadNewerLogs, v => some (v.loadNewerLogs, [])
  | .pollNewerLogs, v => some (v.pollNewerLogs, [])
  | .resolved i freshTarget, v =>
    match v.requests[i]? with
    | some ⟨.fetchLogs hadLogs false true, target⟩ =>
      let r := View.resolvedTo
        ⟨.fetchLogs hadLogs false true, target⟩ hadLogs freshTarget
      some ({ v with requests := v.requests.set i r }, [])
    | _ => none
  | .settle i outcome, v =>
    match v.requests[i]? with
    | none => none
    | some r =>
      ({ v with requests := v.requests.eraseIdx i }.settled r
        outcome).map fun v => (v, [])

end LoadHook
