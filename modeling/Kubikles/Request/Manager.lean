/-
The list-request manager (listrequests.go) as a machine.

# Sections

`StartRequest`, `CompleteRequest` and `CancelRequest` hold `mu` from
their first line to their last, so each is one step. The flag that
`SetCancellationEnabled` stores is outside the mutex, but a method loads
it at most once, so storing it is one step before or after.

# Values

A request entry keeps the function that cancels a context. It is called
for its effect on that one context, so the entry keeps the context
instead, and a call of the function is an output. The counters and the
sequence are unbounded: they go up by one a request, and 64 bits are not
used up.

# History

A step also gives away what it did to a request: that it was started, or
which request it counted as completed or canceled. The code keeps no
such record; the properties are about it.
-/
import Kubikles.Lib.FinMap
import Kubikles.Lib.Machine

/-- `DefaultListRequestTimeout`, in seconds. -/
def defaultListRequestTimeout : Nat := 60

/-- A context made by `context.WithTimeout`: which one of all it made,
and its timeout. -/
structure RequestContext where
  number : Nat
  timeout : Nat
deriving DecidableEq

structure RequestEntry where
  cancel : RequestContext
  sequence : Int
deriving DecidableEq

/-- `ListRequestManager`, and how many contexts it has made. -/
structure ListRequestManager where
  requests : FinMap String RequestEntry
  sequence : Int
  cancellationEnabled : Bool
  total : Int
  pending : Int
  completed : Int
  canceled : Int
  contexts : Nat

/-- What a method does to the outside, or to a request. -/
inductive RequestOut where
  | cancel (ctx : RequestContext)
  /-- `StartRequest` returns. -/
  | started (requestId : String) (ctx : RequestContext) (sequence : Int)
  | completed (sequence : Int)
  | canceled (sequence : Int)
  /-- `CancelRequest` returns. -/
  | found (ok : Bool)
deriving DecidableEq

/-- A method of the manager is called. -/
inductive RequestAct where
  | startRequest (requestId : String)
  | completeRequest (requestId : String) (sequence : Int)
  | cancelRequest (requestId : String)
  | setCancellationEnabled (enabled : Bool)
deriving DecidableEq

namespace ListRequestManager

/-- `NewListRequestManager`. -/
def new : ListRequestManager where
  requests := ∅
  sequence := 0
  cancellationEnabled := true
  total := 0
  pending := 0
  completed := 0
  canceled := 0
  contexts := 0

-- ======== the methods

/-- The call of an entry's `cancel`, if cancellation is enabled. -/
def cancelEntry (entry : RequestEntry) (m : ListRequestManager) :
    List RequestOut :=
  if m.cancellationEnabled then [.cancel entry.cancel] else []

/-- The request under an ID counts as canceled: what `StartRequest` does
about a request it replaces. -/
def supersede (requestId : String) (m : ListRequestManager) :
    ListRequestManager × List RequestOut :=
  match m.requests.lookup requestId with
  | none => (m, [])
  | some entry =>
    ({ m with canceled := m.canceled + 1, pending := m.pending - 1 },
      m.cancelEntry entry ++ [.canceled entry.sequence])

/-- A new entry is filed under an ID, in place of any other: the rest of
`StartRequest`. -/
def register (requestId : String) (m : ListRequestManager) :
    ListRequestManager × List RequestOut :=
  let ctx := ⟨m.contexts, defaultListRequestTimeout⟩
  let seq := m.sequence + 1
  ({ m with
      contexts := m.contexts + 1
      sequence := seq
      requests := m.requests.insert requestId ⟨ctx, seq⟩
      total := m.total + 1
      pending := m.pending + 1 },
    [.started requestId ctx seq])

def startRequest (requestId : String) (m : ListRequestManager) :
    ListRequestManager × List RequestOut :=
  let (m, superseded) := m.supersede requestId
  let (m, started) := m.register requestId
  (m, superseded ++ started)

def completeRequest (requestId : String) (sequence : Int)
    (m : ListRequestManager) : ListRequestManager × List RequestOut :=
  match m.requests.lookup requestId with
  | none => (m, [])
  | some entry =>
    if entry.sequence = sequence then
      ({ m with
          requests := m.requests.erase requestId
          completed := m.completed + 1
          pending := m.pending - 1 },
        [.completed entry.sequence])
    else (m, [])

def cancelRequest (requestId : String) (m : ListRequestManager) :
    ListRequestManager × List RequestOut :=
  match m.requests.lookup requestId with
  | none => (m, [.found false])
  | some entry =>
    ({ m with
        requests := m.requests.erase requestId
        canceled := m.canceled + 1
        pending := m.pending - 1 },
      m.cancelEntry entry ++ [.canceled entry.sequence, .found true])

def step : Machine.Step ListRequestManager RequestAct RequestOut
  | .startRequest requestId, m => some (m.startRequest requestId)
  | .completeRequest requestId sequence, m =>
    some (m.completeRequest requestId sequence)
  | .cancelRequest requestId, m => some (m.cancelRequest requestId)
  | .setCancellationEnabled enabled, m =>
    some ({ m with cancellationEnabled := enabled }, [])

-- ======== the history

/-- The request an output counts as completed or canceled. -/
def counted : RequestOut → Option Int
  | .completed sequence => some sequence
  | .canceled sequence => some sequence
  | _ => none

/-- The sequence number under which an output starts a request with this
ID. -/
def startedAs (requestId : String) : RequestOut → Option Int
  | .started id _ sequence => if id = requestId then some sequence else none
  | _ => none

/-- The sequence number of the latest `StartRequest` for an ID. -/
def latestStart (requestId : String) (history : List RequestOut) :
    Option Int :=
  (history.filterMap (startedAs requestId)).getLast?

end ListRequestManager
