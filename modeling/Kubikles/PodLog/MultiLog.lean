/-
Streaming the logs of several pods (pkg/k8s/multilog.go).

# Goroutines

A session has a producer for each container, a goroutine that closes the
channel behind the last producer, whoever reads the channel, and any number
of calls of `Stop`. A goroutine stands at one place (`Frame`). A critical
section of `mu` is one step: of what is done in it only the closing of the
channel is seen by those who do not hold `mu`.

# Panics

A producer chooses between sending an entry and a context that is done,
without `mu`. Where both can go on, either may be taken, so a producer that
has come to its `select` may send on a channel that `Stop` has closed. That
is a panic, and the end of the process.

# One list

The logs of several pods in one list (pkg/k8s/multilog.go,
`sortMultiLogEntries`).

The entries are sorted by two loops that exchange what is out of order. A
timestamp is before another if its instant is, whatever the zones.
-/
import Kubikles.Lib.FinMap
import Kubikles.Lib.Goroutine
import Kubikles.Lib.Rfc3339
import Kubikles.Lib.ExchangeSort

namespace MultiLog

open Rfc3339 (Time)

-- ======== the structs

structure MultiLogRequest where
  podNames : List Text
  labelSelector : List (Text × Text)
  /-- The only container to stream, if not empty. -/
  container : Text
  timestamps : Bool
deriving DecidableEq

structure MultiLogEntry where
  timestamp : Time
  podName : Text
  container : Text
  message : Text
  color : Text

structure Pod where
  name : Text
  containers : List Text
deriving DecidableEq

/-- What a producer streams: the arguments of `streamPodLogs`. -/
structure Source where
  podName : Text
  container : Text
  color : Text
  timestamps : Bool
deriving DecidableEq

/-- A runtime error. -/
inductive Panic where
  /-- `send on closed channel`. -/
  | sendOnClosed
  /-- `close of closed channel`. -/
  | closeOfClosed
deriving DecidableEq

/-- `MultiLogSession`, the wait group of its producers, and the panic there
has been. -/
structure MultiLogSession where
  ctxDone : Bool := false
  entries : Chan MultiLogEntry := { capacity := 1000 }
  podStreams : FinMap Text Source := ∅
  closed : Bool := false
  wg : Nat
  panicked : Option Panic := none

-- ======== parsing a log line

/-- `parseLogLine`, at a time. -/
def parseLogLine (now : Time) (line : Text) (hasTimestamp : Bool) :
    Time × Text :=
  if hasTimestamp = false ∨ line.length < 30 then (now, line)
  else
    let spaceIdx := line.idxOf Text.space
    if spaceIdx = line.length ∨ spaceIdx < 20 ∨ 35 < spaceIdx then
      (now, line)
    else
      match Rfc3339.parse (line.take spaceIdx) with
      | some t => (t, line.drop (spaceIdx + 1))
      | none => (now, line)

-- ======== frames

/-- Where a goroutine stands. -/
inductive Frame where
  /-- `streamPodLogs`: about to open the stream. -/
  | stream (src : Source)
  /-- About to put the stream into `podStreams`. -/
  | register (src : Source)
  /-- At `scanner.Scan`. -/
  | scan (src : Source)
  /-- At the outer `select`, with a line. -/
  | check (src : Source) (line : Text)
  /-- At a `select` that sends; behind the send the loop goes on, or
  there is no loop. -/
  | send (entry : MultiLogEntry) (loop : Option Source)
  /-- At `defer stream.Close()`. -/
  | closeStream (src : Source)
  /-- At `defer wg.Done()`. -/
  | wgDone
  /-- The closer: at `wg.Wait`. -/
  | wait
  /-- The closer: about to enter its critical section. -/
  | closeEntries
  /-- `Stop`: about to cancel the context. -/
  | cancel
  /-- `Stop`: about to enter its critical section. -/
  | stop
  /-- A reader: at a receive from `ReadEntries`. -/
  | receive

/-- What the environment tells a goroutine. -/
inductive Env where
  | go
  | opened
  | failed (err : Text) (now : Time)
  | line (text : Text)
  | ended
  | time (now : Time)
  /-- The case a `select` takes. -/
  | select (send : Bool)

inductive Call where
  | stop
  | read
deriving DecidableEq

/-- What a reader receives; nothing from a channel that is closed and
empty. -/
abbrev Out := Option MultiLogEntry

abbrev Effect := Goroutine.Effect MultiLogSession Frame Out

def podColors : List Text :=
  ["#3B82F6", "#10B981", "#F59E0B", "#EF4444", "#8B5CF6", "#EC4899",
    "#06B6D4", "#84CC16", "#F97316", "#6366F1"].map Text.ofString

/-- The key of `podStreams`. -/
def Source.key (src : Source) : Text :=
  src.podName ++ Text.ofString "/" ++ src.container

def Source.entry (src : Source) (timestamp : Time) (message : Text) :
    MultiLogEntry where
  timestamp := timestamp
  podName := src.podName
  container := src.container
  message := message
  color := src.color

/-- The critical sections that close the channel. -/
def MultiLogSession.closeOnce (s : MultiLogSession) : MultiLogSession :=
  if s.closed then s
  else
    match s.entries.close with
    | .done entries => { s with entries, closed := true }
    | _ => { s with panicked := some .closeOfClosed }

@[simp] def behindSend : Option Source → List Frame
  | some src => [.scan src]
  | none => [.wgDone]

/-- Behind a `select` that found the context done. -/
@[simp] def behindDone : Option Source → List Frame
  | some src => [.closeStream src]
  | none => [.wgDone]

def exec : Goroutine.Exec MultiLogSession Frame Env Out
  | .stream src, .opened, s =>
    some { world := s, frames := [.register src] }
  | .stream src, .failed err now, s =>
    some { world := s
           frames := [.send (src.entry now
             (Text.ofString "[ERROR] Failed to stream logs: " ++ err))
             none] }
  | .register src, .go, s =>
    some { world :=
             { s with podStreams := s.podStreams.insert src.key src }
           frames := [.scan src] }
  | .scan src, .line text, s =>
    some { world := s, frames := [.check src text] }
  | .scan src, .ended, s =>
    some { world := s, frames := [.closeStream src] }
  | .check src line, .time now, s =>
    some { world := s
           frames :=
             if s.ctxDone then [.closeStream src]
             else
               let (timestamp, message) :=
                 parseLogLine now line src.timestamps
               [.send (src.entry timestamp message) (some src)] }
  | .send entry loop, .select true, s =>
    match s.entries.send entry with
    | .done entries =>
      some { world := { s with entries }, frames := behindSend loop }
    | .panic => some { world := { s with panicked := some .sendOnClosed } }
    | .blocked => none
  | .send _ loop, .select false, s =>
    if s.ctxDone then some { world := s, frames := behindDone loop }
    else none
  | .closeStream _, .go, s => some { world := s, frames := [.wgDone] }
  | .wgDone, .go, s => some { world := { s with wg := s.wg - 1 } }
  | .wait, .go, s =>
    if s.wg = 0 then some { world := s, frames := [.closeEntries] }
    else none
  | .closeEntries, .go, s => some { world := s.closeOnce }
  | .cancel, .go, s =>
    some { world := { s with ctxDone := true }, frames := [.stop] }
  | .stop, .go, s =>
    some { world := { s with podStreams := ∅ }.closeOnce }
  | .receive, .go, s =>
    match s.entries.receive with
    | .done (entry, entries) =>
      some { world := { s with entries }, out := [entry] }
    | _ => none
  | _, _, _ => none

def Call.frames : Call → List Frame
  | .stop => [.cancel]
  | .read => [.receive]

-- ======== a session

abbrev Sys := Goroutine.Sys MultiLogSession Frame

/-- A call is made, or a goroutine takes its next step. -/
abbrev Act := Goroutine.Act Call Env

/-- The transitions: any interleaving. -/
def step : Machine.Step Sys Act (Nat × Out) :=
  Goroutine.step exec Call.frames

/-- Why there is no session. -/
inductive StartError where
  | clientset (err : Text)
  | list (err : Text)
  | noCriteria
  | noPods
deriving DecidableEq

structure Cluster where
  /-- The error of `getClientset`. -/
  clientsetError : Option Text
  get : Text → Option Pod
  list : Except Text (List Pod)

def MultiLogRequest.pods (req : MultiLogRequest) (cluster : Cluster) :
    Except StartError (List Pod) :=
  if req.podNames ≠ [] then .ok (req.podNames.filterMap cluster.get)
  else if req.labelSelector ≠ [] then cluster.list.mapError .list
  else .error .noCriteria

def MultiLogRequest.containers (req : MultiLogRequest) (pod : Pod) :
    List Text :=
  if req.container ≠ [] then [req.container] else pod.containers

/-- The producers of a session. -/
def MultiLogRequest.sources (req : MultiLogRequest) (pods : List Pod) :
    List Source :=
  pods.zipIdx.flatMap fun (pod, i) =>
    (req.containers pod).map fun container =>
      { podName := pod.name
        container
        color := podColors.getD (i % podColors.length) []
        timestamps := req.timestamps }

def launch (sources : List Source) : Sys where
  world := { wg := sources.length }
  goroutines := sources.map (fun src => [.stream src]) ++ [[.wait]]

def startMultiLogSession (cluster : Cluster) (req : MultiLogRequest) :
    Except StartError Sys :=
  match cluster.clientsetError with
  | some err => .error (.clientset err)
  | none =>
    match req.pods cluster with
    | .error err => .error err
    | .ok [] => .error .noPods
    | .ok pods => .ok (launch (req.sources pods))

end MultiLog

namespace MultiLog

open Rfc3339 (Time)

-- ======== the sort

def MultiLogEntry.instant (e : MultiLogEntry) : Int := e.timestamp.instant

/-- `e.Timestamp.Before(e'.Timestamp)`. -/
def MultiLogEntry.before (e e' : MultiLogEntry) : Bool :=
  e.instant < e'.instant

def sortMultiLogEntries (entries : List MultiLogEntry) :
    List MultiLogEntry :=
  ExchangeSort.sortInPlace MultiLogEntry.before entries

def placed (entries : List MultiLogEntry) : List (MultiLogEntry × Nat) :=
  ExchangeSort.arranged MultiLogEntry.before entries

/-- The entries with a timestamp, each with the number of earlier entries
that stand between it and the next of them, or behind the last. -/
def earlierBehind (instant : Int) (entries : List MultiLogEntry) :
    List (MultiLogEntry × Nat) :=
  (ExchangeSort.gaps MultiLogEntry.instant instant entries).2

/-- The entries are those there were, no timestamp before that of the
entry above, and those of one timestamp are in the order they were in. -/
structure SortedInOrder (entries : List MultiLogEntry) : Prop where
  perm : (sortMultiLogEntries entries).Perm entries
  ordered : (sortMultiLogEntries entries).Pairwise
    fun e e' => e.instant ≤ e'.instant
  same : (placed entries).map Prod.fst = sortMultiLogEntries entries
  stable : (placed entries).Pairwise
    fun p q => p.1.instant = q.1.instant → p.2 < q.2

-- ======== ties

/-- All but the order of ties is right, and ties are in order exactly if
behind each of them the number of earlier entries up to the next is a
multiple of the number of ties up to there. -/
theorem sorted_in_order_iff (entries : List MultiLogEntry) :
    SortedInOrder entries
      ↔ ∀ instant i p, (earlierBehind instant entries)[i]? = some p →
          (i + 1) ∣ p.2 := by
  have hsort : sortMultiLogEntries entries
      = ExchangeSort.sort MultiLogEntry.instant entries :=
    ExchangeSort.sortInPlace_eq MultiLogEntry.instant entries
  refine Iff.trans ?_
    (ExchangeSort.stable_iff MultiLogEntry.instant entries)
  constructor
  · intro h
    exact h.stable
  · intro h
    refine ⟨?_, ?_, ExchangeSort.arranged_fst _ entries, h⟩
    · rw [hsort]
      exact ExchangeSort.sort_perm entries
    · rw [hsort]
      exact ExchangeSort.sort_ordered entries

def second (n : Fin 60) : Time where
  year := 2024
  month := 11
  day := 26
  nanos := n * 1000000000
  offset := 0
  valid :=
    { month_pos := Nat.le_add_left 1 10
      month_le := Nat.le_succ 11
      day_pos := Nat.le_add_left 1 25
      day_le := show 26 ≤ Rfc3339.daysIn (Rfc3339.leap 2024) 11 by decide
      nanos_lt := by
        have := n.isLt
        show n.val * 1000000000 < 86400000000000
        omega }

/-- Two lines of one container with one timestamp, and an earlier one of
another container behind them. -/
def tied : List MultiLogEntry :=
  [⟨second 1, Text.ofString "app", Text.ofString "a",
      Text.ofString "first", []⟩,
    ⟨second 1, Text.ofString "app", Text.ofString "a",
      Text.ofString "second", []⟩,
    ⟨second 0, Text.ofString "app", Text.ofString "b",
      Text.ofString "other", []⟩]

/-- The earlier line takes the place of the first, and that goes behind
the second. -/
theorem tied_out_of_order : ¬ ∀ entries, SortedInOrder entries := by
  intro h
  have hstable := (h tied).stable
  revert hstable
  decide

end MultiLog
