/-
Fetching the log of a container (pkg/k8s/podlogs.go).

# The server

What the API server sends is not in the repository: a `Client` is what
its three calls come to, and `stream` is the answer to a `GetLogs`
request, an error or a body. A body is the bytes that arrive and how they
end, with EOF or with an error. What a server does with `SinceTime` and
`TailLines` is for the statements to say.

# Pages

`readBoundedLogPage` reads whole lines with `ReadString`, so its loop
runs over the pieces of the body between newlines, of which the last has
no newline and comes with the end of the body. The `LimitReader` around
the body lets one byte more through than the limit and then ends it.

# Several containers

Fetching the logs of several containers as one (pkg/k8s/podlogs.go).

# One shape

The functions for the containers of a pod and for many pods do the same
with a list of fetches: one goroutine a fetch, the results through a
channel, their lines into one list, a stable sort by timestamp, a cut.
They differ in the fetches and in what is put in front of a line (`tag`).
So each is `merged` applied to its fetches.

# Arrivals

The results come in any order. An `Arrivals` is one, with the time the
clock shows at each result, which goes into the line that stands for a
fetch that failed.
-/
import Kubikles.Lib.Rfc3339
import Kubikles.Lib.StableSort

namespace PodLog

open Rfc3339 (Time)

-- ======== requests

inductive LogError where
  /-- `errLogPageTooLarge`. -/
  | pageTooLarge
  | other (message : Text)
deriving DecidableEq

/-- `err.Error()`. -/
def LogError.text : LogError → Text
  | .pageTooLarge => Text.ofString
      "log page exceeds the 4 MiB limit; narrow the log time range to continue without losing data"
  | .other message => message

/-- `v1.PodLogOptions`. -/
structure PodLogOptions where
  container : Text := []
  follow : Bool := false
  previous : Bool := false
  sinceTime : Option Time := none
  timestamps : Bool := false
  tailLines : Option Int := none
deriving DecidableEq

/-- The body of an answer: its bytes, and the error that ends it if it
does not end. -/
structure Body where
  bytes : Text
  err : Option LogError := none
deriving DecidableEq

/-- What a client finds: is the current context the debug cluster, is
there a clientset, what the server answers. -/
structure Client where
  debugCluster : Bool := false
  clientset : Option LogError := none
  stream : Text → Text → PodLogOptions → Except LogError Body

-- ======== pages

def maxPollingLogBytes : Nat := 4 * 1024 * 1024

/-- `io.LimitReader`. -/
def Body.limit (n : Nat) (body : Body) : Body :=
  if n ≤ body.bytes.length then ⟨body.bytes.take n, none⟩ else body

/-- The loop of `readBoundedLogPage`, over the pieces of its source. -/
def readLines (byteLimit : Nat) (maxLines : Int) (err : Option LogError)
    (lines : Int) (page : Text) : List Text → Except LogError Text
  | [] => .ok page
  | piece :: rest =>
    if ¬ (maxLines ≤ 0 ∨ lines < maxLines) then .ok page
    else
      let line := if rest = [] then piece else piece ++ [Text.newline]
      if byteLimit < page.length + line.length then .error .pageTooLarge
      else if rest = [] then
        match err with
        | none => .ok (page ++ line)
        | some e => .error e
      else
        readLines byteLimit maxLines err (lines + 1) (page ++ line) rest

def readBoundedLogPage (source : Body) (byteLimit : Nat)
    (maxLines : Int) : Except LogError Text :=
  let reader := source.limit (byteLimit + 1)
  readLines byteLimit maxLines reader.err 0 [] (Text.split reader.bytes)

/-- `io.Copy`. -/
def readAll (source : Body) : Except LogError Text :=
  match source.err with
  | none => .ok source.bytes
  | some e => .error e

/-- The options of the request `getPodLogsWithOptionsLimit` makes. -/
def logOptions (containerName : Text) (tailLines : Option Int)
    (timestamps previous : Bool) (sinceTime : Text) (maxLines : Int) :
    PodLogOptions where
  container := containerName
  timestamps := timestamps
  previous := previous
  tailLines :=
    if sinceTime = [] ∧ 0 < maxLines ∧ tailLines = none then some maxLines
    else tailLines
  sinceTime := if sinceTime = [] then none else Rfc3339.parse sinceTime

def Client.getPodLogsWithOptionsLimit (c : Client)
    (ns podName containerName : Text) (tailLines : Option Int)
    (timestamps previous : Bool) (sinceTime : Text)
    (limitBytes : Option Nat) (maxLines : Int) : Except LogError Text :=
  if c.debugCluster then
    .error (.other (Text.ofString
      "logs are not available on the debug cluster"))
  else
    match c.clientset with
    | some e => .error e
    | none => do
        let podLogs ← c.stream ns podName (logOptions containerName
          tailLines timestamps previous sinceTime maxLines)
        match limitBytes with
        | some limit => readBoundedLogPage podLogs limit maxLines
        | none => readAll podLogs

def Client.getPodLogsWithOptions (c : Client)
    (ns podName containerName : Text) (tailLines : Option Int)
    (timestamps previous : Bool) (sinceTime : Text) :
    Except LogError Text :=
  c.getPodLogsWithOptionsLimit ns podName containerName tailLines
    timestamps previous sinceTime none 0

-- ======== after a time

def nextLogSinceTime (afterTime : Text) : Text :=
  match Rfc3339.parse afterTime with
  | none => afterTime
  | some t => Rfc3339.format t.next

def orDefault (lineLimit : Int) : Int :=
  if lineLimit ≤ 0 then 200 else lineLimit

/-- `strings.SplitN(line, " ", 2)[0]`. -/
def firstWord (line : Text) : Text := line.takeWhile (· ≠ Text.space)

def beforeCutoff (cutoff : Option Time) (line : Text) : Bool :=
  match cutoff, Rfc3339.parse (firstWord line) with
  | some cutoff, some lineTime => lineTime.instant < cutoff.instant
  | _, _ => false

/-- Strip the timestamp of a line, if there is one by its length. -/
def dropTimestamp (line : Text) : Text :=
  if 31 < line.length then line.drop 31 else line

/-- The end of the three `...After` functions: so many lines, with or
without their timestamps, and whether there are more. -/
def cutPage (timestamps : Bool) (lineLimit : Int) (lines : List Text) :
    Text × Bool :=
  let page := lines.take lineLimit.toNat
  (Text.join (if timestamps then page else page.map dropTimestamp),
    lineLimit.toNat < lines.length)

def Client.getPodLogsAfter (c : Client) (ns podName containerName : Text)
    (timestamps previous : Bool) (afterTime : Text) (lineLimit : Int) :
    Except LogError (Text × Bool) := do
  let lineLimit := orDefault lineLimit
  let sinceTime := nextLogSinceTime afterTime
  let allLogs ← c.getPodLogsWithOptionsLimit ns podName containerName none
    true previous sinceTime (some maxPollingLogBytes) (lineLimit + 1)
  let lines := (Text.split allLogs).dropWhile
    (beforeCutoff (Rfc3339.parse sinceTime))
  if lines = [] then return ([], false)
  else return cutPage timestamps lineLimit lines

end PodLog

namespace PodLog

-- ======== fetches

/-- A log to fetch, and what its lines are marked with. -/
structure Fetch where
  podName : Text
  containerName : Text
  tag : Text
deriving DecidableEq

structure PodContainerPair where
  podName : Text
  containerNames : List Text
deriving DecidableEq

def containerFetches (podName : Text) (containerNames : List Text) :
    List Fetch :=
  containerNames.map fun containerName =>
    ⟨podName, containerName, containerName⟩

/-- The `prefix` of a result in the functions for many pods. -/
def podTag (allContainers : Bool) (podName containerName : Text) : Text :=
  if allContainers ∧ containerName ≠ [] then
    podName ++ Text.ofString "/" ++ containerName
  else podName

/-- The containers of a pod whose logs are fetched: all if all are wanted
and there are several, else the first, else the one with no name. -/
def PodContainerPair.wanted (allContainers : Bool)
    (p : PodContainerPair) : List Text :=
  if allContainers ∧ 1 < p.containerNames.length then p.containerNames
  else [p.containerNames.headD []]

def podFetches (pods : List PodContainerPair) (allContainers : Bool) :
    List Fetch :=
  pods.flatMap fun p => (p.wanted allContainers).map fun containerName =>
    ⟨p.podName, containerName, podTag allContainers p.podName containerName⟩

/-- A result comes in. -/
structure Arrival where
  fetch : Fetch
  now : Text

/-- An order in which the results of these fetches may come in. -/
structure Arrivals (fetches : List Fetch) where
  list : List Arrival
  perm : (list.map (·.fetch)).Perm fetches

-- ======== lines

structure TimestampedLogLine where
  timestamp : Text
  content : Text
deriving DecidableEq

/-- The timestamp of a line and what is behind it. -/
def splitTimestamp (l : Text) : Text × Text :=
  if 31 ≤ l.length ∧ l[30]? = some Text.space then (l.take 30, l.drop 31)
  else ([], l)

def mergedLine (tag line : Text) : Text :=
  let (ts, content) := splitTimestamp line
  if ts ≠ [] then
    ts ++ Text.ofString " [" ++ tag ++ Text.ofString "] " ++ content
  else Text.ofString "[" ++ tag ++ Text.ofString "] " ++ content

/-- Strip the timestamp prefix of a merged line, if there is one. -/
def stripTimestamp (l : Text) : Text :=
  if 31 < l.length ∧ l[30]? = some Text.space then l.drop 31 else l

/-- A line as it goes into the merge. -/
def timestamped (tag line : Text) : TimestampedLogLine :=
  ⟨(splitTimestamp line).1, mergedLine tag line⟩

structure FetchResult where
  tag : Text
  logs : Except LogError Text
  now : Text

/-- The lines of a result: those that are not empty, or one that says
what went wrong. A page that is too large fails the whole. -/
def FetchResult.lines (result : FetchResult) :
    Except LogError (List TimestampedLogLine) :=
  match result.logs with
  | .error .pageTooLarge => .error .pageTooLarge
  | .error e => .ok [⟨result.now, Text.ofString "[" ++ result.tag
      ++ Text.ofString "] Error fetching logs: " ++ e.text⟩]
  | .ok logs =>
    .ok (((Text.split logs).filter (· ≠ [])).map (timestamped result.tag))

def allLines : List FetchResult → Except LogError (List TimestampedLogLine)
  | [] => .ok []
  | result :: results => do
      let lines ← result.lines
      let others ← allLines results
      return lines ++ others

def sortLines (lines : List TimestampedLogLine) :
    List TimestampedLogLine :=
  StableSort.sortBy TimestampedLogLine.timestamp lines

def resultLines (timestamps : Bool) (results : List FetchResult) :
    Except LogError (List Text) := do
  let lines ← allLines results
  return (sortLines lines).map fun line =>
    if timestamps then line.content else stripTimestamp line.content

/-- The first lines if there is a `sinceTime`, else the last. -/
def cutLines (sinceTime : Text) (maxLines : Int) (lines : List Text) :
    List Text :=
  if 0 < maxLines ∧ sinceTime ≠ [] ∧ maxLines < lines.length then
    lines.take maxLines.toNat
  else if 0 < maxLines ∧ sinceTime = [] ∧ maxLines < lines.length then
    StableSort.lastN maxLines.toNat lines
  else lines

-- ======== functions

def Arrivals.results {fetches : List Fetch} (arrivals : Arrivals fetches)
    (fetch : Fetch → Except LogError Text) : List FetchResult :=
  arrivals.list.map fun a => ⟨a.fetch.tag, fetch a.fetch, a.now⟩

/-- Fetch a page of each log and merge the pages. -/
def Client.merged (c : Client) (ns : Text) (timestamps previous : Bool)
    (sinceTime : Text) (maxLines : Int) {fetches : List Fetch}
    (arrivals : Arrivals fetches) : Except LogError Text := do
  let lines ← resultLines timestamps (arrivals.results fun f =>
    c.getPodLogsWithOptionsLimit ns f.podName f.containerName none true
      previous sinceTime (some maxPollingLogBytes) maxLines)
  return Text.join (cutLines sinceTime maxLines lines)

/-- Fetch each log as a whole and merge them. -/
def Client.mergedAll (c : Client) (ns : Text) (timestamps previous : Bool)
    {fetches : List Fetch} (arrivals : Arrivals fetches) :
    Except LogError Text := do
  let lines ← resultLines timestamps (arrivals.results fun f =>
    c.getPodLogsWithOptions ns f.podName f.containerName none true previous
      [])
  return Text.join lines

/-- The page behind a time, out of the merged pages. -/
def Client.mergedAfter (c : Client) (ns : Text) (timestamps previous : Bool)
    (afterTime : Text) (lineLimit : Int) {fetches : List Fetch}
    (arrivals : Arrivals fetches) : Except LogError (Text × Bool) := do
  let lineLimit := orDefault lineLimit
  let allLogs ← c.merged ns true previous (nextLogSinceTime afterTime)
    (lineLimit + 1) arrivals
  return cutPage timestamps lineLimit (Text.split allLogs)

def Client.getAllContainersLogs (c : Client) (ns podName : Text)
    (containerNames : List Text) (timestamps previous : Bool)
    (sinceTime : Text) (maxLines : Int)
    (arrivals : Arrivals (containerFetches podName containerNames)) :
    Except LogError Text :=
  if containerNames = [] then .ok []
  else c.merged ns timestamps previous sinceTime maxLines arrivals

def Client.getAllContainersLogsAll (c : Client) (ns podName : Text)
    (containerNames : List Text) (timestamps previous : Bool)
    (arrivals : Arrivals (containerFetches podName containerNames)) :
    Except LogError Text :=
  if containerNames = [] then .ok []
  else c.mergedAll ns timestamps previous arrivals

def Client.getAllContainersLogsAfter (c : Client) (ns podName : Text)
    (containerNames : List Text) (timestamps previous : Bool)
    (afterTime : Text) (lineLimit : Int)
    (arrivals : Arrivals (containerFetches podName containerNames)) :
    Except LogError (Text × Bool) := do
  let lineLimit := orDefault lineLimit
  let allLogs ← c.getAllContainersLogs ns podName containerNames true
    previous (nextLogSinceTime afterTime) (lineLimit + 1) arrivals
  return cutPage timestamps lineLimit (Text.split allLogs)

def Client.getAllPodsLogs (c : Client) (ns : Text)
    (pods : List PodContainerPair) (allContainers : Bool)
    (timestamps previous : Bool) (sinceTime : Text) (maxLines : Int)
    (arrivals : Arrivals (podFetches pods allContainers)) :
    Except LogError Text :=
  if pods = [] then .ok []
  else c.merged ns timestamps previous sinceTime maxLines arrivals

def Client.getAllPodsLogsAll (c : Client) (ns : Text)
    (pods : List PodContainerPair) (allContainers : Bool)
    (timestamps previous : Bool)
    (arrivals : Arrivals (podFetches pods allContainers)) :
    Except LogError Text :=
  if pods = [] then .ok []
  else c.mergedAll ns timestamps previous arrivals

def Client.getAllPodsLogsAfter (c : Client) (ns : Text)
    (pods : List PodContainerPair) (allContainers : Bool)
    (timestamps previous : Bool) (afterTime : Text) (lineLimit : Int)
    (arrivals : Arrivals (podFetches pods allContainers)) :
    Except LogError (Text × Bool) := do
  let lineLimit := orDefault lineLimit
  let allLogs ← c.getAllPodsLogs ns pods allContainers true previous
    (nextLogSinceTime afterTime) (lineLimit + 1) arrivals
  return cutPage timestamps lineLimit (Text.split allLogs)

end PodLog
