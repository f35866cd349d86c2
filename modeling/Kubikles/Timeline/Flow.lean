/-
The flow timeline (`flowtimeline.go`): the events of some resources and
the error lines of their pods' logs.

# What is given

The resources are those of the dependency graph and the one asked for,
each once. What the cluster answers is given too: an answer that is not
there is an error, which the code passes over. A log comes in chunks, as
the network cuts it, and all of it fits into the buffer. Times are
instants.

# Goroutines

One goroutine for each resource appends its events, and one for each pod
its error lines, each of them at once and in any order (`Finish`). What
was appended is sorted and cut.
-/
import Kubikles.Lib.Rfc3339
import Kubikles.Lib.Sorter
import Mathlib.Data.List.Infix

namespace FlowTimeline

-- ======== entries

inductive EntryType where
  | event
  | log
  deriving DecidableEq

inductive Severity where
  | info
  | warning
  | error
  deriving DecidableEq

structure FlowTimelineEntry where
  timestamp : Int
  entryType : EntryType
  severity : Severity
  resourceRef : Text
  kind : Text
  name : Text
  ns : Text
  message : Text
  details : Text
  deriving DecidableEq

/-- `FlowTimelineRequest`, but for the resource. -/
structure FlowTimelineRequest where
  durationMinutes : Int := 0
  maxEntries : Int := 0
  includeLogs : Bool := false

structure ResourceRef where
  kind : Text
  name : Text
  ns : Text
  deriving DecidableEq

structure Event where
  lastTimestamp : Int
  eventTime : Int
  firstTimestamp : Int
  type : Text
  reason : Text
  message : Text
  count : Int
  component : Text
  host : Text

/-- The size of the buffer that a log is read into. -/
def bufSize : Nat := 1024 * 1024

structure LogStream where
  chunks : List Text
  small : chunks.flatten.length < bufSize

/-- What the cluster answers: the events of a namespace about a name and a
kind, the containers of a pod, and the log of a container. -/
structure Cluster where
  events : Text → Text → Text → Option (List Event)
  containers : Text → Text → Option (List Text)
  logs : Text → Text → Text → Option LogStream

-- ======== patterns

def zeroTime : Int := Rfc3339.daysBefore 1 1 1 * Rfc3339.dayNanos

/-- A byte that `\b` takes for part of a word. -/
def isWordByte (b : UInt8) : Bool :=
  (48 ≤ b && b ≤ 57) || (65 ≤ b && b ≤ 90) || (97 ≤ b && b ≤ 122) || b = 95

/-- There is no part of a word here. -/
def outside (b : Option UInt8) : Bool :=
  match b with
  | none => true
  | some b => !isWordByte b

/-- What is behind a word of small letters at the front of a text, in any
case; the long s is an s. -/
def matchWord : Text → Text → Option Text
  | [], s => some s
  | c :: word, b :: s =>
    if b = c || b = c - 32 then matchWord word s
    else if c = 115 && b = 0xC5 && s.head? = some 0xBF then
      matchWord word s.tail
    else none
  | _ :: _, [] => none

/-- A word is somewhere in a text, by itself. The first argument is the
byte in front of the text. -/
def hasWord (word : Text) (before : Option UInt8) : Text → Bool
  | [] => false
  | b :: s =>
    (outside before
      && match matchWord word (b :: s) with
        | none => false
        | some behind => outside behind.head?)
    || hasWord word (some b) s

/-- The words of `errorPatterns`. -/
def errorPatterns : List Text :=
  ["error", "failed", "failure", "exception", "panic", "fatal", "timeout",
    "refused", "unauthorized", "denied"].map Text.ofString

def isErrorLine (line : Text) : Bool :=
  errorPatterns.any fun word => hasWord word none line

/-- Small letters, as far as a search for small letters can tell: the dotted
capital I and the Kelvin sign are an i and a k. -/
def toLower : Text → Text
  | 0xC4 :: 0xB0 :: s => 105 :: toLower s
  | 0xE2 :: 0x84 :: 0xAA :: s => 107 :: toLower s
  | b :: s => (if 65 ≤ b && b ≤ 90 then b + 32 else b) :: toLower s
  | [] => []

/-- `strings.Contains`, of a literal. -/
def contains (s : Text) (literal : String) : Bool :=
  decide (Text.ofString literal <:+: s)

def truncateString (s : Text) (maxLen : Nat) : Text :=
  if s.length ≤ maxLen then s
  else s.take (maxLen - 3) ++ Text.ofString "..."

/-- `parseLogTimestamp`. A text that is no time with nanoseconds is none
without them either. -/
def parseLogTimestamp (line : Text) : Int × Text :=
  if line.length < 30 then (zeroTime, line)
  else
    match line.idxOf? Text.space with
    | none => (zeroTime, line)
    | some spaceIdx =>
      if spaceIdx < 20 ∨ 35 < spaceIdx then (zeroTime, line)
      else
        match Rfc3339.parse (line.take spaceIdx) with
        | none => (zeroTime, line)
        | some t => (t.instant, line.drop (spaceIdx + 1))

-- ======== events

def Event.time (e : Event) : Int :=
  let eventTime := e.lastTimestamp
  let eventTime := if eventTime = zeroTime then e.eventTime else eventTime
  if eventTime = zeroTime then e.firstTimestamp else eventTime

def Event.severity (e : Event) : Severity :=
  let severity :=
    if e.type = Text.ofString "Warning" then .warning else .info
  let msgLower := toLower e.message
  if contains msgLower "error" || contains msgLower "failed"
      || contains msgLower "backoff" || contains msgLower "unhealthy" then
    .error
  else severity

def formatEventDetails (e : Event) : Text :=
  Text.join [Text.ofString "Reason: " ++ e.reason,
    Text.ofString "Message: " ++ e.message,
    Text.ofString "Count: " ++ Text.ofString (toString e.count),
    Text.ofString "Source: " ++ e.component ++ Text.ofString "/" ++ e.host]

/-- `%s/%s` of a resource. -/
def ResourceRef.format (ref : ResourceRef) : Text :=
  ref.kind ++ Text.ofString "/" ++ ref.name

def eventEntry (ref : ResourceRef) (e : Event) : FlowTimelineEntry where
  timestamp := e.time
  entryType := .event
  severity := e.severity
  resourceRef := ref.format
  kind := ref.kind
  name := ref.name
  ns := ref.ns
  message := e.reason ++ Text.ofString ": " ++ e.message
  details := formatEventDetails e

def ResourceRef.eventNamespace (ref : ResourceRef) : Text :=
  if ref.ns = [] then Text.ofString "default" else ref.ns

def getEventsForResource (cluster : Cluster) (ref : ResourceRef)
    (cutoff : Int) : List FlowTimelineEntry :=
  match cluster.events ref.eventNamespace ref.name ref.kind with
  | none => []
  | some events =>
    (events.filter fun e => ¬e.time < cutoff).map (eventEntry ref)

-- ======== logs

/-- `stream.Read`, called once: what the first chunk has for the buffer. -/
def LogStream.read (stream : LogStream) : Text :=
  (stream.chunks.headD []).take bufSize

def logEntry (ref : ResourceRef) (timestamp : Int) (content : Text) :
    FlowTimelineEntry where
  timestamp := timestamp
  entryType := .log
  severity := .error
  resourceRef := ref.format
  kind := ref.kind
  name := ref.name
  ns := ref.ns
  message := truncateString content 200
  details := content

/-- What the loop over the lines appends for one. -/
def errorLine (ref : ResourceRef) (cutoff : Int) (line : Text) :
    Option FlowTimelineEntry :=
  if line = [] then none
  else if ¬isErrorLine line then none
  else
    let (timestamp, content) := parseLogTimestamp line
    if timestamp = zeroTime ∨ timestamp < cutoff then none
    else some (logEntry ref timestamp content)

def getRecentErrorLogs (cluster : Cluster) (ref : ResourceRef)
    (cutoff : Int) : List FlowTimelineEntry :=
  match cluster.containers ref.ns ref.name with
  | none => []
  | some containers =>
    containers.flatMap fun container =>
      match cluster.logs ref.ns ref.name container with
      | none => []
      | some stream =>
        if stream.read = [] then []
        else (Text.split stream.read).filterMap (errorLine ref cutoff)

-- ======== timeline

def FlowTimelineRequest.withDefaults (req : FlowTimelineRequest) :
    FlowTimelineRequest :=
  let req := if req.maxEntries = 0 then { req with maxEntries := 200 }
    else req
  if req.durationMinutes = 0 then { req with durationMinutes := 10 }
  else req

/-- The value of an `int64`. -/
def int64 (n : Int) : Int := n.bmod (2 ^ 64)

def FlowTimelineRequest.cutoff (now : Int) (req : FlowTimelineRequest) :
    Int :=
  let duration := int64 (req.withDefaults.durationMinutes * 60000000000)
  now + int64 (-duration)

def ResourceRef.isPod (ref : ResourceRef) : Bool :=
  ref.kind = Text.ofString "Pod"

/-- What the goroutines append, in the order in which they are started. -/
def appends (cluster : Cluster) (now : Int) (req : FlowTimelineRequest)
    (refs : List ResourceRef) : List (List FlowTimelineEntry) :=
  refs.map (getEventsForResource cluster · (req.cutoff now))
    ++ if req.includeLogs then
      (refs.filter ResourceRef.isPod).map
        (getRecentErrorLogs cluster · (req.cutoff now))
    else []

structure Finish (started : List (List FlowTimelineEntry)) where
  order : List (List FlowTimelineEntry)
  perm : order.Perm started

/-- `GetFlowTimeline`, behind the resources. A slice that is out of range
is a panic, and no result. -/
def getFlowTimeline (sorter : Sorter FlowTimelineEntry)
    (req : FlowTimelineRequest) {started : List (List FlowTimelineEntry)}
    (finish : Finish started) : Option (List FlowTimelineEntry) :=
  let req := req.withDefaults
  let entries := finish.order.flatten
  let entries := sorter.sort
    (fun a b => decide (b.timestamp < a.timestamp)) entries
  if req.maxEntries < entries.length then
    if req.maxEntries < 0 then none
    else some (entries.take req.maxEntries.toNat)
  else some entries

end FlowTimeline
