/-
Paging through a log from a cursor (pkg/k8s/podlogs.go, the three
`...After` functions as their caller uses them).

# Logs

A `LogLine` is a line with a timestamp of thirty bytes that Go reads. The
cursor of the caller is such a text too, so all that is said of a cursor
is that Go reads it and reads what it writes of the nanosecond behind
it (`IsCursor`): four digits of a year, and less than 25 hours of a zone.

# The server

A server is asked for lines since a time and sends those since the second
of that time (`since`). Asked for what is behind an instant, that is, for
the lines since the nanosecond after, it sends some lines again
(`repeated`): those of the second of that nanosecond that are not behind
the instant.

# Paging

The caller takes the timestamp of the last line of a page for the next
cursor, as long as it is told that there are more (`Paging`).

# Backward

Paging backward through a log (pkg/k8s/podlogs.go, the three
`...Before` functions).

# One shape

Each of the three fetches whole logs with their timestamps and ends with
the same code, which looks for the line where the page ends, cuts the
page and strips it. So each is `cutBefore` applied to what it fetches.

# The end of the page

The page ends where a line is at or behind the time. That is told from
the texts: of the time the first thirty bytes count, of a line its first
thirty bytes, and a shorter line does not count at all.
-/
import Kubikles.PodLog.Merge

namespace PodLog

open Rfc3339 (Time secondOf)
open Text (newline space)

-- ======== the logs

/-- Go reads this time from the text, and the time one nanosecond later
from what it writes of it. -/
structure IsCursor (cursor : Text) (t : Time) : Prop where
  reads : Rfc3339.parse cursor = some t
  year : t.next.year < 10000
  offset : t.offset.natAbs < 1500

structure LogLine where
  timestamp : Text
  time : Time
  content : Text
  cursor : IsCursor timestamp time
  thirty : timestamp.length = 30
  word : space ∉ timestamp ∧ newline ∉ timestamp
  whole : newline ∉ content

def LogLine.text (l : LogLine) : Text := l.timestamp ++ space :: l.content

def LogLine.instant (l : LogLine) : Int := l.time.instant

/-- A line with all nine digits of the fraction, in UTC, as Kubernetes
writes it. -/
def LogLine.stamped (t : Time) (content : Text)
    (hyear : t.year < 10000 ∧ t.next.year < 10000) (hoffset : t.offset = 0)
    (hcontent : newline ∉ content) : LogLine where
  timestamp := Rfc3339.stamp t
  time := t
  content := content
  cursor :=
    have hzone : t.offset.natAbs < 1500 := by
      rw [hoffset]
      decide
    ⟨Rfc3339.parse_stamp hyear.1 hzone, hyear.2, hzone⟩
  thirty := Rfc3339.stamp_length hyear.1 hoffset
  word :=
    have hshows := Rfc3339.stamp_printable hyear.1 hoffset
    ⟨fun h => absurd (hshows _ h) (by decide),
      fun h => absurd (hshows _ h) (by decide)⟩
  whole := hcontent

def since (log : List LogLine) (instant : Int) : List LogLine :=
  log.filter fun l => secondOf instant ≤ secondOf l.instant

def after (log : List LogLine) (instant : Int) : List LogLine :=
  log.filter fun l => instant < l.instant

/-- The lines that are not behind an instant, and that a server sends to
who asks for those that are. -/
def repeated (log : List LogLine) (instant : Int) : List LogLine :=
  (since log (instant + 1)).filter fun l => l.instant ≤ instant

def serving (log : List LogLine) : Client where
  stream _ _ options :=
    let lines := match options.sinceTime with
      | none => log
      | some s => since log s.instant
    .ok ⟨Text.unlines (lines.map LogLine.text), none⟩

-- ======== the paging

/-- A page, the cursor it is behind, and whether there are more. -/
structure Page where
  cursor : Text
  text : Text
  more : Bool

def Page.lines (p : Page) : List Text := (Text.split p.text).filter (· ≠ [])

/-- Pages, each behind the last line of that before. Paging is over with
a page that says that there are no more. -/
inductive Paging (answers : Text → Text × Bool → Prop) :
    (cursor : Text) → (pages : List Page) → (ended : Bool) → Prop
  | stop (cursor : Text) : Paging answers cursor [] false
  | last {cursor text : Text} (h : answers cursor (text, false)) :
      Paging answers cursor [⟨cursor, text, false⟩] true
  | more {cursor text line : Text} {pages : List Page} {ended : Bool}
      (h : answers cursor (text, true))
      (hlast : (Page.mk cursor text true).lines.getLast? = some line)
      (rest : Paging answers (firstWord line) pages ended) :
      Paging answers cursor (⟨cursor, text, true⟩ :: pages) ended

/-- A cursor that paging comes to, if each page is the first lines behind
its cursor, and says that there are more if and only if there are. -/
inductive Reaches (log : List LogLine) (lineLimit : Nat) :
    Int → Int → Prop
  | here (instant : Int) : Reaches log lineLimit instant instant
  | next {instant instant' : Int} {l : LogLine}
      (hlast : (after log instant)[lineLimit - 1]? = some l)
      (hmore : lineLimit < (after log instant).length)
      (rest : Reaches log lineLimit l.instant instant') :
      Reaches log lineLimit instant instant'

end PodLog

namespace PodLog

/-- `lineTime >= beforeTimePrefix`, of a line that has a timestamp by its
length. -/
def atOrAfter (beforeTimePrefix line : Text) : Bool :=
  30 ≤ line.length && !decide (line.take 30 < beforeTimePrefix)

/-- The lines that are returned, and whether there are more before
them. -/
def pageBefore (beforeTime : Text) (lineLimit : Int) (lines : List Text) :
    List Text × Bool :=
  match lines.findIdx? (atOrAfter (beforeTime.take 30)) with
  | none =>
    if lineLimit < lines.length then
      (lines.drop (lines.length - lineLimit).toNat, true)
    else (lines, false)
  | some 0 => ([], false)
  | some cutoffIndex =>
    let startIndex := (cutoffIndex : Int) - lineLimit
    if startIndex < 0 then (lines.take cutoffIndex, false)
    else ((lines.take cutoffIndex).drop startIndex.toNat, true)

/-- The end of the three `...Before` functions. -/
def cutBefore (timestamps : Bool) (beforeTime : Text) (lineLimit : Int)
    (allLogs : Text) : Text × Bool :=
  let (page, hasMoreBefore) :=
    pageBefore beforeTime (orDefault lineLimit) (Text.split allLogs)
  (Text.join (if timestamps then page else page.map dropTimestamp),
    hasMoreBefore)

def Client.getPodLogsBefore (c : Client) (ns podName containerName : Text)
    (timestamps previous : Bool) (beforeTime : Text) (lineLimit : Int) :
    Except LogError (Text × Bool) := do
  let allLogs ← c.getPodLogsWithOptions ns podName containerName none true
    previous []
  return cutBefore timestamps beforeTime lineLimit allLogs

def Client.getAllContainersLogsBefore (c : Client) (ns podName : Text)
    (containerNames : List Text) (timestamps previous : Bool)
    (beforeTime : Text) (lineLimit : Int)
    (arrivals : Arrivals (containerFetches podName containerNames)) :
    Except LogError (Text × Bool) := do
  let allLogs ← c.getAllContainersLogsAll ns podName containerNames true
    previous arrivals
  return cutBefore timestamps beforeTime lineLimit allLogs

def Client.getAllPodsLogsBefore (c : Client) (ns : Text)
    (pods : List PodContainerPair) (allContainers : Bool)
    (timestamps previous : Bool) (beforeTime : Text) (lineLimit : Int)
    (arrivals : Arrivals (podFetches pods allContainers)) :
    Except LogError (Text × Bool) := do
  let allLogs ← c.getAllPodsLogsAll ns pods allContainers true previous
    arrivals
  return cutBefore timestamps beforeTime lineLimit allLogs

end PodLog
