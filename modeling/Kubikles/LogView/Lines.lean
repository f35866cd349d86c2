/-
The lines of the log viewer
(frontend/src/components/shared/log-viewer/logUtils.ts).

A log arrives as one text. An entry is one of its lines, cut behind the
timestamp if it starts with one. Strings are lists of characters where
they are cut up; a timestamp is compared as a string.
-/
import Mathlib.Data.String.Basic

namespace LogView

/-- Where an entry comes from. -/
inductive Source where
  | initial
  | before
  | after
  | stream
  | poll
  | error
deriving DecidableEq, Repr

structure LogEntry where
  timestamp : String
  content : String
  source : Source
deriving DecidableEq, Repr

-- ======== parsing

/-- What `\s` matches and `trim` takes off. -/
def whitespace (c : Char) : Bool :=
  c = ' ' || c = '\t' || c = '\n' || c = '\x0b' || c = '\x0c' || c = '\r'
    || c = '\u00a0' || c = '\ufeff' || c = '\u1680' || c = '\u2028'
    || c = '\u2029' || c = '\u202f' || c = '\u205f' || c = '\u3000'
    || ('\u2000' ≤ c && c ≤ '\u200a')

/-- What `.` does not match. -/
def lineEnd (c : Char) : Bool :=
  c = '\n' || c = '\r' || c = '\u2028' || c = '\u2029'

/-- `line.trim()`, as a condition. -/
def hasText (line : List Char) : Bool := line.any fun c => !whitespace c

/-- A pattern of digits (`'0'`) and of characters that stand for
themselves, at the front of a line. -/
def matchFront : List Char → List Char → Option (List Char)
  | [], rest => some rest
  | _ :: _, [] => none
  | p :: pattern, c :: rest =>
    if if p = '0' then c.isDigit else c = p then matchFront pattern rest
    else none

/-- The pattern of a timestamp up to its fraction. -/
def timestampPattern : List Char := "0000-00-00T00:00:00.".toList

def timestampLength (line : List Char) : Option Nat :=
  match matchFront timestampPattern line with
  | none => none
  | some rest =>
    let fraction := rest.takeWhile Char.isDigit
    if fraction ≠ [] ∧ (rest.drop fraction.length).head? = some 'Z' then
      some (timestampPattern.length + fraction.length + 1)
    else none

/-- One line of `parseLogLines`. -/
def parseLine (source : Source) (line : List Char) : LogEntry :=
  match timestampLength line with
  | some n =>
    { timestamp := String.ofList (line.take n)
      content := String.ofList
        (((line.drop n).dropWhile whitespace).takeWhile
          fun c => !lineEnd c)
      source := source }
  | none =>
    { timestamp := "", content := String.ofList line, source := source }

def parseLogLines (rawLogs : String) (source : Source) : List LogEntry :=
  ((rawLogs.toList.splitOn '\n').filter hasText).map (parseLine source)

-- ======== timestamps

/-- The first timestamp of the entries, or the empty one. -/
def firstTimestamp (logs : List LogEntry) : String :=
  ((logs.find? (·.timestamp ≠ "")).map (·.timestamp)).getD ""

/-- The last timestamp of the entries, or the empty one. -/
def lastTimestamp (logs : List LogEntry) : String :=
  firstTimestamp logs.reverse

/-- The entries that are not older than what is shown. -/
def newerThan (lastTs : String) (entries : List LogEntry) :
    List LogEntry :=
  if lastTs = "" then entries
  else entries.filter fun e => e.timestamp = "" ∨ lastTs < e.timestamp

/-- Two entries that `appendUniqueLogEntries` does not tell apart. -/
def SameKey (e e' : LogEntry) : Prop :=
  e.timestamp = e'.timestamp ∧ e.content = e'.content

instance sameKeyDecidable (e e' : LogEntry) : Decidable (SameKey e e') :=
  inferInstanceAs (Decidable (_ ∧ _))

/-- `appendUniqueLogEntries`, of what holds an entry: it is left out if
its timestamp and content are there already. -/
def appendUnique {α : Type} (entry : α → LogEntry)
    (existing incoming : List α) : List α :=
  incoming.foldl (fun logs item =>
    if logs.any fun e => SameKey (entry e) (entry item) then logs
    else logs ++ [item]) existing

def appendUniqueLogEntries (existing incoming : List LogEntry) :
    List LogEntry := appendUnique id existing incoming

-- ======== pages

structure Page where
  logs : String
  hasMore : Bool
deriving DecidableEq, Repr

/-- `result.logs && result.logs.trim()`, as a condition. -/
def Page.hasText (page : Page) : Bool := LogView.hasText page.logs.toList

def maxLogPagesPerPoll : Nat := 5

/-- `drainLogPages`: the entries of the pages it reads. A page that is
not there is an empty one. -/
def drainLogPages (maxPages : Nat) (pages : List Page) (cursor : String)
    (entries : List LogEntry) : List LogEntry :=
  match maxPages, pages with
  | 0, _ => entries
  | _ + 1, [] => entries
  | maxPages + 1, page :: pages =>
    let pageEntries :=
      if page.hasText then parseLogLines page.logs .poll else []
    if pageEntries = [] then entries
    else
      let entries := appendUniqueLogEntries entries pageEntries
      let nextCursor := lastTimestamp pageEntries
      if nextCursor = "" ∨ nextCursor = cursor ∨ ¬ page.hasMore then
        entries
      else drainLogPages maxPages pages nextCursor entries

end LogView
