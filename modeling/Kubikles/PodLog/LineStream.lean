/-
Streaming the log of a container (pkg/k8s/podlogs.go, `StreamPodLogs`).

# Turns

The loop opens a stream, hands its lines to `onLine` and, if the stream
ends with an error, opens another. A `Turn` is what one time around the
loop finds: a context that is done, a stream that does not open, or the
bytes of a stream and how they end. The context is asked again at every
line and behind the last; a turn says how many times it is asked before
it is found done.

# Lines

A stream is read with `bufio.Scanner`. Its tokens are the lines without
their ends; a piece that no newline follows is a token too, be it that
the stream has ended or that it has broken; and a piece that fills the
buffer ends the scan with an error.

# The server

What a server sends is what it is asked for (`served`). A broken stream
delivers any number of bytes of it.
-/
import Kubikles.Lib.Machine
import Kubikles.Lib.Scanner
import Kubikles.PodLog.Paging

namespace StreamPodLogs

open PodLog
open Machine (Step)
open Rfc3339 (Time)

-- ======== the scanner

/-- The size of the scanner's buffer. -/
def maxTokenSize : Nat := 1024 * 1024

/-- `bufio.ErrTooLong`. -/
def tooLong : LogError := .other (Text.ofString
  "bufio.Scanner: token too long")

/-- The tokens of a stream and `scanner.Err()`. -/
def scan (body : Body) : List Text × Option LogError :=
  let (tokens, long) :=
    Scanner.scanPieces maxTokenSize (Text.split body.bytes)
  (tokens, if long then some tooLong else body.err)

-- ======== the loop

inductive StreamError where
  /-- `ctx.Err()`. -/
  | canceled
  | open (err : LogError)
  /-- `log stream failed after 5 consecutive reconnect attempts`. -/
  | failed (err : LogError)
deriving DecidableEq

/-- What one time around the loop finds. -/
inductive Turn where
  | done
  | openError (err : LogError) (done : Bool)
  | stream (body : Body) (done : Option Nat)
deriving DecidableEq

/-- The variables of the loop, and what is returned. -/
structure Loop where
  lastTimestamp : Text := []
  consecutiveFailures : Nat := 0
  firstConnect : Bool := true
  returned : Option (Option StreamError) := none
deriving DecidableEq

/-- A call of `onLine`: the line, and the token it is made of. -/
structure Call where
  token : Text
  line : Text
deriving DecidableEq

def maxConsecutiveFailures : Nat := 5

/-- The request of a turn. -/
def Loop.options (s : Loop) (containerName : Text) (tailLines : Int) :
    PodLogOptions where
  container := containerName
  follow := true
  timestamps := true
  tailLines :=
    if s.firstConnect ∧ 0 < tailLines then some tailLines else none
  sinceTime :=
    if ¬ s.firstConnect ∧ s.lastTimestamp ≠ [] then
      (Rfc3339.parse s.lastTimestamp).map Time.next
    else none

def call (timestamps : Bool) (token : Text) : Call :=
  ⟨token, if timestamps then token else stripTimestamp token⟩

/-- The timestamp to go on from, behind some tokens. -/
def afterTokens (lastTimestamp : Text) (tokens : List Text) : Text :=
  tokens.foldl
    (fun last line => if 30 ≤ line.length then line.take 30 else last)
    lastTimestamp

def Loop.return (s : Loop) (err : Option StreamError) : Loop :=
  { s with returned := some err }

/-- Behind the last token of a stream. -/
def Loop.scanned (s : Loop) (linesReceived : Nat)
    (scanErr : Option LogError) (done : Option Nat) : Loop :=
  match scanErr with
  | none => s.return none
  | some err =>
    if done = some linesReceived then s.return (some .canceled)
    else
      let s := { s with consecutiveFailures :=
        if 0 < linesReceived then 0 else s.consecutiveFailures + 1 }
      if maxConsecutiveFailures ≤ s.consecutiveFailures then
        s.return (some (.failed err))
      else if done.isSome then s.return (some .canceled)
      else s

def Loop.turn (timestamps : Bool) (s : Loop) : Turn → Loop × List Call
  | .done => (s.return (some .canceled), [])
  | .openError err done =>
    (s.return (some (if done then .canceled else .open err)), [])
  | .stream body done =>
    let (tokens, scanErr) := scan body
    let received := tokens.take (done.getD tokens.length)
    let s := { s with
      firstConnect := false
      lastTimestamp := afterTokens s.lastTimestamp received }
    (if received.length < tokens.length then s.return (some .canceled)
      else s.scanned tokens.length scanErr done,
      received.map (call timestamps))

/-- The loop goes around as long as nothing is returned. -/
def streamPodLogs (timestamps : Bool) : Step Loop Turn Call :=
  fun turn s =>
    if s.returned.isSome then none else some (s.turn timestamps turn)

-- ======== the server

/-- The lines of a log that a request asks for, when so many of them have
been written. -/
def served (log : List LogLine) (written : Nat) (options : PodLogOptions) :
    List LogLine :=
  match options.sinceTime, options.tailLines with
  | some s, _ => since log s.instant
  | none, some n => log.drop (written - n.toNat)
  | none, none => log

/-- What a server sends: all of it, or a part of it and then an error. -/
def Sends (log : List LogLine) (options : PodLogOptions) (body : Body) :
    Prop :=
  ∃ written ≤ log.length, (body = ⟨Text.unlines ((served log written options).map
      LogLine.text), none⟩
    ∨ ∃ n err, body = ⟨(Text.unlines ((served log written options).map
      LogLine.text)).take n, some err⟩)

/-- A turn that the server plays its part in. -/
def Turn.From (log : List LogLine) (containerName : Text) (tailLines : Int)
    (s : Loop) : Turn → Prop
  | .stream body _ => Sends log (s.options containerName tailLines) body
  | _ => True

end StreamPodLogs
