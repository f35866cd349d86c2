/-
The hosts file and the redirects that go with it (pkg/hosts/hosts.go and,
for Linux, pkg/hosts/hosts_linux.go).

# What is written to

A `Host` is the content of `/etc/hosts` and the rules of the OUTPUT chain
of the nat table, each by the port it redirects from and the port it
redirects to. A chain may hold a rule more than once; deleting a rule
takes one of them.

# Environment

What the system answers (`Env`): whether the file can be read, a
temporary file written and copied, whether there is an `iptables` and
whether it takes a rule. Its texts are the errors of those calls. A
command that fails changes nothing.
-/
import Kubikles.Lib.Words
import Mathlib.Data.Multiset.AddSub

namespace Hosts

open Text (newline space trimSpace fields)

-- ======== entries

structure Entry where
  ip : Text
  hostname : Text
deriving DecidableEq

def beginMarker : Text := Text.ofString "# BEGIN kubikles-managed"

def endMarker : Text := Text.ofString "# END kubikles-managed"

/-- `'#'`. -/
def hash : UInt8 := 35

/-- `bufio.MaxScanTokenSize`. -/
def maxScanTokenSize : Nat := 64 * 1024

/-- The lines a `bufio.Scanner` reads. -/
def lines (content : Text) : List Text :=
  (Scanner.scanPieces maxScanTokenSize (Text.split content)).1

/-- The loop of `parseManagedEntries`, from a line on. -/
def parseLines (inManagedBlock : Bool) : List Text → List Entry
  | [] => []
  | token :: rest =>
    let line := trimSpace token
    if beginMarker.isPrefixOf line then parseLines true rest
    else if endMarker.isPrefixOf line then parseLines false rest
    else if inManagedBlock ∧ line ≠ [] ∧ line.head? ≠ some hash then
      match fields line with
      | ip :: hostname :: _ =>
        ⟨ip, hostname⟩ :: parseLines inManagedBlock rest
      | _ => parseLines inManagedBlock rest
    else parseLines inManagedBlock rest

def parseManagedEntries (content : Text) : List Entry :=
  parseLines false (lines content)

def Entry.line (e : Entry) : Text := e.ip ++ space :: e.hostname

def buildEntriesContent (entries : List Entry) : Text :=
  if entries = [] then []
  else Text.unlines
    ([] :: beginMarker :: entries.map Entry.line ++ [endMarker])

/-- The loop of `removeExistingManagedBlock`, from a line on: the lines
that are kept. -/
def keptLines (inManagedBlock : Bool) : List Text → List Text
  | [] => []
  | line :: rest =>
    let trimmed := trimSpace line
    if beginMarker.isPrefixOf trimmed then keptLines true rest
    else if endMarker.isPrefixOf trimmed then keptLines false rest
    else if inManagedBlock then keptLines inManagedBlock rest
    else line :: keptLines inManagedBlock rest

def removeExistingManagedBlock (content : Text) : Text :=
  let result := Text.unlines (keptLines false (lines content))
  let resultStr := result.rdropWhile (· = newline)
  if resultStr ≠ [] then resultStr ++ [newline] else resultStr

-- ======== validation

/-- The errors of `ValidateHostname`. -/
inductive NameError where
  /-- `hostname cannot be empty`. -/
  | empty
  /-- `hostname exceeds maximum length of 253 characters`. -/
  | tooLong
  /-- `hostname contains invalid characters: …`. -/
  | invalidCharacters (hostname : Text)
deriving DecidableEq

/-- `[a-zA-Z0-9]`. -/
def alphanumeric (b : UInt8) : Bool :=
  (48 ≤ b && b ≤ 57) || (65 ≤ b && b ≤ 90) || (97 ≤ b && b ≤ 122)

/-- `'-'`. -/
def hyphen : UInt8 := 45

/-- `'.'`. -/
def dot : UInt8 := 46

/-- `[a-zA-Z0-9]([a-zA-Z0-9-]{0,61}[a-zA-Z0-9])?`. -/
def isLabel (l : Text) : Bool :=
  l.head?.any alphanumeric && l.getLast?.any alphanumeric
    && l.all (fun b => alphanumeric b || b == hyphen) && l.length ≤ 63

def hostnameRegex (hostname : Text) : Bool :=
  (hostname.splitOn dot).all isLabel

def validateHostname (hostname : Text) : Option NameError :=
  if hostname = [] then some .empty
  else if 253 < hostname.length then some .tooLong
  else if ¬ hostnameRegex hostname then some (.invalidCharacters hostname)
  else none

def validateEntries (entries : List Entry) : Option NameError :=
  entries.findSome? fun e => validateHostname e.hostname

-- ======== the host

inductive HostsError where
  /-- `invalid hostname: …`. -/
  | invalidHostname (err : NameError)
  /-- `failed to read hosts file: …`. -/
  | readHosts (err : String)
  /-- `failed to create temp file: …`. -/
  | createTemp (err : String)
  /-- `failed to write temp file: …`. -/
  | writeTemp (err : String)
  /-- `failed to update hosts file (privilege escalation may have been
  cancelled): …`. -/
  | updateHosts (err : String)
deriving DecidableEq

/-- The hosts file, and the redirects of the OUTPUT chain. -/
structure Host where
  content : Text
  chain : Multiset (Int × Int)
deriving DecidableEq

/-- What the system answers. -/
structure Env where
  readErr : Option String := none
  createErr : Option String := none
  writeErr : Option String := none
  cpErr : Option String := none
  iptables : Bool := true
  /-- Is the rule for redirects from this port taken? -/
  takesRule : Int → Bool := fun _ => true

/-- `GetManagedEntries`, of a file that can be read. -/
def Host.managed (h : Host) : List Entry := parseManagedEntries h.content

/-- Write a temporary file and copy it to `/etc/hosts`. -/
def Host.write (env : Env) (newContent : Text) (h : Host) :
    Host × Option HostsError :=
  match env.createErr, env.writeErr, env.cpErr with
  | some err, _, _ => (h, some (.createTemp err))
  | none, some err, _ => (h, some (.writeTemp err))
  | none, none, some err => (h, some (.updateHosts err))
  | none, none, none => ({ h with content := newContent }, none)

/-- `setupIptablesRedirect`, whose error is printed. -/
def Host.setupIptablesRedirect (env : Env) (fromPort toPort : Int)
    (h : Host) : Host :=
  if env.iptables ∧ env.takesRule fromPort then
    { h with chain := (fromPort, toPort) ::ₘ h.chain }
  else h

/-- `removeIptablesRedirect`, whose error is ignored: the rule might not
exist. -/
def Host.removeIptablesRedirect (env : Env) (fromPort toPort : Int)
    (h : Host) : Host :=
  if env.iptables ∧ env.takesRule fromPort then
    { h with chain := h.chain.erase (fromPort, toPort) }
  else h

/-- The end of `AddEntriesWithPortRedirect`. -/
def Host.redirect (env : Env) (httpsPort httpPort : Int) (h : Host) :
    Host :=
  let h := if 0 < httpsPort ∧ httpsPort ≠ 443 then
      h.setupIptablesRedirect env 443 httpsPort else h
  if 0 < httpPort ∧ httpPort ≠ 80 then
    h.setupIptablesRedirect env 80 httpPort else h

def Host.addEntriesWithPortRedirect (env : Env) (entries : List Entry)
    (httpsPort httpPort : Int) (h : Host) : Host × Option HostsError :=
  if entries = [] then (h, none)
  else
    match validateEntries entries, env.readErr with
    | some err, _ => (h, some (.invalidHostname err))
    | none, some err => (h, some (.readHosts err))
    | none, none =>
      match h.write env (removeExistingManagedBlock h.content
          ++ buildEntriesContent entries) with
      | (h, some err) => (h, some err)
      | (h, none) => (h.redirect env httpsPort httpPort, none)

def Host.addEntries (env : Env) (entries : List Entry) (h : Host) :
    Host × Option HostsError :=
  h.addEntriesWithPortRedirect env entries 0 0

def Host.removeEntriesWithPortRedirect (env : Env) (h : Host) :
    Host × Option HostsError :=
  match env.readErr with
  | some err => (h, some (.readHosts err))
  | none =>
    let cleanedContent := removeExistingManagedBlock h.content
    let h := h.removeIptablesRedirect env 443 8443
    let h := h.removeIptablesRedirect env 80 8080
    if h.content = cleanedContent then (h, none)
    else h.write env cleanedContent

def Host.removeEntries (env : Env) (h : Host) : Host × Option HostsError :=
  h.removeEntriesWithPortRedirect env

end Hosts
