/-
The upgrade of a Helm release (`client.go`).

# Releases

The records of a release are its revisions, oldest first, each with the
values it was installed with. An action of Helm may fail before it took
effect on the records or after it; how it ends is part of the run. What
the actions do is as Helm documents it: a name that has records cannot be
installed, an uninstallation without history removes all of them, an
upgrade adds a revision.

# Upgrades

`upgradeRelease` upgrades a release that is deployed. One that is pending
or failed is uninstalled and installed anew, with values that are put
together here (`replaceValues`); Helm puts together those of an upgrade
(`upgradeValues`).
-/
import Kubikles.Lib.Merge

namespace Helm

-- ======== releases

/-- `release.Status`. -/
inductive Status where
  | unknown
  | deployed
  | uninstalled
  | superseded
  | failed
  | uninstalling
  | pendingInstall
  | pendingUpgrade
  | pendingRollback
  deriving DecidableEq

def Status.isPending (s : Status) : Bool :=
  s = .pendingInstall || s = .pendingUpgrade || s = .pendingRollback

/-- A map of values, of which no two members have one key. -/
abbrev Values := List (String × Doc)

/-- A revision of a release; its values may be a map that is nil. -/
structure Revision where
  version : Nat
  status : Status
  config : Option Values

/-- The revisions of a release, oldest first. -/
abbrev History := List Revision

/-- The records that a cluster stores of its releases. -/
abbrev Cluster := String → History

/-- The records with those of one release replaced. -/
def Cluster.set (cluster : Cluster) (name : String) (h : History) :
    Cluster :=
  fun n => if n = name then h else cluster n

-- ======== actions

/-- How an action ends: where it fails after it took effect, it leaves its
revision pending or marks it as failed. -/
inductive Ending where
  | succeeds
  | failsBefore (message : String)
  | failsAfter (message : String) (pending : Bool)

/-- `action.Get`: the last revision. -/
def getRelease (failure : Option String) (h : History) :
    Except String Revision :=
  match failure with
  | some message => .error message
  | none =>
    match h.getLast? with
    | none => .error "release: not found"
    | some r => .ok r

/-- `action.Uninstall` without history. -/
def uninstall (ending : Ending) (h : History) :
    History × Except String Unit :=
  if h = [] then (h, .error "uninstall: Release not loaded") else
  match ending with
  | .succeeds => ([], .ok ())
  | .failsBefore message => (h, .error message)
  | .failsAfter message _ => ([], .error message)

/-- `action.Install`. -/
def install (ending : Ending) (values : Option Values) (h : History) :
    History × Except String Unit :=
  if h ≠ [] then
    (h, .error "cannot re-use a name that is still in use")
  else
  match ending with
  | .succeeds => ([⟨1, .deployed, values⟩], .ok ())
  | .failsBefore message => (h, .error message)
  | .failsAfter message pending =>
    ([⟨1, if pending then .pendingInstall else .failed, values⟩],
      .error message)

/-- The values of an upgrade with `ReuseValues` and `ResetValues`: the
given ones, merged over the stored ones where these are to be reused. -/
def upgradeValues (reuseValues resetValues : Bool) (given : Values)
    (stored : Option Values) : Values :=
  if resetValues then given
  else if reuseValues then Doc.mergeMembers given (stored.getD [])
  else if given = [] then stored.getD []
  else given

/-- The revision an upgrade starts from: the last one if it is deployed,
or else the last deployed one, or else the last one if it failed or was
superseded. -/
def currentRelease (h : History) (last : Revision) : Option Revision :=
  if last.status = .deployed then some last
  else
    match h.reverse.find? fun r => r.status = .deployed with
    | some r => some r
    | none =>
      if last.status = .failed ∨ last.status = .superseded then some last
      else none

/-- A revision that another one takes the place of. -/
def Revision.supersede (r : Revision) : Revision :=
  if r.status = .deployed then { r with status := .superseded } else r

/-- `action.Upgrade`. -/
def upgrade (ending : Ending) (reuseValues resetValues : Bool)
    (given : Values) (h : History) : History × Except String Unit :=
  match h.getLast? with
  | none => (h, .error "has no deployed releases")
  | some last =>
    if last.status.isPending then
      (h, .error "another operation is in progress")
    else
      match currentRelease h last with
      | none => (h, .error "has no deployed releases")
      | some current =>
        let values :=
          upgradeValues reuseValues resetValues given current.config
        match ending with
        | .succeeds =>
          (h.map Revision.supersede
            ++ [⟨last.version + 1, .deployed, some values⟩], .ok ())
        | .failsBefore message => (h, .error message)
        | .failsAfter message pending =>
          (h ++ [⟨last.version + 1,
            if pending then .pendingUpgrade else .failed,
            some values⟩], .error message)

-- ======== upgrades

/-- `UpgradeOptions`; `values` may be a map that is nil. -/
structure UpgradeOptions where
  repoName : String := ""
  repoURL : String := ""
  chartName : String := ""
  version : String := ""
  values : Option Values := none
  reuseValues : Bool := false
  resetValues : Bool := false
  isOCI : Bool := false
  ociRepository : String := ""

/-- What `upgradeRelease` does before it asks for the release: the
configuration of the actions, the chart's place and the chart. -/
structure Charts where
  getActionConfig : Except String Unit
  locateOCIChart : String → String → String → Except String String
  locateChart : String → String → Except String String
  load : String → Except String Unit

/-- How the actions of a run end. -/
structure Endings where
  get : Option String
  uninstall : Ending
  install : Ending
  upgrade : Ending

/-- How a call ends: it returns, with an error or without, or panics. -/
inductive Result where
  | returned (error : Option String)
  | panicked (message : String)

/-- Whether a release is stuck, that is to be replaced. -/
def needsReplace (status : Status) : Bool :=
  status = .pendingInstall || status = .pendingUpgrade
    || status = .pendingRollback || status = .failed

def nilMap : String := "assignment to entry in nil map"

/-- The members of a map, assigned one by one to another. -/
def assignAll (values : Values) :
    Option Values → Except String (Option Values)
  | none => if values = [] then .ok none else .error nilMap
  | some existing => .ok (some (Doc.overlay values existing))

/-- The given values; a map that is nil is made anew. -/
def UpgradeOptions.given (opts : UpgradeOptions) : Values :=
  opts.values.getD []

/-- The values that the replace path installs a release with. -/
def replaceValues (opts : UpgradeOptions) (stored : Option Values) :
    Except String (Option Values) :=
  if opts.reuseValues then assignAll opts.given stored
  else .ok (some opts.given)

/-- `UpgradeRelease`, up to the release: the chart is there, or the error. -/
def prepare (charts : Charts) (opts : UpgradeOptions) :
    Except String Unit := do
  charts.getActionConfig
  let located :=
    if opts.isOCI then
      charts.locateOCIChart opts.repoURL opts.ociRepository opts.version
    else
      charts.locateChart (opts.repoName ++ "/" ++ opts.chartName)
        opts.version
  match located with
  | .error e => .error ("failed to locate chart: " ++ e)
  | .ok chartPath =>
    match charts.load chartPath with
    | .error e => .error ("failed to load chart: " ++ e)
    | .ok () => .ok ()

/-- The result of a last action, whose error is wrapped. -/
def wrapped (what : String) : Except String Unit → Result
  | .error e => .returned (some (what ++ e))
  | .ok () => .returned none

/-- The replace path: uninstall, whatever comes of it, and install. -/
def replaceRelease (endings : Endings) (opts : UpgradeOptions)
    (existing : Revision) (h : History) : History × Result :=
  match replaceValues opts existing.config with
  | .error message => (h, .panicked message)
  | .ok values =>
    let uninstalled := uninstall endings.uninstall h
    let installed := install endings.install values uninstalled.1
    (installed.1,
      wrapped "failed to reinstall release: " installed.2)

def normalUpgrade (endings : Endings) (opts : UpgradeOptions)
    (h : History) : History × Result :=
  let upgraded :=
    upgrade endings.upgrade opts.reuseValues opts.resetValues opts.given h
  (upgraded.1, wrapped "failed to upgrade release: " upgraded.2)

def upgradeRecords (endings : Endings) (opts : UpgradeOptions)
    (h : History) : History × Result :=
  match getRelease endings.get h with
  | .error _ => normalUpgrade endings opts h
  | .ok existing =>
    if needsReplace existing.status then
      replaceRelease endings opts existing h
    else normalUpgrade endings opts h

def upgradeRelease (charts : Charts) (endings : Endings)
    (opts : UpgradeOptions) (name : String) (cluster : Cluster) :
    Cluster × Result :=
  match prepare charts opts with
  | .error e => (cluster, .returned (some e))
  | .ok () =>
    let upgraded := upgradeRecords endings opts (cluster name)
    (cluster.set name upgraded.1, upgraded.2)

end Helm
