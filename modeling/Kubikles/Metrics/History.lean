/-
The pods of a controller in the metrics' history (prometheus_history.go).

# Names

A controller has a name that is a DNS-1123 subdomain. The pods that it
creates are named after it: those of a deployment have the hash of its
replica set and a suffix behind its name, others a suffix or an ordinal.

# Patterns

The queries of the history select pods by a pattern that is made of the
controller's name and type (`podRegex`), which has to match the name of
the pod in full (`podMatches`).
-/
import Kubikles.Lib.Regex

namespace History

-- ======== names

/-- A lower-case letter or a digit. -/
def isAlnum (c : Char) : Bool :=
  (decide ('a' ≤ c) && decide (c ≤ 'z'))
    || (decide ('0' ≤ c) && decide (c ≤ '9'))

def isNameChar (c : Char) : Bool := isAlnum c || c = '-' || c = '.'

/-- A label begins and ends with a letter or a digit. -/
def isLabel (l : List Char) : Bool :=
  l.head?.any isAlnum && l.getLast?.any isAlnum

/-- A DNS-1123 subdomain: labels of letters, digits and dashes, with dots
between them. -/
def isSubdomain (name : List Char) : Bool :=
  name.all isNameChar
    && ((name.splitOn '.').all isLabel && decide (name.length ≤ 253))

structure Name where
  value : String
  subdomain : isSubdomain value.toList = true

/-- A suffix that is made up for a name. -/
structure Suffix where
  value : String
  ne : value.toList ≠ []
  alnum : ∀ c ∈ value.toList, isAlnum c = true

-- ======== controllers

inductive Kind where
  | deployment
  | statefulSet
  | daemonSet
  | replicaSet
  deriving DecidableEq

structure Controller where
  kind : Kind
  name : Name

inductive Pod where
  | deployment (name : Name) (hash suffix : Suffix)
  | statefulSet (name : Name) (ordinal : Nat)
  | daemonSet (name : Name) (suffix : Suffix)
  | replicaSet (name : Name) (suffix : Suffix)

/-- What the last part of a pod's name is put behind. -/
def Pod.base : Pod → String
  | .deployment name hash _ => name.value ++ "-" ++ hash.value
  | .statefulSet name _ => name.value
  | .daemonSet name _ => name.value
  | .replicaSet name _ => name.value

/-- The last part of a pod's name. -/
def Pod.ending : Pod → String
  | .deployment _ _ suffix => suffix.value
  | .statefulSet _ ordinal => toString ordinal
  | .daemonSet _ suffix => suffix.value
  | .replicaSet _ suffix => suffix.value

def Pod.name (p : Pod) : String := p.base ++ "-" ++ p.ending

/-- The pod belongs to the controller; one of a deployment belongs to its
replica set as well. -/
def Pod.BelongsTo (p : Pod) (c : Controller) : Prop :=
  match p, c.kind with
  | .deployment name _ _, .deployment => c.name.value = name.value
  | .deployment .., .replicaSet => c.name.value = p.base
  | .statefulSet name _, .statefulSet => c.name.value = name.value
  | .daemonSet name _, .daemonSet => c.name.value = name.value
  | .replicaSet name _, .replicaSet => c.name.value = name.value
  | _, _ => False

/-- What is in a namespace: a pod has its controllers in it. -/
structure Namespace where
  controllers : List Controller
  pods : List Pod
  owned : ∀ p ∈ pods, ∃ c ∈ controllers, p.BelongsTo c

-- ======== patterns

def Kind.type : Kind → String
  | .deployment => "deployment"
  | .statefulSet => "statefulset"
  | .daemonSet => "daemonset"
  | .replicaSet => "replicaset"

/-- The `podRegex` of `GetControllerMetricsHistoryWithContext`. -/
def podRegex (controllerType name : String) : String :=
  if controllerType = "deployment" then
    name ++ "-[a-z0-9]+-[a-z0-9]+"
  else if controllerType = "statefulset" then
    name ++ "-[0-9]+"
  else if controllerType = "daemonset" ∨ controllerType = "replicaset" then
    name ++ "-[a-z0-9]+"
  else name ++ "-.*"

/-- `pod=~"…"`: the pattern matches the pod's name in full. -/
def podMatches (regex name : String) : Bool :=
  match Regex.parse regex.toList with
  | none => false
  | some pattern => Regex.matchAll pattern name.toList

end History
