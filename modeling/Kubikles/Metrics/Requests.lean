/-
Resource quantities (frontend/src/utils/resourceQuantities.ts).

# Quantities

A quantity is a signed decimal number with a suffix, which is a unit or a
decimal exponent (`Quantity`). It stands for a rational number
(`Quantity.value`).

# Parsers

`parseCpuQuantity` reads millicores and `parseMemoryQuantity` bytes. Both
go by what a text ends with, and pass over the end of what they take for a
number. Their numbers are exact.

# Requests

What a pod requests (pkg/k8s/metrics.go and
frontend/src/utils/resourceQuantities.ts).

# Pods

A pod's containers and init containers have requests, and so may the pod
itself and what it costs to run it. An amount is a quantity in some
notation that is a whole number of millicores or of bytes (`Whole`).

# The backend

`effectivePodResourceRequest` adds up integers of 64 bits, in one pass over
the init containers.

# The frontend

`getPodResourceRequests` reads the texts of the quantities, and goes over
the containers once for both resources.
-/
import Kubikles.Lib.Decimal
import Kubikles.Lib.Peak
import Kubikles.Lib.Text
import Mathlib.Data.Rat.Floor

namespace Metrics

open Decimal

-- ======== quantities

/-- A decimal number with a sign: digits, and digits behind a point. -/
structure Number where
  sign : Option Bool
  whole : List Char
  fraction : Option (List Char)
  whole_digits : ∀ c ∈ whole, isDigit c = true
  fraction_digits : ∀ c ∈ fraction.getD [], isDigit c = true
  /-- There is a digit. -/
  ne : whole ≠ [] ∨ fraction.getD [] ≠ []

/-- The text of a sign; `some true` is a minus. -/
def signText : Option Bool → List Char
  | none => []
  | some false => ['+']
  | some true => ['-']

/-- The point and the digits behind it. -/
def fractionText : Option (List Char) → List Char
  | none => []
  | some ds => '.' :: ds

def Number.negative (n : Number) : Bool := n.sign = some true

def Number.text (n : Number) : List Char :=
  signText n.sign ++ n.whole ++ fractionText n.fraction

def Number.value (n : Number) : ℚ :=
  signed n.negative (digits (n.whole ++ n.fraction.getD [])
    / 10 ^ (n.fraction.getD []).length)

/-- It has no part behind the point. -/
def Number.Whole (n : Number) : Prop := ∀ c ∈ n.fraction.getD [], c = '0'

instance (n : Number) : Decidable n.Whole :=
  inferInstanceAs (Decidable (∀ c ∈ _, _))

/-- The suffixes: units, and an exponent behind an `e` or an `E`. -/
inductive Suffix where
  | nano
  | micro
  | milli
  | none
  | kilo
  | mega
  | giga
  | tera
  | peta
  | exa
  | kibi
  | mebi
  | gibi
  | tebi
  | pebi
  | exbi
  | exponent (upper : Bool) (sign : Option Bool) (ds : List Char)
      (ne : ds ≠ []) (ds_digits : ∀ c ∈ ds, isDigit c = true)

def Suffix.text : Suffix → List Char
  | .nano => ['n']
  | .micro => ['u']
  | .milli => ['m']
  | .none => []
  | .kilo => ['k']
  | .mega => ['M']
  | .giga => ['G']
  | .tera => ['T']
  | .peta => ['P']
  | .exa => ['E']
  | .kibi => ['K', 'i']
  | .mebi => ['M', 'i']
  | .gibi => ['G', 'i']
  | .tebi => ['T', 'i']
  | .pebi => ['P', 'i']
  | .exbi => ['E', 'i']
  | .exponent upper sign ds _ _ =>
    (if upper then 'E' else 'e') :: (signText sign ++ ds)

/-- What a number is multiplied with. -/
def Suffix.multiplier : Suffix → ℚ
  | .nano => 1 / 10 ^ 9
  | .micro => 1 / 10 ^ 6
  | .milli => 1 / 10 ^ 3
  | .none => 1
  | .kilo => 10 ^ 3
  | .mega => 10 ^ 6
  | .giga => 10 ^ 9
  | .tera => 10 ^ 12
  | .peta => 10 ^ 15
  | .exa => 10 ^ 18
  | .kibi => 1024
  | .mebi => 1024 ^ 2
  | .gibi => 1024 ^ 3
  | .tebi => 1024 ^ 4
  | .pebi => 1024 ^ 5
  | .exbi => 1024 ^ 6
  | .exponent _ sign ds _ _ =>
    10 ^ (if sign = some true then -(digits ds : Int) else digits ds)

structure Quantity where
  number : Number
  suffix : Suffix

def Quantity.text (q : Quantity) : List Char := q.number.text ++ q.suffix.text

def Quantity.value (q : Quantity) : ℚ :=
  q.number.value * q.suffix.multiplier

-- ======== parsers

/-- `q.endsWith(suffix)`. -/
def endsWith (q suffix : List Char) : Bool :=
  suffix.reverse.isPrefixOf q.reverse

/-- `Number.isFinite(value) ? value : 0`. -/
def finite (value : Option ℚ) : ℚ := value.getD 0

def parseCpuQuantity (q : List Char) : ℚ :=
  if q = [] then 0
  else if endsWith q ['n'] then finite ((parseInt q).map (· / 10 ^ 6))
  else if endsWith q ['u'] then finite ((parseInt q).map (· / 10 ^ 3))
  else if endsWith q ['m'] then finite (parseInt q)
  else finite ((parseFloat q).map (· * 1000))

/-- The units of `parseMemoryQuantity`, in the order they are tried. -/
def units : List (List Char × ℚ) :=
  [(['T', 'i'], 1024 ^ 4), (['G', 'i'], 1024 ^ 3), (['M', 'i'], 1024 ^ 2),
    (['K', 'i'], 1024), (['T'], 10 ^ 12), (['G'], 10 ^ 9), (['M'], 10 ^ 6),
    (['K'], 10 ^ 3)]

def parseMemoryQuantity (q : List Char) : ℚ :=
  if q = [] then 0
  else
    match units.find? fun unit => endsWith q unit.1 with
    | some (suffix, multiplier) =>
      finite ((parseFloat (q.take (q.length - suffix.length))).map
        (· * multiplier))
    | none => finite (parseFloat q)

-- ======== notations

def Quantity.MemoryKnown (q : Quantity) : Prop :=
  match q.suffix with
  | .none | .mega | .giga | .tera | .kibi | .mebi | .gibi | .tebi
  | .exponent .. => True
  | _ => q.number.value = 0

/-- So is an amount of CPU: nothing is behind the point of a number in
front of a unit that is smaller than one. -/
def Quantity.CpuKnown (q : Quantity) : Prop :=
  match q.suffix with
  | .nano | .micro | .milli => q.number.Whole
  | .none | .exponent .. => True
  | _ => q.number.value = 0

end Metrics

namespace Metrics

-- ======== pods

/-- An amount that is a whole number of units, so many of which are the
quantity's one. -/
structure Whole (units : ℚ) where
  quantity : Quantity
  count : ℕ
  count_eq : quantity.value * units = count

inductive ResourceName where
  | cpu
  | memory
deriving DecidableEq

/-- `ResourceList`: of CPU there are 1000 millicores. -/
structure ResourceList where
  cpu : Option (Whole 1000)
  memory : Option (Whole 1)

/-- `ResourceRequirements`. -/
structure Resources where
  requests : Option ResourceList

inductive RestartPolicy where
  | always
  | onFailure
  | never
deriving DecidableEq

structure Container where
  name : Text
  resources : Resources
  restartPolicy : Option RestartPolicy

/-- The parts of a pod's specification that requests are read from. -/
structure PodSpec where
  resources : Option Resources
  containers : List Container
  initContainers : List Container
  overhead : Option ResourceList

-- ======== backend

def add64 (a b : Int) : Int := (a + b).bmod (2 ^ 64)

/-- Away from zero to the next whole number. -/
def roundUp (x : ℚ) : Int := if 0 ≤ x then ⌈x⌉ else ⌊x⌋

def Quantity.milliValue (q : Quantity) : Int :=
  (roundUp (q.value * 1000)).bmod (2 ^ 64)

/-- `Quantity.Value`. -/
def Quantity.intValue (q : Quantity) : Int :=
  (roundUp q.value).bmod (2 ^ 64)

def resourceRequestValue (requests : Option ResourceList)
    (resourceName : ResourceName) : Int :=
  match requests with
  | none => 0
  | some requests =>
    match resourceName with
    | .cpu =>
      match requests.cpu with
      | some amount => amount.quantity.milliValue
      | none => 0
    | .memory =>
      match requests.memory with
      | some amount => amount.quantity.intValue
      | none => 0

/-- The variables of the loop over the init containers. -/
structure InitLoop where
  containerAndSidecarSum : Int
  restartableInitSum : Int
  maxInitRequest : Int

/-- The body of the loop over the init containers. -/
def initStep (resourceName : ResourceName) (s : InitLoop)
    (container : Container) : InitLoop :=
  let request :=
    resourceRequestValue container.resources.requests resourceName
  if container.restartPolicy = some .always then
    let restartableInitSum := add64 s.restartableInitSum request
    { containerAndSidecarSum := add64 s.containerAndSidecarSum request
      restartableInitSum
      maxInitRequest :=
        if restartableInitSum > s.maxInitRequest then restartableInitSum
        else s.maxInitRequest }
  else
    let request := add64 request s.restartableInitSum
    { s with
      maxInitRequest :=
        if request > s.maxInitRequest then request else s.maxInitRequest }

def podRequest (pod : PodSpec) (resourceName : ResourceName) : Int :=
  match pod.resources with
  | some resources => resourceRequestValue resources.requests resourceName
  | none => 0

def effectivePodResourceRequest (pod : PodSpec)
    (resourceName : ResourceName) : Int :=
  let podRequest := podRequest pod resourceName
  let containerAndSidecarSum := pod.containers.foldl
    (fun sum container => add64 sum
      (resourceRequestValue container.resources.requests resourceName)) 0
  let s := pod.initContainers.foldl (initStep resourceName)
    ⟨containerAndSidecarSum, 0, 0⟩
  let effectiveRequest :=
    if s.containerAndSidecarSum > podRequest then s.containerAndSidecarSum
    else podRequest
  let effectiveRequest :=
    if s.maxInitRequest > effectiveRequest then s.maxInitRequest
    else effectiveRequest
  add64 effectiveRequest (resourceRequestValue pod.overhead resourceName)

-- ======== frontend

/-- `requests?.cpu`, as it is parsed; the text of what is missing is none,
which is parsed as the empty one. -/
def cpuOf (requests : Option ResourceList) : ℚ :=
  match requests.bind ResourceList.cpu with
  | some amount => parseCpuQuantity amount.quantity.text
  | none => parseCpuQuantity []

/-- `requests?.memory`, as it is parsed. -/
def memoryOf (requests : Option ResourceList) : ℚ :=
  match requests.bind ResourceList.memory with
  | some amount => parseMemoryQuantity amount.quantity.text
  | none => parseMemoryQuantity []

structure PodRequests where
  cpuMillis : ℚ
  memBytes : ℚ
deriving DecidableEq

/-- The variables of the loops over the containers. -/
structure Loops where
  containerAndSidecarCpuMillis : ℚ
  containerAndSidecarMemBytes : ℚ
  initCpuMillis : ℚ
  initMemBytes : ℚ
  restartableInitCpuMillis : ℚ
  restartableInitMemBytes : ℚ

def containerBody (s : Loops) (container : Container) : Loops :=
  { s with
    containerAndSidecarCpuMillis := s.containerAndSidecarCpuMillis
      + cpuOf container.resources.requests
    containerAndSidecarMemBytes := s.containerAndSidecarMemBytes
      + memoryOf container.resources.requests }

def initBody (s : Loops) (container : Container) : Loops :=
  let cpuMillis := cpuOf container.resources.requests
  let memBytes := memoryOf container.resources.requests
  if container.restartPolicy = some .always then
    let restartableInitCpuMillis := s.restartableInitCpuMillis + cpuMillis
    let restartableInitMemBytes := s.restartableInitMemBytes + memBytes
    { containerAndSidecarCpuMillis :=
        s.containerAndSidecarCpuMillis + cpuMillis
      containerAndSidecarMemBytes :=
        s.containerAndSidecarMemBytes + memBytes
      initCpuMillis := max s.initCpuMillis restartableInitCpuMillis
      initMemBytes := max s.initMemBytes restartableInitMemBytes
      restartableInitCpuMillis
      restartableInitMemBytes }
  else
    { s with
      initCpuMillis :=
        max s.initCpuMillis (cpuMillis + s.restartableInitCpuMillis)
      initMemBytes :=
        max s.initMemBytes (memBytes + s.restartableInitMemBytes) }

def getPodResourceRequests (pod : PodSpec) : PodRequests :=
  let podCpuMillis := cpuOf (pod.resources.bind Resources.requests)
  let podMemBytes := memoryOf (pod.resources.bind Resources.requests)
  let s := pod.initContainers.foldl initBody
    (pod.containers.foldl containerBody ⟨0, 0, 0, 0, 0, 0⟩)
  { cpuMillis :=
      max (max podCpuMillis s.containerAndSidecarCpuMillis) s.initCpuMillis
        + cpuOf pod.overhead
    memBytes :=
      max (max podMemBytes s.containerAndSidecarMemBytes) s.initMemBytes
        + memoryOf pod.overhead }

-- ======== scheduler

/-- How many millicores or bytes are asked for. -/
def countOf (requests : Option ResourceList)
    (resourceName : ResourceName) : ℕ :=
  match resourceName with
  | .cpu => ((requests.bind ResourceList.cpu).map Whole.count).getD 0
  | .memory => ((requests.bind ResourceList.memory).map Whole.count).getD 0

/-- An init container is a task; one that is restartable goes on. -/
def taskOf {α : Type} (request : Option ResourceList → α)
    (container : Container) : Peak.Task α where
  goesOn := container.restartPolicy = some .always
  amount := request container.resources.requests

/-- What a pod needs, as it is scheduled: what it costs to run it, and the
largest of what it asks for itself, what its containers and restartable
init containers ask for, and what an init container asks for with those
restartable ones before it. -/
def needs {α : Type} [AddCommMonoid α] [LinearOrder α]
    (request : Option ResourceList → α) (pod : PodSpec) : α :=
  Peak.required (request (pod.resources.bind Resources.requests))
    (request pod.overhead)
    (pod.containers.map fun c => request c.resources.requests)
    (pod.initContainers.map (taskOf request))

def scheduled (pod : PodSpec) (resourceName : ResourceName) : ℕ :=
  needs (countOf · resourceName) pod

-- ======== notation

def PodSpec.requests (pod : PodSpec) : List (Option ResourceList) :=
  pod.resources.bind Resources.requests :: pod.overhead
    :: (pod.containers ++ pod.initContainers).map fun c =>
      c.resources.requests

/-- The requests are in notations that the frontend reads. -/
structure Known (requests : Option ResourceList) : Prop where
  cpu : ∀ amount ∈ requests.bind ResourceList.cpu,
    amount.quantity.CpuKnown
  memory : ∀ amount ∈ requests.bind ResourceList.memory,
    amount.quantity.MemoryKnown

end Metrics
