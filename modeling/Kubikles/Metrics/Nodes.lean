/-
What the nodes of a cluster have to give, have promised and use
(pkg/k8s/metrics.go).

# Two sources

`GetNodeMetrics` takes usage from the metrics-server, container by
container, and `GetNodeMetricsFromPrometheus` from six queries. Both are
modelled from the lists on that they have fetched; a source without any
usage of a node is not available (`none`). Sums over pods are not cut to 64
bits, and the numbers of Prometheus are exact.

# What the sources are fed with

A pod's containers, restartable init containers and ephemeral containers
use what they use (`Usage`). The metrics-server tells it of each, and
Prometheus their sum (`podMetrics`, `podSamples`).
-/
import Kubikles.Lib.Doc
import Kubikles.Metrics.Requests

namespace Metrics

-- ======== cluster

inductive Phase where
  | pending
  | running
  | succeeded
  | failed
  | unknown
deriving DecidableEq

structure Pod where
  ns : Text
  name : Text
  nodeName : Text
  phase : Phase
  spec : PodSpec
  /-- The names of its ephemeral containers. -/
  ephemeralContainers : List Text

structure Node where
  name : Text
  cpu : Int
  memory : Int
  pods : Int

structure NodeMetrics where
  name : Text
  cpuUsage : Int
  memoryUsage : Int
  cpuCapacity : Int
  memCapacity : Int
  cpuRequested : Int
  memRequested : Int
  cpuCommitted : Int
  memCommitted : Int
  podCount : Int
  podCapacity : Int
deriving DecidableEq

/-- Millicores and bytes. -/
structure Amounts where
  cpu : Int
  memory : Int
deriving DecidableEq

def effectivePodRequests (pod : PodSpec) : Amounts where
  cpu := effectivePodResourceRequest pod .cpu
  memory := effectivePodResourceRequest pod .memory

def isScheduledNonTerminalPod (pod : Pod) : Bool :=
  pod.nodeName ≠ [] && pod.phase ≠ .succeeded && pod.phase ≠ .failed

/-- The capacities by the names of the nodes. -/
def capacityMap (nodes : List Node) : List (Text × Node) :=
  nodes.foldl (fun m node => Assoc.put node.name node m) []

/-- What a map gives of a node that it does not have. -/
def noCapacity : Node := ⟨[], 0, 0, 0⟩

/-- `'/'`. -/
def slash : UInt8 := 47

structure NodeResources where
  requestedCPU : Int
  requestedMem : Int
  committedCPU : Int
  committedMem : Int
  podCount : Int
deriving DecidableEq

def NodeResources.zero : NodeResources := ⟨0, 0, 0, 0, 0⟩

/-- A pod's requests are added. -/
def NodeResources.request (req : Amounts) (r : NodeResources) :
    NodeResources :=
  { r with
    requestedCPU := r.requestedCPU + req.cpu
    requestedMem := r.requestedMem + req.memory
    podCount := r.podCount + 1 }

/-- The larger of what a pod uses and what it requests is added. -/
def NodeResources.commit (usage req : Amounts) (r : NodeResources) :
    NodeResources :=
  { r with
    committedCPU := r.committedCPU
      + (if usage.cpu > req.cpu then usage.cpu else req.cpu)
    committedMem := r.committedMem
      + (if usage.memory > req.memory then usage.memory
        else req.memory) }

/-- The entry of a pod's node is changed, if the pod counts. -/
def change (f : NodeResources → NodeResources)
    (m : List (Text × NodeResources)) (pod : Pod) :
    List (Text × NodeResources) :=
  if isScheduledNonTerminalPod pod then
    Assoc.put pod.nodeName
      (f ((Assoc.find pod.nodeName m).getD .zero)) m
  else m

-- ======== metrics-server

/-- What the metrics-server tells of a container, and of a node. -/
structure Measured where
  name : Text
  usage : Amounts

structure PodMetrics where
  ns : Text
  name : Text
  containers : List Measured

def containerUsageMap (podMetricsList : Option (List PodMetrics)) :
    List (Text × Amounts) :=
  ((podMetricsList.getD []).flatMap fun pm => pm.containers.map fun cm =>
      (pm.ns ++ slash :: (pm.name ++ slash :: cm.name), cm.usage)).foldl
    (fun m e => Assoc.put e.1 e.2 m) []

/-- The usage of a pod: the sum of those of its containers that there is
one of. -/
def podUsage (usageMap : List (Text × Amounts)) (pod : Pod) : Amounts :=
  pod.spec.containers.foldl (fun sum container =>
    match Assoc.find
        (pod.ns ++ slash :: (pod.name ++ slash :: container.name))
        usageMap with
    | some usage => ⟨sum.cpu + usage.cpu, sum.memory + usage.memory⟩
    | none => sum) ⟨0, 0⟩

/-- The body of the loop over the pods. -/
def resourcesStep (usageMap : List (Text × Amounts))
    (resourcesMap : List (Text × NodeResources)) (pod : Pod) :
    List (Text × NodeResources) :=
  let req := effectivePodRequests pod.spec
  let usage := podUsage usageMap pod
  change (fun res => (res.request req).commit usage req) resourcesMap pod

def getNodeMetrics (nodeMetricsList : List Measured) (nodes : List Node)
    (pods : List Pod) (podMetricsList : Option (List PodMetrics)) :
    Option (List NodeMetrics) :=
  if nodeMetricsList = [] then none
  else
    let usageMap := containerUsageMap podMetricsList
    let resourcesMap := pods.foldl (resourcesStep usageMap) []
    some (nodeMetricsList.map fun nm =>
      let capacity := (Assoc.find nm.name (capacityMap nodes)).getD noCapacity
      let res := (Assoc.find nm.name resourcesMap).getD .zero
      { name := nm.name
        cpuUsage := nm.usage.cpu
        memoryUsage := nm.usage.memory
        cpuCapacity := capacity.cpu
        memCapacity := capacity.memory
        cpuRequested := res.requestedCPU
        memRequested := res.requestedMem
        cpuCommitted :=
          if nm.usage.cpu > res.committedCPU then nm.usage.cpu
          else res.committedCPU
        memCommitted :=
          if nm.usage.memory > res.committedMem then nm.usage.memory
          else res.committedMem
        podCount := res.podCount
        podCapacity := capacity.pods })

-- ======== Prometheus

/-- A sample of a query: its labels, and the number that its value is read
as. -/
structure Sample where
  metric : List (Text × Text)
  value : Option ℚ

/-- The queries' results; a query that fails has none. -/
structure Queries where
  nodeExporterCpu : Option (List Sample)
  nodeExporterMem : Option (List Sample)
  containerCpu : Option (List Sample)
  containerMem : Option (List Sample)
  podCpu : Option (List Sample)
  podMem : Option (List Sample)

/-- `"nodename"`, `"node"`, `"namespace"` and `"pod"`. -/
def nodenameLabel : Text := [110, 111, 100, 101, 110, 97, 109, 101]
def nodeLabel : Text := [110, 111, 100, 101]
def namespaceLabel : Text := [110, 97, 109, 101, 115, 112, 97, 99, 101]
def podLabel : Text := [112, 111, 100]

def extractValues (toLower : Text → Text) (result : Option (List Sample))
    (labelKey : Text) : List (Text × ℚ) :=
  (result.getD []).foldl (fun values r =>
    match Assoc.find labelKey r.metric, r.value with
    | some node, some val => Assoc.put (toLower node) val values
    | _, _ => values) []

def mergeUsage (preferred fallback : List (Text × ℚ)) : List (Text × ℚ) :=
  preferred.foldl (fun merged e => Assoc.put e.1 e.2 merged) fallback

def extractPodValues (result : Option (List Sample)) : List (Text × ℚ) :=
  (result.getD []).foldl (fun values r =>
    match Assoc.find namespaceLabel r.metric, Assoc.find podLabel r.metric,
        r.value with
    | some ns, some pod, some val =>
      Assoc.put (ns ++ slash :: pod) val values
    | _, _, _ => values) []

/-- `int64` of a number: what is behind its point is dropped. -/
def toInt (x : ℚ) : Int := if 0 ≤ x then ⌊x⌋ else ⌈x⌉

/-- The body of the loop over the pods that adds up requests. -/
def requestsStep (requestsMap : List (Text × NodeResources)) (pod : Pod) :
    List (Text × NodeResources) :=
  let req := effectivePodRequests pod.spec
  change (fun requests => requests.request req) requestsMap pod

/-- The usage of a pod, in whole millicores and bytes. -/
def prometheusUsage (podCPUUsage podMemUsage : List (Text × ℚ))
    (pod : Pod) : Amounts :=
  let key := pod.ns ++ slash :: pod.name
  { cpu := toInt ((Assoc.find key podCPUUsage).getD 0 * 1000)
    memory := toInt ((Assoc.find key podMemUsage).getD 0) }

/-- The body of the one that adds up what is committed. -/
def committedStep (podCPUUsage podMemUsage : List (Text × ℚ))
    (requestsMap : List (Text × NodeResources)) (pod : Pod) :
    List (Text × NodeResources) :=
  let req := effectivePodRequests pod.spec
  let usage := prometheusUsage podCPUUsage podMemUsage pod
  change (fun requests => requests.commit usage req) requestsMap pod

def getNodeMetricsFromPrometheus (toLower : Text → Text)
    (nodes : List Node) (pods : List Pod) (q : Queries) :
    Option (List NodeMetrics) :=
  let requestsMap := pods.foldl requestsStep []
  let cpuUsage := mergeUsage
    (extractValues toLower q.nodeExporterCpu nodenameLabel)
    (extractValues toLower q.containerCpu nodeLabel)
  let memUsage := mergeUsage
    (extractValues toLower q.nodeExporterMem nodenameLabel)
    (extractValues toLower q.containerMem nodeLabel)
  if cpuUsage = [] ∧ memUsage = [] then none
  else
    let requestsMap := pods.foldl (committedStep
      (extractPodValues q.podCpu) (extractPodValues q.podMem)) requestsMap
    some (nodes.map fun node =>
      let capacity := (Assoc.find node.name (capacityMap nodes)).getD noCapacity
      let requests := (Assoc.find node.name requestsMap).getD .zero
      let cpuUsageMilli :=
        toInt ((Assoc.find (toLower node.name) cpuUsage).getD 0 * 1000)
      let memUsageBytes :=
        toInt ((Assoc.find (toLower node.name) memUsage).getD 0)
      { name := node.name
        cpuUsage := cpuUsageMilli
        memoryUsage := memUsageBytes
        cpuCapacity := capacity.cpu
        memCapacity := capacity.memory
        cpuRequested := requests.requestedCPU
        memRequested := requests.requestedMem
        cpuCommitted :=
          if cpuUsageMilli > requests.committedCPU then cpuUsageMilli
          else requests.committedCPU
        memCommitted :=
          if memUsageBytes > requests.committedMem then memUsageBytes
          else requests.committedMem
        podCount := requests.podCount
        podCapacity := capacity.pods })

-- ======== usage

/-- What a container uses, in whole millicores and bytes. -/
structure Usage where
  cpu : ℕ
  memory : ℕ

/-- The names of the containers that use something: also the init
containers that go on, and the ephemeral ones. -/
def Pod.measured (pod : Pod) : List Text :=
  pod.spec.containers.map Container.name
    ++ (pod.spec.initContainers.filter
      (·.restartPolicy = some .always)).map Container.name
    ++ pod.ephemeralContainers

/-- The pods of a cluster: they have names of their own in their
namespaces, and no name has a slash. -/
structure Cluster where
  pods : List Pod
  pods_distinct : (pods.map fun p => (p.ns, p.name)).Nodup
  ns_slash : ∀ p ∈ pods, slash ∉ p.ns
  name_slash : ∀ p ∈ pods, slash ∉ p.name

/-- What each container of a pod uses. -/
abbrev Assignment := Pod → Text → Usage

def podMetrics (usage : Assignment) (pods : List Pod) : List PodMetrics :=
  pods.map fun p =>
    { ns := p.ns
      name := p.name
      containers := p.measured.map fun c =>
        ⟨c, ⟨(usage p c).cpu, (usage p c).memory⟩⟩ }

/-- The usage of containers of a pod. -/
def total (names : List Text) (amount : Text → ℕ) : ℕ :=
  (names.map amount).sum

/-- What Prometheus tells of a resource: the sums of the pods, of CPU in
cores. -/
def podSamples (units : ℚ) (amount : Pod → Text → ℕ) (pods : List Pod) :
    List Sample :=
  pods.map fun p =>
    { metric := [(namespaceLabel, p.ns), (podLabel, p.name)]
      value := some (total p.measured (amount p) / units) }

/-- The queries' results, whatever those about nodes are. -/
def Queries.fed (q : Queries) (usage : Assignment) (pods : List Pod) :
    Queries :=
  { q with
    podCpu := some (podSamples 1000 (fun p c => (usage p c).cpu) pods)
    podMem := some (podSamples 1 (fun p c => (usage p c).memory) pods) }

-- ======== agreement

/-- What is committed is at least what is requested and what is used. -/
structure NodeMetrics.Bounded (m : NodeMetrics) : Prop where
  cpuRequested : m.cpuRequested ≤ m.cpuCommitted
  cpuUsage : m.cpuUsage ≤ m.cpuCommitted
  memRequested : m.memRequested ≤ m.memCommitted
  memoryUsage : m.memoryUsage ≤ m.memCommitted

/-- The two sources tell the same of what is promised on a node. -/
structure Agree (a b : NodeMetrics) : Prop where
  cpuRequested : a.cpuRequested = b.cpuRequested
  memRequested : a.memRequested = b.memRequested
  cpuCommitted : a.cpuCommitted = b.cpuCommitted
  memCommitted : a.memCommitted = b.memCommitted
  podCount : a.podCount = b.podCount
  bounded : a.Bounded ∧ b.Bounded

def onNode (pods : List Pod) (name : Text) : List Pod :=
  pods.filter fun p => isScheduledNonTerminalPod p && p.nodeName = name

/-- Of a resource: the node uses what its pods have been promised and more,
or no pod uses more than it requests without its containers using all of
it. -/
def SidecarsCovered (resourceName : ResourceName) (amount : Pod → Text → ℕ)
    (pods : List Pod) (nodeUsage : Int) : Prop :=
  (pods.map fun p => max (total p.measured (amount p) : Int)
      (effectivePodResourceRequest p.spec resourceName)).sum ≤ nodeUsage
    ∨ ∀ p ∈ pods,
      total (p.spec.containers.map Container.name) (amount p)
          = total p.measured (amount p)
        ∨ (total p.measured (amount p) : Int)
          ≤ effectivePodResourceRequest p.spec resourceName

end Metrics
