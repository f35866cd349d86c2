/-
The tools (pkg/tools/tools.go, `AllToolDefs`, and pkg/tools/registry.go).

A tool is its name, what the model is told of it, and the schema of its
arguments: an object with these properties, some of them required.

# Calls

Calling a tool (pkg/tools/tools.go, `CallTool`, and run_command.go).

What a call comes to is decided here (`Dispatch`): a tool that asks the
cluster is given its arguments, a command is run or refused, and a name
that no tool has is an error. What the cluster or the command answers is
not.
-/
import Kubikles.Lib.Json
import Kubikles.Lib.Words

namespace Tools

structure Property where
  name : String
  type : String
  description : String
deriving DecidableEq

structure ToolDef where
  name : Text
  description : String
  properties : List Property
  required : List String := []
deriving DecidableEq

def getPodLogs : ToolDef where
  name := Text.ofString "get_pod_logs"
  description :=
    "Get recent logs from a Kubernetes pod"
  properties :=
    [⟨"namespace", "string",
      "Pod namespace"⟩,
    ⟨"pod", "string",
      "Pod name"⟩,
    ⟨"container", "string",
      "Container name (optional, defaults to first container)"⟩,
    ⟨"tail_lines", "integer",
      "Number of lines to return (default 100)"⟩,
    ⟨"previous", "boolean",
      "Return logs from previous terminated container instance (default "
        ++ "false)"⟩]
  required := ["namespace", "pod"]

def getResourceYaml : ToolDef where
  name := Text.ofString "get_resource_yaml"
  description :=
    "Get the YAML manifest of a Kubernetes resource. For custom resources "
      ++ "(CRDs), provide group, version, and resource params."
  properties :=
    [⟨"kind", "string",
      "Resource kind (e.g. Pod, Deployment, Service, ConfigMap, Secret, "
        ++ "Node, Namespace, or a CRD kind)"⟩,
    ⟨"name", "string",
      "Resource name"⟩,
    ⟨"namespace", "string",
      "Namespace (required for namespaced resources)"⟩,
    ⟨"group", "string",
      "API group for custom resources (e.g. traefik.io)"⟩,
    ⟨"version", "string",
      "API version for custom resources (e.g. v1alpha1)"⟩,
    ⟨"resource", "string",
      "Plural resource name for custom resources (e.g. ingressroutes)"⟩]
  required := ["kind", "name"]

def listResources : ToolDef where
  name := Text.ofString "list_resources"
  description :=
    "List Kubernetes resources of a given kind, returning a concise "
      ++ "summary table. For custom resources (CRDs), provide group, "
      ++ "version, "
      ++ "and resource params."
  properties :=
    [⟨"kind", "string",
      "Resource kind. Built-in kinds are supported natively (e.g. Pod, "
        ++ "Deployment, StatefulSet, Service, Node, Namespace, ConfigMap, "
        ++ "Secret, Ingress, NetworkPolicy, Role, ClusterRole, "
        ++ "RoleBinding, "
        ++ "ClusterRoleBinding, StorageClass, IngressClass, PDB, HPA, "
        ++ "PVC, PV); "
        ++ "pass group/version/resource only for CRDs"⟩,
    ⟨"namespace", "string",
      "Namespace to list from (optional; omit for cluster-scoped resources "
        ++ "or all namespaces)"⟩,
    ⟨"group", "string",
      "API group for custom resources (e.g. traefik.io)"⟩,
    ⟨"version", "string",
      "API version for custom resources (e.g. v1alpha1)"⟩,
    ⟨"resource", "string",
      "Plural resource name for custom resources (e.g. ingressroutes)"⟩]
  required := ["kind"]

def getEvents : ToolDef where
  name := Text.ofString "get_events"
  description :=
    "Get recent Kubernetes events for a namespace"
  properties :=
    [⟨"namespace", "string",
      "Namespace to get events from (empty for all namespaces)"⟩,
    ⟨"involved_object", "string",
      "Filter by involved object in 'Kind/Name' format (e.g. 'Pod/my-pod')"⟩]

def describeResource : ToolDef where
  name := Text.ofString "describe_resource"
  description :=
    "Get a concise description of a Kubernetes resource including status, "
      ++ "conditions, labels, and key details. For custom resources "
      ++ "(CRDs), "
      ++ "provide group, version, and resource params."
  properties :=
    [⟨"kind", "string",
      "Resource kind (e.g. Pod, Deployment, Service, or a CRD kind)"⟩,
    ⟨"name", "string",
      "Resource name"⟩,
    ⟨"namespace", "string",
      "Namespace (required for namespaced resources)"⟩,
    ⟨"group", "string",
      "API group for custom resources (e.g. traefik.io)"⟩,
    ⟨"version", "string",
      "API version for custom resources (e.g. v1alpha1)"⟩,
    ⟨"resource", "string",
      "Plural resource name for custom resources (e.g. ingressroutes)"⟩]
  required := ["kind", "name"]

def listCrds : ToolDef where
  name := Text.ofString "list_crds"
  description :=
    "List all CustomResourceDefinitions in the cluster. Returns CRD names, "
      ++ "groups, versions, kinds, scope, and plural names needed for "
      ++ "querying "
      ++ "instances."
  properties := []

def listCustomResources : ToolDef where
  name := Text.ofString "list_custom_resources"
  description :=
    "List instances of a custom resource (CRD). Use list_crds first to "
      ++ "discover available CRDs and their group/version/resource values."
  properties :=
    [⟨"group", "string",
      "API group (e.g. traefik.io, cert-manager.io)"⟩,
    ⟨"version", "string",
      "API version (e.g. v1alpha1, v1)"⟩,
    ⟨"resource", "string",
      "Plural resource name (e.g. ingressroutes, certificates)"⟩,
    ⟨"namespace", "string",
      "Namespace (optional; omit for cluster-scoped resources)"⟩]
  required := ["group", "version", "resource"]

def getCustomResourceYaml : ToolDef where
  name := Text.ofString "get_custom_resource_yaml"
  description :=
    "Get the YAML manifest of a specific custom resource instance"
  properties :=
    [⟨"group", "string",
      "API group"⟩,
    ⟨"version", "string",
      "API version"⟩,
    ⟨"resource", "string",
      "Plural resource name"⟩,
    ⟨"name", "string",
      "Resource instance name"⟩,
    ⟨"namespace", "string",
      "Namespace (optional; omit for cluster-scoped)"⟩]
  required := ["group", "version", "resource", "name"]

def getClusterMetrics : ToolDef where
  name := Text.ofString "get_cluster_metrics"
  description :=
    "Get cluster-wide CPU, memory, and pod usage summary with a per-node "
      ++ "breakdown table"
  properties := []

def getPodMetrics : ToolDef where
  name := Text.ofString "get_pod_metrics"
  description :=
    "Get per-pod CPU and memory usage. Filterable by namespace, sortable "
      ++ "by cpu, memory, or name."
  properties :=
    [⟨"namespace", "string",
      "Filter by namespace (optional; omit for all namespaces)"⟩,
    ⟨"sort_by", "string",
      "Sort field: cpu, memory, or name (default: cpu)"⟩]

def getNamespaceSummary : ToolDef where
  name := Text.ofString "get_namespace_summary"
  description :=
    "Get resource counts for a namespace (pods, deployments, services, "
      ++ "etc.)"
  properties :=
    [⟨"namespace", "string",
      "Namespace to summarize"⟩]
  required := ["namespace"]

def getResourceDependencies : ToolDef where
  name := Text.ofString "get_resource_dependencies"
  description :=
    "Get the dependency graph for a resource showing what it owns, "
      ++ "selects, and uses"
  properties :=
    [⟨"kind", "string",
      "Resource kind (e.g. Deployment, Service, StatefulSet)"⟩,
    ⟨"name", "string",
      "Resource name"⟩,
    ⟨"namespace", "string",
      "Namespace (optional for cluster-scoped resources)"⟩]
  required := ["kind", "name"]

def getFlowTimeline : ToolDef where
  name := Text.ofString "get_flow_timeline"
  description :=
    "Get an event timeline showing the lifecycle of a Kubernetes resource "
      ++ "including creation, updates, scaling events, and related events"
  properties :=
    [⟨"resource_type", "string",
      "Resource type (pod, deployment, statefulset, daemonset, job, "
        ++ "service, configmap, secret)"⟩,
    ⟨"namespace", "string",
      "Namespace of the resource"⟩,
    ⟨"name", "string",
      "Name of the resource"⟩]
  required := ["resource_type", "namespace", "name"]

def getMultiPodLogs : ToolDef where
  name := Text.ofString "get_multi_pod_logs"
  description :=
    "Get aggregated logs from multiple pods matching a label selector, "
      ++ "useful for viewing logs across replicas of a deployment or "
      ++ "service"
  properties :=
    [⟨"namespace", "string",
      "Namespace to search for pods"⟩,
    ⟨"label_selector", "string",
      "Label selector to match pods (e.g. 'app=nginx,tier=frontend')"⟩,
    ⟨"container", "string",
      "Container name (optional, defaults to all containers)"⟩,
    ⟨"tail_lines", "integer",
      "Number of lines to return per pod (default 50)"⟩,
    ⟨"since_seconds", "integer",
      "Only return logs newer than this many seconds (default 300)"⟩]
  required := ["namespace", "label_selector"]

def diffResources : ToolDef where
  name := Text.ofString "diff_resources"
  description :=
    "Compare two Kubernetes resources and show the differences. Can "
      ++ "compare resources across different contexts/clusters."
  properties :=
    [⟨"source_context", "string",
      "Source cluster context (optional, defaults to current)"⟩,
    ⟨"source_namespace", "string",
      "Source resource namespace"⟩,
    ⟨"source_kind", "string",
      "Source resource kind (e.g. Deployment, ConfigMap)"⟩,
    ⟨"source_name", "string",
      "Source resource name"⟩,
    ⟨"target_context", "string",
      "Target cluster context (optional, defaults to current)"⟩,
    ⟨"target_namespace", "string",
      "Target resource namespace"⟩,
    ⟨"target_kind", "string",
      "Target resource kind"⟩,
    ⟨"target_name", "string",
      "Target resource name"⟩]
  required :=
    ["source_namespace", "source_kind", "source_name",
    "target_namespace", "target_kind", "target_name"]

def checkRbacAccess : ToolDef where
  name := Text.ofString "check_rbac_access"
  description :=
    "Check what RBAC permissions a subject (user, group, or service "
      ++ "account) has. Returns allowed actions with the rules that "
      ++ "grant them."
  properties :=
    [⟨"subject_kind", "string",
      "Subject type: User, Group, or ServiceAccount"⟩,
    ⟨"subject_name", "string",
      "Name of the subject"⟩,
    ⟨"subject_namespace", "string",
      "Namespace (required for ServiceAccount)"⟩,
    ⟨"target_namespace", "string",
      "Namespace to check permissions in (optional, empty for "
        ++ "cluster-wide)"⟩,
    ⟨"resource", "string",
      "Filter by specific resource type (e.g. pods, deployments)"⟩,
    ⟨"verb", "string",
      "Filter by specific verb (e.g. get, list, create, delete)"⟩]
  required := ["subject_kind", "subject_name"]

def runCommand : ToolDef where
  name := Text.ofString "run_command"
  description :=
    "Execute a shell command. Only commands matching the user-configured "
      ++ "allowlist of safe prefixes (e.g. kubectl get, helm list) will "
      ++ "run. "
      ++ "Commands are executed directly without shell interpretation. "
      ++ "Disallowed commands are rejected with an error."
  properties :=
    [⟨"command", "string",
      "The full command to run (e.g. 'kubectl get pods -n default'). Must "
        ++ "match an allowed command prefix."⟩]
  required := ["command"]

def allToolDefs : List ToolDef :=
  [getPodLogs, getResourceYaml, listResources, getEvents,
    describeResource, listCrds, listCustomResources,
    getCustomResourceYaml, getClusterMetrics, getPodMetrics,
    getNamespaceSummary, getResourceDependencies, getFlowTimeline,
    getMultiPodLogs, diffResources, checkRbacAccess, runCommand]

/-- `ToolMeta`, without the views and actions a tool is shown in. -/
structure ToolMeta where
  category : String := ""
  isDangerous : Bool := false
  safetyNote : String := ""
deriving DecidableEq

/-- `initMetadata`. -/
def metadata : List (ToolDef × ToolMeta) :=
  [(getPodLogs, { category := "debugging" }),
    (getResourceYaml, { category := "resources" }),
    (listResources, { category := "resources" }),
    (getEvents, { category := "debugging" }),
    (describeResource, { category := "resources" }),
    (listCrds, { category := "crds" }),
    (listCustomResources, { category := "crds" }),
    (getCustomResourceYaml, { category := "crds" }),
    (getClusterMetrics, { category := "metrics" }),
    (getPodMetrics, { category := "metrics" }),
    (getNamespaceSummary, { category := "resources" }),
    (getResourceDependencies, { category := "resources" }),
    (getFlowTimeline, { category := "diagnostics" }),
    (getMultiPodLogs, { category := "diagnostics" }),
    (diffResources, { category := "diagnostics" }),
    (checkRbacAccess, { category := "diagnostics" }),
    (runCommand, { category := "commands" })]

/-- `GetMeta`; nothing is known of other tools. -/
def getMeta (name : Text) : ToolMeta :=
  match metadata.find? (·.1.name = name) with
  | some (_, known) => known
  | none => {}

theorem getMeta_isDangerous (name : Text) :
    (getMeta name).isDangerous = false := by
  unfold getMeta
  split
  next tool known hfind =>
    have hsafe : ∀ entry ∈ metadata, entry.2.isDangerous = false := by
      decide
    exact hsafe _ (List.mem_of_find?_eq_some hfind)
  next => rfl

end Tools

namespace Tools

/-- `args map[string]interface{}`. -/
abbrev Args := FinMap Text Json

def strArg (args : Args) (key : Text) : Text :=
  match args.lookup key with
  | some (.str raw) => Json.unquote raw
  | _ => []

-- ======== commands

/-- A prefix of white space separated words matches the words of a
command; an empty one matches none. -/
def matchesWords (tokens : List Text) (allowed : Text) : Bool :=
  Text.fields allowed ≠ [] && (Text.fields allowed).isPrefixOf tokens

def validateCommand (tokens : List Text) (prefixes : List Text) : Bool :=
  prefixes.any (matchesWords tokens)

theorem matchesWords_fields {allowed : Text}
    (h : Text.fields allowed ≠ []) :
    matchesWords (Text.fields allowed) allowed = true := by
  unfold matchesWords
  rw [decide_eq_true h, Bool.true_and]
  exact List.isPrefixOf_iff_prefix.mpr List.prefix_rfl

theorem validate_of_matches {tokens prefixes : List Text} {p : Text}
    (hp : matchesWords tokens p = true)
    (h : validateCommand (Text.fields p) prefixes = true) :
    validateCommand tokens prefixes = true := by
  obtain ⟨-, hstarts⟩ := Bool.and_eq_true_iff.mp hp
  obtain ⟨q, hq, hmatch⟩ := List.any_eq_true.mp h
  obtain ⟨hne, hfront⟩ := Bool.and_eq_true_iff.mp hmatch
  refine List.any_eq_true.mpr ⟨q, hq, Bool.and_eq_true_iff.mpr ⟨hne, ?_⟩⟩
  exact List.isPrefixOf_iff_prefix.mpr
    ((List.isPrefixOf_iff_prefix.mp hfront).trans
      (List.isPrefixOf_iff_prefix.mp hstarts))

/-- The words of some prefixes are all allowed by others. -/
def Within (prefixes others : List Text) : Prop :=
  ∀ p ∈ prefixes, Text.fields p ≠ [] →
    validateCommand (Text.fields p) others = true

instance Within.decidable (prefixes others : List Text) :
    Decidable (Within prefixes others) :=
  inferInstanceAs (Decidable (∀ p ∈ prefixes, _))

theorem within_iff {prefixes others : List Text} :
    Within prefixes others
      ↔ ∀ tokens, validateCommand tokens prefixes = true →
        validateCommand tokens others = true := by
  constructor
  · intro h tokens hvalid
    obtain ⟨p, hp, hmatch⟩ := List.any_eq_true.mp hvalid
    have hne : Text.fields p ≠ [] :=
      of_decide_eq_true (Bool.and_eq_true_iff.mp hmatch).1
    exact validate_of_matches hmatch (h p hp hne)
  · intro h p hp hne
    exact h _ (List.any_eq_true.mpr ⟨p, hp, matchesWords_fields hne⟩)

/-- What `toolRunCommand` does. -/
inductive Command where
  /-- `command is required`. -/
  | required
  /-- `command is empty`. -/
  | empty
  /-- `Command … is not allowed`, with the prefix that is missing and those
  that are allowed. -/
  | notAllowed (command : List Text) (hint : Text) (prefixes : List Text)
  | run (tokens : List Text)
deriving DecidableEq

/-- The one or two words that would have to be allowed. -/
def hintOf : List Text → Text
  | a :: b :: _ => a ++ Text.space :: b
  | [a] => a
  | [] => []

def toolRunCommand (args : Args) (prefixes : List Text) : Command :=
  let command := strArg args (Text.ofString "command")
  if command = [] then .required
  else
    let tokens := Text.fields command
    if tokens = [] then .empty
    else if validateCommand tokens prefixes then .run tokens
    else .notAllowed tokens (hintOf tokens) prefixes

theorem validate_of_run {args : Args} {prefixes tokens : List Text}
    (h : toolRunCommand args prefixes = .run tokens) :
    validateCommand tokens prefixes = true := by
  unfold toolRunCommand at h
  dsimp only at h
  split at h
  · cases h
  · split at h
    · cases h
    · split at h
      next hvalid =>
        cases h
        exact hvalid
      · cases h

-- ======== calls

/-- What `CallTool` comes to. -/
inductive Dispatch where
  | cluster (tool : ToolDef) (args : Args)
  | command (command : Command)
  /-- `Unknown tool: …`. -/
  | unknown (name : Text)

def clusterTools : List ToolDef :=
  [getPodLogs, getResourceYaml, listResources, getEvents,
    describeResource, listCrds, listCustomResources,
    getCustomResourceYaml, getClusterMetrics, getPodMetrics,
    getNamespaceSummary, getResourceDependencies, getFlowTimeline,
    getMultiPodLogs, diffResources, checkRbacAccess]

/-- `CallTool`, while these command prefixes are allowed. -/
def callTool (allowedCommandPrefixes : List Text) (name : Text)
    (args : Args) : Dispatch :=
  match clusterTools.find? (·.name = name) with
  | some tool => .cluster tool args
  | none =>
    if name = runCommand.name then
      .command (toolRunCommand args allowedCommandPrefixes)
    else .unknown name

def Dispatch.known : Dispatch → Bool
  | .unknown _ => false
  | _ => true

theorem callTool_known (prefixes : List Text) (name : Text) (args : Args) :
    (callTool prefixes name args).known = true
      ↔ name ∈ allToolDefs.map ToolDef.name := by
  have hall : allToolDefs = clusterTools ++ [runCommand] := rfl
  rw [hall, List.map_append, List.mem_append]
  unfold callTool
  split
  next tool hfind =>
    refine ⟨fun _ => Or.inl ?_, fun _ => rfl⟩
    have hname : tool.name = name := by simpa using List.find?_some hfind
    exact hname ▸ List.mem_map_of_mem (List.mem_of_find?_eq_some hfind)
  next hnone =>
    have hnot : name ∉ clusterTools.map ToolDef.name := by
      intro hmem
      obtain ⟨tool, htool, rfl⟩ := List.mem_map.mp hmem
      exact List.find?_eq_none.mp hnone tool htool (decide_eq_true rfl)
    split
    next hrun => exact ⟨fun _ => Or.inr (hrun ▸ List.mem_singleton_self _),
      fun _ => rfl⟩
    next hother =>
      refine ⟨(fun h => nomatch h), fun h => ?_⟩
      rcases h with h | h
      · exact absurd h hnot
      · exact absurd (List.mem_singleton.mp h) hother

end Tools
