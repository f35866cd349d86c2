/-
How a permission comes about (pkg/k8s/rbac.go).

# The trace

`traceRBACChain` lists the bindings, keeps those with the subject of the
request, gets the role that each refers to and goes through its rules
(`roleGrantsAccess`). A call that fails leaves its links out. What the API
server answers is a `Clientset`; a `Cluster` answers every call.

# Kubernetes

The authorizer goes through the same bindings. It is stated here without
the order of the loops: the request is allowed if some rule that is bound
to the subject allows it (`Allows`). What applies to a subject by another
way, as the groups of a service account do, is not a binding to it.
-/
import Kubikles.Lib.Keyed

namespace Rbac

-- ======== objects

/-- The kinds of a subject; a request with another is refused before. -/
inductive SubjectKind where
  | serviceAccount
  | user
  | group
deriving DecidableEq

/-- `rbacv1.Subject`. -/
structure Subject where
  kind : SubjectKind
  name : String
  /-- Of a service account; it may be empty. -/
  ns : String := ""
deriving DecidableEq

/-- `rbacv1.PolicyRule`, for resources. -/
structure PolicyRule where
  apiGroups : List String := []
  resources : List String := []
  verbs : List String := []
  resourceNames : List String := []
deriving DecidableEq

/-- The kinds a role reference has. -/
inductive RefKind where
  | clusterRole
  | role
deriving DecidableEq

def RefKind.text : RefKind → String
  | .clusterRole => "ClusterRole"
  | .role => "Role"

/-- `rbacv1.RoleRef`. -/
structure RoleRef where
  kind : RefKind
  name : String
deriving DecidableEq

structure ClusterRole where
  name : String
  rules : List PolicyRule

structure Role where
  ns : String
  name : String
  rules : List PolicyRule

def Role.key (r : Role) : String × String := (r.ns, r.name)

structure ClusterRoleBinding where
  name : String
  subjects : List Subject
  roleRef : RoleRef

structure RoleBinding where
  ns : String
  name : String
  subjects : List Subject
  roleRef : RoleRef

structure Cluster where
  clusterRoles : List ClusterRole := []
  roles : List Role := []
  clusterRoleBindings : List ClusterRoleBinding := []
  roleBindings : List RoleBinding := []
  clusterRole_distinct : Keyed.Distinct ClusterRole.name clusterRoles
  role_distinct : Keyed.Distinct Role.key roles

/-- What the API server answers; a call without an answer has failed. -/
structure Clientset where
  listClusterRoleBindings : Option (List ClusterRoleBinding)
  listRoleBindings : (ns : String) → Option (List RoleBinding)
  getClusterRole : (name : String) → Option ClusterRole
  getRole : (ns name : String) → Option Role

/-- A server that answers with the objects of the cluster. -/
def Cluster.clientset (c : Cluster) : Clientset where
  listClusterRoleBindings := some c.clusterRoleBindings
  listRoleBindings ns := some (c.roleBindings.filter fun rb => rb.ns = ns)
  getClusterRole name := Keyed.find ClusterRole.name c.clusterRoles name
  getRole ns name := Keyed.find Role.key c.roles (ns, name)

structure RBACCheckRequest where
  subjectKind : SubjectKind
  subjectName : String
  subjectNamespace : String := ""
  verb : String
  /-- The resource, or a resource and a subresource: `pods/log`. -/
  resource : String
  resourceName : String := ""
  ns : String := ""
  apiGroup : String := ""

structure RBACChainLink where
  kind : String
  name : String
  ns : String := ""
  grants : Bool
  rule : String
deriving DecidableEq

-- ======== the trace

/-- `%v` of a list of texts. -/
def listText (l : List String) : String :=
  "[" ++ " ".intercalate l ++ "]"

def formatPolicyRule (rule : PolicyRule) : String :=
  let part (label : String) (l : List String) : List String :=
    if l.length > 0 then [label ++ ": " ++ listText l] else []
  ", ".intercalate
    (part "apiGroups" rule.apiGroups ++ part "resources" rule.resources
      ++ part "verbs" rule.verbs ++ part "resourceNames" rule.resourceNames)

def roleGrantsAccess (req : RBACCheckRequest) :
    List PolicyRule → Bool × String
  | [] => (false, "")
  | rule :: rules =>
    let groupMatch := rule.apiGroups.any fun g => g = "*" || g = req.apiGroup
    let resourceMatch :=
      rule.resources.any fun r => r = "*" || r = req.resource
    let verbMatch := rule.verbs.any fun v => v = "*" || v = req.verb
    let nameMatch := rule.resourceNames.any fun n => n = req.resourceName
    if !groupMatch && rule.apiGroups.length > 0 then
      roleGrantsAccess req rules
    else if !resourceMatch then roleGrantsAccess req rules
    else if !verbMatch then roleGrantsAccess req rules
    else if req.resourceName ≠ "" && rule.resourceNames.length > 0
        && !nameMatch then
      roleGrantsAccess req rules
    else (true, formatPolicyRule rule)

/-- One subject of `subjectMatcher`. -/
def subjectMatches (req : RBACCheckRequest) (s : Subject) : Bool :=
  match req.subjectKind with
  | .serviceAccount =>
    s.kind = .serviceAccount && s.name = req.subjectName
      && (s.ns = "" || s.ns = req.subjectNamespace)
  | .user => s.kind = .user && s.name = req.subjectName
  | .group => s.kind = .group && s.name = req.subjectName

def subjectMatcher (req : RBACCheckRequest) (subjects : List Subject) :
    Bool :=
  subjects.any (subjectMatches req)

def clusterRoleBindingLinks (cs : Clientset) (req : RBACCheckRequest)
    (crb : ClusterRoleBinding) : List RBACChainLink :=
  if subjectMatcher req crb.subjects then
    match crb.roleRef.kind with
    | .role => []
    | .clusterRole =>
      match cs.getClusterRole crb.roleRef.name with
      | none => []
      | some cr =>
        let (grants, rule) := roleGrantsAccess req cr.rules
        { kind := "ClusterRoleBinding", name := crb.name, grants
          rule := "binds to ClusterRole/" ++ crb.roleRef.name }
        :: if grants then
            [{ kind := "ClusterRole", name := cr.name, grants := true
               rule }]
          else []
  else []

/-- What the role of a RoleBinding grants; one that is not found grants
nothing. -/
def roleBindingGrants (cs : Clientset) (req : RBACCheckRequest)
    (rb : RoleBinding) : Bool × String :=
  match rb.roleRef.kind with
  | .clusterRole =>
    match cs.getClusterRole rb.roleRef.name with
    | some cr => roleGrantsAccess req cr.rules
    | none => (false, "")
  | .role =>
    match cs.getRole req.ns rb.roleRef.name with
    | some r => roleGrantsAccess req r.rules
    | none => (false, "")

def roleBindingLinks (cs : Clientset) (req : RBACCheckRequest)
    (rb : RoleBinding) : List RBACChainLink :=
  if subjectMatcher req rb.subjects then
    let (grants, rule) := roleBindingGrants cs req rb
    { kind := "RoleBinding", name := rb.name, ns := rb.ns, grants
      rule := "binds to " ++ rb.roleRef.kind.text ++ "/" ++ rb.roleRef.name }
    :: if grants then
        [{ kind := rb.roleRef.kind.text, name := rb.roleRef.name
           ns := req.ns, grants := true, rule }]
      else []
  else []

/-- `traceRBACChain`; `getClientset` may fail. -/
def traceRBACChain (clientset : Option Clientset) (req : RBACCheckRequest) :
    List RBACChainLink :=
  match clientset with
  | none => []
  | some cs =>
    (match cs.listClusterRoleBindings with
      | some crbs => crbs.flatMap (clusterRoleBindingLinks cs req)
      | none => [])
    ++ if req.ns ≠ "" then
        match cs.listRoleBindings req.ns with
        | some rbs => rbs.flatMap (roleBindingLinks cs req)
        | none => []
      else []

-- ======== Kubernetes

/-- The subresource of a request: what is behind the first slash. -/
def RBACCheckRequest.subresource (req : RBACCheckRequest) : Option String :=
  match req.resource.toList.dropWhile (· ≠ '/') with
  | _ :: c :: cs => some (String.ofList (c :: cs))
  | _ => none

structure PolicyRule.Allows (rule : PolicyRule) (req : RBACCheckRequest) :
    Prop where
  group : "*" ∈ rule.apiGroups ∨ req.apiGroup ∈ rule.apiGroups
  verb : "*" ∈ rule.verbs ∨ req.verb ∈ rule.verbs
  resource : ("*" ∈ rule.resources ∨ req.resource ∈ rule.resources)
    ∨ ∃ sub ∈ req.subresource, "*/" ++ sub ∈ rule.resources
  name : rule.resourceNames = [] ∨ req.resourceName ∈ rule.resourceNames

/-- A subject that a binding of a namespace lists is the subject of the
request. A service account is one of the binding's namespace if it names
none, and a binding of the cluster has none. -/
structure Subject.Denotes (s : Subject) (ns : String)
    (req : RBACCheckRequest) : Prop where
  kind : s.kind = req.subjectKind
  name : s.name = req.subjectName
  ns : s.kind = .serviceAccount →
    req.subjectNamespace ≠ ""
      ∧ (if s.ns = "" then ns else s.ns) = req.subjectNamespace

/-- A binding of a namespace that the request falls under lists a subject
and refers to a role with a rule. -/
inductive Bound (c : Cluster) (req : RBACCheckRequest) :
    String → Subject → PolicyRule → Prop where
  | cluster {crb cr s rule} (hcrb : crb ∈ c.clusterRoleBindings)
      (hs : s ∈ crb.subjects) (hcr : cr ∈ c.clusterRoles)
      (href : crb.roleRef = ⟨.clusterRole, cr.name⟩)
      (hrule : rule ∈ cr.rules) : Bound c req "" s rule
  | toClusterRole {rb cr s rule} (hrb : rb ∈ c.roleBindings)
      (hne : req.ns ≠ "") (hns : rb.ns = req.ns) (hs : s ∈ rb.subjects)
      (hcr : cr ∈ c.clusterRoles)
      (href : rb.roleRef = ⟨.clusterRole, cr.name⟩)
      (hrule : rule ∈ cr.rules) : Bound c req rb.ns s rule
  | toRole {rb r s rule} (hrb : rb ∈ c.roleBindings)
      (hne : req.ns ≠ "") (hns : rb.ns = req.ns) (hs : s ∈ rb.subjects)
      (hr : r ∈ c.roles) (hrns : r.ns = rb.ns)
      (href : rb.roleRef = ⟨.role, r.name⟩)
      (hrule : rule ∈ r.rules) : Bound c req rb.ns s rule

/-- The request is allowed through a binding to its subject. -/
def Allows (c : Cluster) (req : RBACCheckRequest) : Prop :=
  ∃ ns s rule, Bound c req ns s rule ∧ s.Denotes ns req ∧ rule.Allows req

-- ======== where they differ

/-- A rule allows a request by the resource itself. -/
structure PolicyRule.AllowsPlainly (rule : PolicyRule)
    (req : RBACCheckRequest) : Prop extends rule.Allows req where
  listed : "*" ∈ rule.resources ∨ req.resource ∈ rule.resources

structure PolicyRule.AllowsBySubresource (rule : PolicyRule)
    (req : RBACCheckRequest) : Prop extends rule.Allows req where
  unlisted : ¬ ("*" ∈ rule.resources ∨ req.resource ∈ rule.resources)

/-- A rule that the trace is content with: its groups may be empty, and
its names do not matter to a request without one. -/
structure PolicyRule.Suffices (rule : PolicyRule) (req : RBACCheckRequest) :
    Prop where
  group : rule.apiGroups = [] ∨ "*" ∈ rule.apiGroups
    ∨ req.apiGroup ∈ rule.apiGroups
  verb : "*" ∈ rule.verbs ∨ req.verb ∈ rule.verbs
  listed : "*" ∈ rule.resources ∨ req.resource ∈ rule.resources
  name : req.resourceName = "" ∨ rule.resourceNames = []
    ∨ req.resourceName ∈ rule.resourceNames

/-- A subject that the trace is content with: a service account without a
namespace stands for those of every namespace. -/
structure Subject.Suffices (s : Subject) (req : RBACCheckRequest) :
    Prop where
  kind : s.kind = req.subjectKind
  name : s.name = req.subjectName
  ns : s.kind = .serviceAccount → s.ns = "" ∨ s.ns = req.subjectNamespace

/-- What makes a subject or a rule one that the trace alone takes: no
groups, names where the request has none, or a service account of another
namespace than the binding's. -/
def Lenient (req : RBACCheckRequest) (ns : String) (s : Subject)
    (rule : PolicyRule) : Prop :=
  rule.apiGroups = []
    ∨ (req.resourceName = "" ∧ rule.resourceNames ≠ []
      ∧ "" ∉ rule.resourceNames)
    ∨ (s.kind = .serviceAccount ∧ s.ns = ""
      ∧ (ns = "" ∨ ns ≠ req.subjectNamespace))

/-- A rule that is bound to the subject allows the request by the resource
itself. -/
def Plain (c : Cluster) (req : RBACCheckRequest) : Prop :=
  ∃ ns s rule, Bound c req ns s rule ∧ s.Denotes ns req
    ∧ rule.AllowsPlainly req

/-- The trace alone takes a rule to be one that is bound to the subject
and allows the request. -/
def TraceAlone (c : Cluster) (req : RBACCheckRequest) : Prop :=
  ∃ ns s rule, Bound c req ns s rule ∧ s.Suffices req ∧ rule.Suffices req
    ∧ Lenient req ns s rule

/-- A rule that is bound to the subject allows the request by its
subresource alone. -/
def BySubresource (c : Cluster) (req : RBACCheckRequest) : Prop :=
  ∃ ns s rule, Bound c req ns s rule ∧ s.Denotes ns req
    ∧ rule.AllowsBySubresource req

end Rbac
