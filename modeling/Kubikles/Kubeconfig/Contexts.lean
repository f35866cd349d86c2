/-
Kubeconfig files, as clientcmd loads, merges and writes them.

# clientcmd

The package is not part of the program; what is said of it is its
documentation of `Load`: a missing explicit file is an error, a missing or
unnamed file among several is ignored, a file that cannot be read is an
error; the first file that has a key of a map wins, and so does the first
that has a current context; and relative paths inside a file are resolved
against its directory. What depends on the system is a parameter
(`System`).

# Maps

A Go map of which keys are only looked up is the function that does so.
Entries have the fields that are shown of them or edited.

# Contexts

The contexts of the kubeconfig files, renamed and edited
(pkg/k8s/contexts.go).

# The client

A client has a current context, or it would not have been made
(`loadConfig` fails without one). To switch to a context rebuilds its
connections; whether that fails depends on the files and is a parameter
here, and what it keeps of them is not modelled.
-/
import Mathlib.Data.List.Basic

namespace Kubeconfig

/-- `clientcmdapi.Cluster`. -/
structure Cluster where
  server : String := ""
  certificateAuthority : String := ""
  insecureSkipTLSVerify : Bool := false
  proxyURL : String := ""
  tlsServerName : String := ""
  disableCompression : Bool := false
deriving DecidableEq

structure ExecEnvVar where
  name : String
  value : String
deriving DecidableEq

/-- `clientcmdapi.ExecConfig`. -/
structure ExecConfig where
  apiVersion : String := ""
  command : String := ""
  args : List String := []
  env : List ExecEnvVar := []
  installHint : String := ""
  provideClusterInfo : Bool := false
deriving DecidableEq

/-- `clientcmdapi.AuthInfo`, with the name of its provider. -/
structure AuthInfo where
  clientCertificate : String := ""
  clientKey : String := ""
  token : String := ""
  tokenFile : String := ""
  username : String := ""
  impersonate : String := ""
  impersonateGroups : List String := []
  exec : Option ExecConfig := none
  authProvider : Option String := none
deriving DecidableEq

/-- `clientcmdapi.Context`. -/
structure Context where
  cluster : String := ""
  authInfo : String := ""
  ns : String := ""
deriving DecidableEq

/-- `clientcmdapi.Config`. -/
structure Config where
  clusters : String → Option Cluster := fun _ => none
  authInfos : String → Option AuthInfo := fun _ => none
  contexts : String → Option Context := fun _ => none
  currentContext : String := ""

inductive File where
  | broken (err : String)
  | config (config : Config)

abbrev Disk := String → Option File

-- ======== paths

/-- What depends on the system: which paths are absolute, which commands
have a separator, the path of a name in the directory of a file, the errors
of writing to files, and quoting. -/
structure System where
  isAbs : String → Bool
  hasSeparator : String → Bool
  join : String → String → String
  isAbs_join : ∀ file path, isAbs (join file path) = true
  writeErr : String → Option String
  quote : String → String

namespace System

variable (sys : System)

/-- `ResolvePaths`, of one path in a file. -/
def resolve (file path : String) : String :=
  if path = "" ∨ sys.isAbs path then path else sys.join file path

/-- `ResolveLocalPaths`, of a cluster. -/
def resolveCluster (file : String) (cluster : Cluster) : Cluster :=
  { cluster with
    certificateAuthority := sys.resolve file cluster.certificateAuthority }

/-- The command of an exec plugin, if it is not searched for. -/
def resolveCommand (file command : String) : String :=
  if sys.hasSeparator command then sys.resolve file command else command

/-- `ResolveLocalPaths`, of a user. -/
def resolveAuthInfo (file : String) (authInfo : AuthInfo) : AuthInfo :=
  { authInfo with
    clientCertificate := sys.resolve file authInfo.clientCertificate
    clientKey := sys.resolve file authInfo.clientKey
    tokenFile := sys.resolve file authInfo.tokenFile
    exec := authInfo.exec.map fun exec =>
      { exec with command := sys.resolveCommand file exec.command } }

/-- `ResolveLocalPaths`, of what is in a file. -/
def resolveConfig (file : String) (config : Config) : Config :=
  { config with
    clusters := fun name =>
      (config.clusters name).map (sys.resolveCluster file)
    authInfos := fun name =>
      (config.authInfos name).map (sys.resolveAuthInfo file) }

-- ======== loading

/-- The configuration of several: of each key the first one's. -/
def merge (configs : List Config) : Config where
  clusters name := configs.findSome? (·.clusters name)
  authInfos name := configs.findSome? (·.authInfos name)
  contexts name := configs.findSome? (·.contexts name)
  currentContext :=
    ((configs.map (·.currentContext)).find? (· ≠ "")).getD ""

/-- The file at a path, unless it is missing or unnamed. -/
def fileAt (disk : Disk) (path : String) : Option File :=
  if path = "" then none else disk path

def configAt (disk : Disk) (path : String) : Option Config :=
  match fileAt disk path with
  | some (.config config) => some (sys.resolveConfig path config)
  | _ => none

def errAt (disk : Disk) (path : String) : Option String :=
  match fileAt disk path with
  | some (.broken err) => some err
  | _ => none

/-- `ClientConfigLoadingRules`. -/
inductive LoadingRules where
  | explicitPath (path : String)
  | precedence (paths : List String)

/-- `Load`: what `RawConfig` returns. -/
def load (disk : Disk) : LoadingRules → Except String Config
  | .explicitPath path =>
    if path ≠ "" ∧ (disk path).isNone then
      .error ("stat " ++ path ++ ": no such file or directory")
    else
      match errAt disk path with
      | some err => .error err
      | none => .ok (merge ((sys.configAt disk path).toList))
  | .precedence paths =>
    match paths.findSome? (errAt disk) with
    | some err => .error err
    | none => .ok (merge (paths.filterMap (sys.configAt disk)))

def writeToFile (config : Config) (path : String) (disk : Disk) :
    Except String Disk :=
  match sys.writeErr path with
  | some err => .error err
  | none => .ok (Function.update disk path (some (.config config)))

end System

end Kubeconfig

namespace Kubeconfig

/-- `Client`: its paths besides the primary one, and its context. -/
structure Client where
  primary : String
  extraKubeconfigPaths : List String
  currentContext : String
  named : currentContext ≠ ""

namespace Client

variable (client : Client)

def allPaths : List String := client.primary :: client.extraKubeconfigPaths

def getLoadingRules : System.LoadingRules :=
  if client.extraKubeconfigPaths = [] then .explicitPath client.primary
  else .precedence client.allPaths

def inContext (name : String) (h : name ≠ "") : Client :=
  { client with currentContext := name, named := h }

end Client

/-- What a call returns, and what it leaves. -/
structure Outcome where
  err : Option String
  disk : Disk
  client : Client

namespace System

variable (sys : System)

def rawConfig (disk : Disk) (client : Client) : Except String Config :=
  sys.load disk client.getLoadingRules

/-- `modifyKubeconfigContext`, with these paths. -/
def modifyKubeconfigContext (contextName : String)
    (mutate : Config → Except String Config) (disk : Disk) :
    List String → Except String Disk
  | [] => .error ("context " ++ sys.quote contextName
      ++ " not found in any kubeconfig file")
  | path :: paths =>
    match sys.load disk (.explicitPath path) with
    | .error _ => modifyKubeconfigContext contextName mutate disk paths
    | .ok rawConfig =>
      if (rawConfig.contexts contextName).isNone then
        modifyKubeconfigContext contextName mutate disk paths
      else
        match mutate rawConfig with
        | .error err => .error err
        | .ok config => sys.writeToFile config path disk

-- ======== renaming

/-- The change that `RenameContext` makes in a file. -/
def renameIn (oldName newName : String) (config : Config) :
    Except String Config :=
  if (config.contexts oldName).isNone then
    .error ("context " ++ sys.quote oldName ++ " not found")
  else if (config.contexts newName).isSome then
    .error ("context " ++ sys.quote newName ++ " already exists")
  else
    .ok { config with
      contexts := Function.update
        (Function.update config.contexts newName (config.contexts oldName))
        oldName none
      currentContext :=
        if config.currentContext = oldName then newName
        else config.currentContext }

def renameContext (oldName newName : String) (disk : Disk)
    (client : Client) : Outcome :=
  if h : newName = "" then
    ⟨some "new context name cannot be empty", disk, client⟩
  else if oldName = newName then ⟨none, disk, client⟩
  else
    match sys.modifyKubeconfigContext oldName
        (sys.renameIn oldName newName) disk client.allPaths with
    | .error err => ⟨some err, disk, client⟩
    | .ok disk =>
      ⟨none, disk,
        if oldName = client.currentContext then client.inContext newName h
        else client⟩

end System

-- ======== details

abbrev ClusterDetail := Cluster

structure AuthDetail where
  clientCertificate : String := ""
  clientKey : String := ""
  token : String := ""
  tokenFile : String := ""
  username : String := ""
  impersonate : String := ""
  impersonateGroups : List String := []
  hasExecProvider : Bool := false
  execAPIVersion : String := ""
  execCommand : String := ""
  execArgs : List String := []
  execEnv : List ExecEnvVar := []
  execInstallHint : String := ""
  execProvideCluster : Bool := false
  hasAuthProvider : Bool := false
  authProviderName : String := ""
deriving DecidableEq

structure FullContextDetail where
  name : String
  cluster : String
  authInfo : String
  ns : String
  isActive : Bool
  clusterDetail : ClusterDetail
  authDetail : AuthDetail
deriving DecidableEq

def AuthInfo.detail (auth : AuthInfo) : AuthDetail where
  clientCertificate := auth.clientCertificate
  clientKey := auth.clientKey
  token := auth.token
  tokenFile := auth.tokenFile
  username := auth.username
  impersonate := auth.impersonate
  impersonateGroups := auth.impersonateGroups
  hasExecProvider := auth.exec.isSome
  execAPIVersion := (auth.exec.map (·.apiVersion)).getD ""
  execCommand := (auth.exec.map (·.command)).getD ""
  execArgs := (auth.exec.map (·.args)).getD []
  execEnv := (auth.exec.map (·.env)).getD []
  execInstallHint := (auth.exec.map (·.installHint)).getD ""
  execProvideCluster := (auth.exec.map (·.provideClusterInfo)).getD false
  hasAuthProvider := auth.authProvider.isSome
  authProviderName := auth.authProvider.getD ""

def Config.detail (config : Config) (currentContext name : String)
    (ctx : Context) : FullContextDetail where
  name := name
  cluster := ctx.cluster
  authInfo := ctx.authInfo
  ns := ctx.ns
  isActive := name = currentContext
  clusterDetail := (config.clusters ctx.cluster).getD {}
  authDetail := ((config.authInfos ctx.authInfo).map (·.detail)).getD {}

def System.getFullContextDetail (sys : System) (name : String)
    (disk : Disk) (client : Client) : Except String FullContextDetail :=
  match sys.rawConfig disk client with
  | .error err => .error err
  | .ok config =>
    match config.contexts name with
    | none => .error ("context " ++ sys.quote name ++ " not found")
    | some ctx => .ok (config.detail client.currentContext name ctx)

-- ======== editing

structure ContextUpdateRequest where
  ns : Option String := none
  server : Option String := none
  certificateAuthority : Option String := none
  insecureSkipTLSVerify : Option Bool := none
  proxyURL : Option String := none
  tlsServerName : Option String := none
  disableCompression : Option Bool := none
  clientCertificate : Option String := none
  clientKey : Option String := none
  token : Option String := none
  tokenFile : Option String := none
  username : Option String := none
  impersonate : Option String := none
  execCommand : Option String := none
  execArgs : Option (List String) := none
  execEnv : Option (List ExecEnvVar) := none
  execInstallHint : Option String := none
  setExec : Bool := false

namespace ContextUpdateRequest

variable (req : ContextUpdateRequest)

def context (ctx : Context) : Context :=
  { ctx with ns := req.ns.getD ctx.ns }

def cluster (cluster : Cluster) : Cluster where
  server := req.server.getD cluster.server
  certificateAuthority :=
    req.certificateAuthority.getD cluster.certificateAuthority
  insecureSkipTLSVerify :=
    req.insecureSkipTLSVerify.getD cluster.insecureSkipTLSVerify
  proxyURL := req.proxyURL.getD cluster.proxyURL
  tlsServerName := req.tlsServerName.getD cluster.tlsServerName
  disableCompression :=
    req.disableCompression.getD cluster.disableCompression

def exec (exec : ExecConfig) : ExecConfig :=
  { exec with
    command := req.execCommand.getD exec.command
    args := req.execArgs.getD exec.args
    env := req.execEnv.getD exec.env
    installHint := req.execInstallHint.getD exec.installHint }

/-- The fields of a user. -/
def auth (auth : AuthInfo) : AuthInfo :=
  { auth with
    clientCertificate := req.clientCertificate.getD auth.clientCertificate
    clientKey := req.clientKey.getD auth.clientKey
    token := req.token.getD auth.token
    tokenFile := req.tokenFile.getD auth.tokenFile
    username := req.username.getD auth.username
    impersonate := req.impersonate.getD auth.impersonate
    exec :=
      if req.setExec then some (req.exec (auth.exec.getD {}))
      else auth.exec }

end ContextUpdateRequest

namespace System

variable (sys : System)

/-- The change that `UpdateContextDetail` makes in a file. -/
def updateIn (name : String) (req : ContextUpdateRequest)
    (config : Config) : Except String Config :=
  match config.contexts name with
  | none => .error ("context " ++ sys.quote name ++ " not found")
  | some ctx =>
    .ok { config with
      contexts :=
        Function.update config.contexts name (some (req.context ctx))
      clusters := Function.update config.clusters ctx.cluster
        ((config.clusters ctx.cluster).map req.cluster)
      authInfos := Function.update config.authInfos ctx.authInfo
        ((config.authInfos ctx.authInfo).map req.auth) }

/-- `SwitchContext`, where its connections are rebuilt without an error or
with this one. -/
def switchContext (err : Option String) (name : String) (disk : Disk)
    (client : Client) : Outcome :=
  match err with
  | some err => ⟨some err, disk, client⟩
  | none =>
    if h : name = "" then
      match sys.rawConfig disk client with
      | .error err => ⟨some err, disk, client⟩
      | .ok config =>
        if h : config.currentContext = "" then
          ⟨some "failed to determine current context", disk, client⟩
        else ⟨none, disk, client.inContext config.currentContext h⟩
    else ⟨none, disk, client.inContext name h⟩

def updateContextDetail (switchErr : Option String) (name : String)
    (req : ContextUpdateRequest) (disk : Disk) (client : Client) :
    Outcome :=
  match sys.modifyKubeconfigContext name (sys.updateIn name req) disk
      client.allPaths with
  | .error err => ⟨some err, disk, client⟩
  | .ok disk =>
    if name = client.currentContext then
      sys.switchContext switchErr name disk client
    else ⟨none, disk, client⟩

end System

end Kubeconfig
