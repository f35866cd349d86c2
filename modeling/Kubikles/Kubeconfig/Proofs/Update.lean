/-
What is shown of a context that was edited.

# The argument

The context is edited in the first file that has it, and so it is seen. The
cluster and the user that it names are edited in that file too, if it has
them; they are seen if no file before has them (`Reaches`). A path that is
not absolute is shown as it is resolved, and of an exec plugin nothing is
edited unless that is asked for. Other contexts change only by the cluster
or the user that they share (`updates_iff`).
-/
import Kubikles.Kubeconfig.Proofs.Merge

namespace Kubeconfig

variable {sys : System} {disk disk' : Disk} {client : Client}
  {name : String} {req : ContextUpdateRequest}

-- ======== the statement

def ContextUpdateRequest.authDetail (req : ContextUpdateRequest)
    (detail : AuthDetail) : AuthDetail :=
  { detail with
    clientCertificate :=
      req.clientCertificate.getD detail.clientCertificate
    clientKey := req.clientKey.getD detail.clientKey
    token := req.token.getD detail.token
    tokenFile := req.tokenFile.getD detail.tokenFile
    username := req.username.getD detail.username
    impersonate := req.impersonate.getD detail.impersonate
    hasExecProvider := detail.hasExecProvider || req.setExec
    execCommand := req.execCommand.getD detail.execCommand
    execArgs := req.execArgs.getD detail.execArgs
    execEnv := req.execEnv.getD detail.execEnv
    execInstallHint := req.execInstallHint.getD detail.execInstallHint }

/-- What a request asks to be shown of its context. -/
def ContextUpdateRequest.detail (req : ContextUpdateRequest)
    (detail : FullContextDetail) : FullContextDetail :=
  { detail with
    ns := req.ns.getD detail.ns
    clusterDetail := req.cluster detail.clusterDetail
    authDetail := req.authDetail detail.authDetail }

/-- What it may change of another context: what is shown of a cluster or a
user that the two share. -/
def ContextUpdateRequest.other (req : ContextUpdateRequest)
    (detail other : FullContextDetail) : FullContextDetail :=
  { other with
    clusterDetail :=
      if other.cluster = detail.cluster then req.cluster detail.clusterDetail
      else other.clusterDetail
    authDetail :=
      if other.authInfo = detail.authInfo then
        req.authDetail detail.authDetail
      else other.authDetail }

/-- A context is shown as the request asks, and others as they were but for
what they share with it. -/
def ShowsUpdate (sys : System) (name : String) (req : ContextUpdateRequest)
    (disk : Disk) (client : Client) (disk' : Disk) (client' : Client) :
    Prop :=
  ∃ detail, sys.getFullContextDetail name disk client = .ok detail
    ∧ sys.getFullContextDetail name disk' client' = .ok (req.detail detail)
    ∧ ∀ other, other ≠ name →
      sys.getFullContextDetail other disk' client'
        = (sys.getFullContextDetail other disk client).map
          (req.other detail)

-- ======== the condition

/-- The first file that has a context, and what it maps it to. -/
def DefinedIn (sys : System) (disk : Disk) (client : Client)
    (name file : String) (ctx : Context) : Prop :=
  client.allPaths.find? (fun path =>
      (contextAt sys disk name path).isSome) = some file
    ∧ contextAt sys disk name file = some ctx

/-- What a file says of an entry counts: it says something, and no file
before the first with the context does. -/
def Reaches {V : Type} (sys : System) (disk : Disk) (client : Client)
    (name : String) (entryAt : String → Option V) (file : String) : Prop :=
  entryAt file ≠ none
    ∧ ∀ path ∈ client.allPaths.takeWhile (fun path =>
        (contextAt sys disk name path).isNone), entryAt path = none

/-- The paths for a user that are asked for are shown as they are, and an
exec plugin is edited if something of it is asked for that is not shown. -/
structure Literal (sys : System) (file : String)
    (req : ContextUpdateRequest) (detail : AuthDetail) : Prop where
  clientCertificate : ∀ path, req.clientCertificate = some path →
    sys.resolve file path = path
  clientKey : ∀ path, req.clientKey = some path →
    sys.resolve file path = path
  tokenFile : ∀ path, req.tokenFile = some path →
    sys.resolve file path = path
  command : req.setExec = true → ∀ command,
    req.execCommand = some command →
      sys.resolveCommand file command = command
  exec : req.setExec = false →
    req.execCommand.getD detail.execCommand = detail.execCommand
      ∧ req.execArgs.getD detail.execArgs = detail.execArgs
      ∧ req.execEnv.getD detail.execEnv = detail.execEnv
      ∧ req.execInstallHint.getD detail.execInstallHint
        = detail.execInstallHint

/-- When an edited context, in its first file, is shown as the request
asks: the configuration loads, and the cluster and the user either count as
that file has them and are asked for literally, or nothing is asked of them
that is not shown. -/
structure Updates (sys : System) (disk : Disk) (client : Client)
    (name : String) (req : ContextUpdateRequest) (file : String)
    (ctx : Context) : Prop where
  loads : Loads disk client
  cluster_reached :
    Reaches sys disk client name (clusterAt sys disk ctx.cluster) file →
      ∀ path, req.certificateAuthority = some path →
        sys.resolve file path = path
  cluster_missed :
    ¬ Reaches sys disk client name (clusterAt sys disk ctx.cluster) file →
      req.cluster (((merged sys disk client).clusters ctx.cluster).getD {})
        = ((merged sys disk client).clusters ctx.cluster).getD {}
  auth_reached :
    Reaches sys disk client name (authAt sys disk ctx.authInfo) file →
      Literal sys file req
        ((((merged sys disk client).authInfos ctx.authInfo).map
          (·.detail)).getD {})
  auth_missed :
    ¬ Reaches sys disk client name (authAt sys disk ctx.authInfo) file →
      req.authDetail ((((merged sys disk client).authInfos
          ctx.authInfo).map (·.detail)).getD {})
        = ((((merged sys disk client).authInfos ctx.authInfo).map
          (·.detail)).getD {})

-- ======== entries

theorem resolve_getD {file path : String} (asked : Option String)
    (h : sys.resolve file path = path) :
    sys.resolve file (asked.getD path) = asked.getD path
      ↔ ∀ p, asked = some p → sys.resolve file p = p := by
  cases asked with
  | none => simpa using h
  | some p => simp

theorem resolveCommand_getD {file command : String}
    (asked : Option String) (h : sys.resolveCommand file command = command) :
    sys.resolveCommand file (asked.getD command) = asked.getD command
      ↔ ∀ c, asked = some c → sys.resolveCommand file c = c := by
  cases asked with
  | none => simpa using h
  | some c => simp

theorem resolveCluster_eq_iff {file : String} {cluster : Cluster}
    (h : sys.resolveCluster file cluster = cluster) :
    sys.resolveCluster file (req.cluster cluster) = req.cluster cluster
      ↔ ∀ path, req.certificateAuthority = some path →
        sys.resolve file path = path := by
  rw [← resolve_getD req.certificateAuthority
    (congrArg Cluster.certificateAuthority h)]
  unfold System.resolveCluster ContextUpdateRequest.cluster
  simp

theorem exec_detail_of_not_set {file : String} {auth : AuthInfo}
    (h : sys.resolveAuthInfo file auth = auth)
    (hset : req.setExec = false) :
    (sys.resolveAuthInfo file (req.auth auth)).exec = auth.exec := by
  have hexec := congrArg AuthInfo.exec h
  unfold System.resolveAuthInfo ContextUpdateRequest.auth at *
  simp [hset] at hexec ⊢
  exact hexec

theorem resolveCommand_exec {file : String} {auth : AuthInfo}
    (h : sys.resolveAuthInfo file auth = auth) :
    sys.resolveCommand file (auth.exec.getD {}).command
      = (auth.exec.getD {}).command := by
  have hexec := congrArg AuthInfo.exec h
  unfold System.resolveAuthInfo at hexec
  dsimp only at hexec
  cases hauth : auth.exec with
  | none =>
    unfold System.resolveCommand System.resolve
    simp
  | some exec =>
    rw [hauth] at hexec
    injection hexec with hexec
    exact congrArg ExecConfig.command hexec

theorem exec_detail (auth : AuthInfo) :
    auth.detail.execCommand = (auth.exec.getD {}).command
      ∧ auth.detail.execArgs = (auth.exec.getD {}).args
      ∧ auth.detail.execEnv = (auth.exec.getD {}).env
      ∧ auth.detail.execInstallHint = (auth.exec.getD {}).installHint
      ∧ auth.detail.execAPIVersion = (auth.exec.getD {}).apiVersion
      ∧ auth.detail.execProvideCluster
        = (auth.exec.getD {}).provideClusterInfo := by
  unfold AuthInfo.detail
  cases auth.exec <;> exact ⟨rfl, rfl, rfl, rfl, rfl, rfl⟩

/-- When an edited user is shown as asked for. -/
theorem detail_eq_iff {file : String} {auth : AuthInfo}
    (h : sys.resolveAuthInfo file auth = auth) :
    (sys.resolveAuthInfo file (req.auth auth)).detail
        = req.authDetail auth.detail
      ↔ Literal sys file req auth.detail := by
  have hcertificate := resolve_getD req.clientCertificate
    (congrArg AuthInfo.clientCertificate h)
  have hkey := resolve_getD req.clientKey
    (congrArg AuthInfo.clientKey h)
  have htokenFile := resolve_getD req.tokenFile
    (congrArg AuthInfo.tokenFile h)
  cases hset : req.setExec with
  | false =>
    have hexec := exec_detail_of_not_set h hset
    unfold AuthInfo.detail ContextUpdateRequest.authDetail
    rw [hexec]
    simp only [System.resolveAuthInfo, ContextUpdateRequest.auth,
      AuthDetail.mk.injEq, hset, Bool.or_false, true_and, and_true,
      hcertificate, hkey, htokenFile]
    constructor
    · rintro ⟨hc, hk, ht, hcommand, hargs, henv, hhint⟩
      exact ⟨hc, hk, ht, fun hset' => by simp [hset] at hset',
        fun _ => ⟨hcommand.symm, hargs.symm, henv.symm, hhint.symm⟩⟩
    · rintro ⟨hc, hk, ht, -, hexec⟩
      obtain ⟨hcommand, hargs, henv, hhint⟩ := hexec hset
      exact ⟨hc, hk, ht, hcommand.symm, hargs.symm, henv.symm,
        hhint.symm⟩
  | true =>
    have hcommand := resolveCommand_getD req.execCommand
      (resolveCommand_exec h)
    obtain ⟨hc, ha, he, hh, hv, hp⟩ := exec_detail auth
    have hlast : Literal sys file req auth.detail
        ↔ (∀ p, req.clientCertificate = some p →
            sys.resolve file p = p)
          ∧ (∀ p, req.clientKey = some p → sys.resolve file p = p)
          ∧ (∀ p, req.tokenFile = some p → sys.resolve file p = p)
          ∧ ∀ c, req.execCommand = some c →
            sys.resolveCommand file c = c := by
      constructor
      · rintro ⟨hc, hk, ht, hx, -⟩
        exact ⟨hc, hk, ht, hx hset⟩
      · rintro ⟨hc, hk, ht, hx⟩
        exact ⟨hc, hk, ht, fun _ => hx, fun hset' => by
          simp [hset] at hset'⟩
    rw [hlast, ← hcertificate, ← hkey, ← htokenFile, ← hcommand]
    unfold ContextUpdateRequest.authDetail
    rw [hc, ha, he, hh, hv, hp]
    simp only [AuthInfo.detail, System.resolveAuthInfo,
      ContextUpdateRequest.auth, ContextUpdateRequest.exec,
      AuthDetail.mk.injEq, hset, if_true, Option.map_some,
      Option.getD_some, Option.isSome_some, Bool.or_true, true_and,
      and_true]

-- ======== what is changed

theorem updateIn_ok {config config' : Config}
    (h : sys.updateIn name req config = .ok config') :
    ∃ ctx, config.contexts name = some ctx
      ∧ config' = { config with
        contexts :=
          Function.update config.contexts name (some (req.context ctx))
        clusters := Function.update config.clusters ctx.cluster
          ((config.clusters ctx.cluster).map req.cluster)
        authInfos := Function.update config.authInfos ctx.authInfo
          ((config.authInfos ctx.authInfo).map req.auth) } := by
  unfold System.updateIn at h
  cases hctx : config.contexts name with
  | none =>
    rw [hctx] at h
    cases h
  | some ctx =>
    rw [hctx] at h
    injection h with h
    exact ⟨ctx, rfl, h.symm⟩

section

variable {before after : List String} {file : String}
  {config config' : Config} {ctx : Context}
  (h : Changed sys name (sys.updateIn name req) client.allPaths disk disk'
    before file after config config')
  (hctx : config.contexts name = some ctx)

include h hctx

theorem Changed.config_updated :
    config' = { config with
      contexts :=
        Function.update config.contexts name (some (req.context ctx))
      clusters := Function.update config.clusters ctx.cluster
        ((config.clusters ctx.cluster).map req.cluster)
      authInfos := Function.update config.authInfos ctx.authInfo
        ((config.authInfos ctx.authInfo).map req.auth) } := by
  obtain ⟨ctx', hctx', hconfig⟩ := updateIn_ok h.change
  rw [hctx] at hctx'
  injection hctx' with hctx'
  rw [hconfig, hctx']

theorem Changed.contextAt_updated (n : String) :
    contextAt sys disk' n file
      = if n = name then some (req.context ctx) else config.contexts n := by
  unfold contextAt
  rw [h.configAt_file, h.config_updated hctx]
  show Function.update config.contexts name _ n = _
  unfold Function.update
  simp

theorem Changed.clusterAt_updated (n : String) :
    clusterAt sys disk' n file
      = if n = ctx.cluster then
          (config.clusters n).map fun cluster =>
            sys.resolveCluster file (req.cluster cluster)
        else config.clusters n := by
  unfold clusterAt
  rw [h.configAt_file, h.config_updated hctx]
  show (Function.update config.clusters ctx.cluster _ n).map _ = _
  by_cases hn : n = ctx.cluster
  · rw [hn, Function.update_self, if_pos rfl, Option.map_map]
    rfl
  · rw [Function.update_of_ne hn, if_neg hn]
    exact h.resolved.clusters n

theorem Changed.authAt_updated (n : String) :
    authAt sys disk' n file
      = if n = ctx.authInfo then
          (config.authInfos n).map fun auth =>
            sys.resolveAuthInfo file (req.auth auth)
        else config.authInfos n := by
  unfold authAt
  rw [h.configAt_file, h.config_updated hctx]
  show (Function.update config.authInfos ctx.authInfo _ n).map _ = _
  by_cases hn : n = ctx.authInfo
  · rw [hn, Function.update_self, if_pos rfl, Option.map_map]
    rfl
  · rw [Function.update_of_ne hn, if_neg hn]
    exact h.resolved.authInfos n

-- ======== what is merged

theorem Changed.merged_contexts_updated (n : String) :
    (merged sys disk' client).contexts n
      = if n = name then some (req.context ctx)
        else (merged sys disk client).contexts n := by
  rw [merged_contexts, merged_contexts]
  by_cases hn : n = name
  · have hhere : contextAt sys disk' name file
        = some (req.context ctx) := by
      rw [h.contextAt_updated hctx, if_pos rfl]
    rw [if_pos hn, hn, h.paths_eq]
    exact Overlay.findSome?_of_here (h.contextAt_other name)
      h.not_mem_before (List.findSome?_eq_none_iff.mpr h.earlier) hhere
  · rw [if_neg hn]
    refine Overlay.findSome?_congr fun path _ => ?_
    by_cases hne : path = file
    · rw [hne, h.contextAt_updated hctx, if_neg hn, h.contextAt_eq]
    · exact h.contextAt_other n path hne

theorem Changed.merged_clusters_other {n : String} (hn : n ≠ ctx.cluster) :
    (merged sys disk' client).clusters n
      = (merged sys disk client).clusters n := by
  rw [merged_clusters, merged_clusters]
  refine Overlay.findSome?_congr fun path _ => ?_
  by_cases hne : path = file
  · rw [hne, h.clusterAt_updated hctx, if_neg hn]
    unfold clusterAt
    rw [h.config_eq]
    rfl
  · exact h.clusterAt_other n path hne

theorem Changed.merged_authInfos_other {n : String}
    (hn : n ≠ ctx.authInfo) :
    (merged sys disk' client).authInfos n
      = (merged sys disk client).authInfos n := by
  rw [merged_authInfos, merged_authInfos]
  refine Overlay.findSome?_congr fun path _ => ?_
  by_cases hne : path = file
  · rw [hne, h.authAt_updated hctx, if_neg hn]
    unfold authAt
    rw [h.config_eq]
    rfl
  · exact h.authAt_other n path hne

omit hctx in
theorem Changed.reaches_iff {V : Type} (entryAt : String → Option V) :
    Reaches sys disk client name entryAt file
      ↔ entryAt file ≠ none ∧ ∀ path ∈ before, entryAt path = none := by
  unfold Reaches
  rw [h.takeWhile_eq]

theorem Changed.cluster_shown_iff :
    ((merged sys disk' client).clusters ctx.cluster).getD {}
        = req.cluster
          (((merged sys disk client).clusters ctx.cluster).getD {})
      ↔ (Reaches sys disk client name (clusterAt sys disk ctx.cluster) file →
          ∀ path, req.certificateAuthority = some path →
            sys.resolve file path = path)
        ∧ (¬ Reaches sys disk client name (clusterAt sys disk ctx.cluster)
            file →
          req.cluster
              (((merged sys disk client).clusters ctx.cluster).getD {})
            = ((merged sys disk client).clusters ctx.cluster).getD {}) := by
  have hfile : clusterAt sys disk ctx.cluster file
      = config.clusters ctx.cluster := by
    unfold clusterAt
    rw [h.config_eq]
    rfl
  have hedited := Overlay.edited_iff (h.clusterAt_other ctx.cluster)
    h.not_mem_before {} id req.cluster
    (fun cluster => sys.resolveCluster file (req.cluster cluster)) after
    (by rw [h.clusterAt_updated hctx, if_pos rfl, hfile])
  rw [← h.paths_eq, ← merged_clusters, ← merged_clusters, Option.map_id_fun,
    id, id, ← h.reaches_iff] at hedited
  rw [hedited]
  refine and_congr_left' (imp_congr_right fun hreaches => ?_)
  obtain ⟨cluster, hcluster⟩ := Option.ne_none_iff_exists'.mp hreaches.1
  have hresolved : sys.resolveCluster file cluster = cluster := by
    have hall := h.resolved.clusters ctx.cluster
    rw [← hfile, hcluster] at hall
    exact Option.some.inj hall
  rw [← resolveCluster_eq_iff hresolved, hcluster]
  simp

/-- And when the user is. -/
theorem Changed.auth_shown_iff :
    (((merged sys disk' client).authInfos ctx.authInfo).map
          (·.detail)).getD {}
        = req.authDetail ((((merged sys disk client).authInfos
          ctx.authInfo).map (·.detail)).getD {})
      ↔ (Reaches sys disk client name (authAt sys disk ctx.authInfo) file →
          Literal sys file req
            ((((merged sys disk client).authInfos ctx.authInfo).map
              (·.detail)).getD {}))
        ∧ (¬ Reaches sys disk client name (authAt sys disk ctx.authInfo)
            file →
          req.authDetail ((((merged sys disk client).authInfos
              ctx.authInfo).map (·.detail)).getD {})
            = (((merged sys disk client).authInfos ctx.authInfo).map
              (·.detail)).getD {}) := by
  have hfile : authAt sys disk ctx.authInfo file
      = config.authInfos ctx.authInfo := by
    unfold authAt
    rw [h.config_eq]
    rfl
  have hedited := Overlay.edited_iff (h.authAt_other ctx.authInfo)
    h.not_mem_before {} (·.detail) req.authDetail
    (fun auth => sys.resolveAuthInfo file (req.auth auth)) after
    (by rw [h.authAt_updated hctx, if_pos rfl, hfile])
  rw [← h.paths_eq, ← merged_authInfos, ← merged_authInfos,
    ← h.reaches_iff] at hedited
  rw [hedited]
  refine and_congr_left' (imp_congr_right fun hreaches => ?_)
  obtain ⟨hhere, hnone⟩ := (h.reaches_iff _).mp hreaches
  obtain ⟨auth, hauth⟩ := Option.ne_none_iff_exists'.mp hhere
  have hresolved : sys.resolveAuthInfo file auth = auth := by
    have hall := h.resolved.authInfos ctx.authInfo
    rw [← hfile, hauth] at hall
    exact Option.some.inj hall
  have hshown : (merged sys disk client).authInfos ctx.authInfo
      = some auth := by
    rw [merged_authInfos, h.paths_eq]
    exact Overlay.findSome?_of_here (fun _ _ => rfl) h.not_mem_before
      (List.findSome?_eq_none_iff.mpr hnone) hauth
  rw [hshown, hauth]
  show _ ↔ Literal sys file req auth.detail
  rw [← detail_eq_iff hresolved]
  simp

end

-- ======== what is shown

theorem getFullContextDetail_of_loads (hloads : Loads disk client)
    (n : String) :
    sys.getFullContextDetail n disk client
      = match (merged sys disk client).contexts n with
        | none => .error ("context " ++ sys.quote n ++ " not found")
        | some ctx => .ok ((merged sys disk client).detail
            client.currentContext n ctx) := by
  unfold System.getFullContextDetail
  have hraw : sys.rawConfig disk client = .ok (merged sys disk client) :=
    rawConfig_iff.mpr ⟨hloads, rfl⟩
  cases hconfig : sys.rawConfig disk client with
  | error err =>
    rw [hconfig] at hraw
    cases hraw
  | ok config =>
    rw [hconfig] at hraw
    injection hraw with hmerged
    subst hmerged
    rfl

theorem loads_of_detail {n : String} {detail : FullContextDetail}
    (h : sys.getFullContextDetail n disk client = .ok detail) :
    Loads disk client := by
  unfold System.getFullContextDetail at h
  cases hraw : sys.rawConfig disk client with
  | error err =>
    rw [hraw] at h
    cases h
  | ok config => exact (rawConfig_iff.mp hraw).1

/-- A change of the file is shown as the request asks, if the condition
holds, and only then. -/
theorem Changed.showsUpdate_iff {before after : List String} {file : String}
    {config config' : Config} {ctx : Context}
    (h : Changed sys name (sys.updateIn name req) client.allPaths disk disk'
      before file after config config')
    (hctx : config.contexts name = some ctx) :
    ShowsUpdate sys name req disk client disk' client
      ↔ Updates sys disk client name req file ctx := by
  have hbefore : (merged sys disk client).contexts name = some ctx := by
    rw [merged_contexts, h.findSome?_eq, hctx]
  have hnow := h.merged_contexts_updated hctx
  constructor
  · rintro ⟨detail, hdetail, hshown, -⟩
    have hloads := loads_of_detail hdetail
    rw [getFullContextDetail_of_loads hloads, hbefore] at hdetail
    rw [getFullContextDetail_of_loads (h.loads_iff.mpr hloads), hnow,
      if_pos rfl] at hshown
    injection hdetail with hdetail
    injection hshown with hshown
    rw [← hdetail] at hshown
    have hcluster := (h.cluster_shown_iff hctx).mp
      (congrArg FullContextDetail.clusterDetail hshown)
    have hauth := (h.auth_shown_iff hctx).mp
      (congrArg FullContextDetail.authDetail hshown)
    exact ⟨hloads, hcluster.1, hcluster.2, hauth.1, hauth.2⟩
  · intro hupdates
    have hcluster := (h.cluster_shown_iff hctx).mpr
      ⟨hupdates.cluster_reached, hupdates.cluster_missed⟩
    have hauth := (h.auth_shown_iff hctx).mpr
      ⟨hupdates.auth_reached, hupdates.auth_missed⟩
    have hloads := hupdates.loads
    refine ⟨(merged sys disk client).detail client.currentContext name ctx,
      ?_, ?_, fun other hother => ?_⟩
    · rw [getFullContextDetail_of_loads hloads, hbefore]
    · rw [getFullContextDetail_of_loads (h.loads_iff.mpr hloads), hnow,
        if_pos rfl]
      show Except.ok (FullContextDetail.mk _ _ _ _ _
        (((merged sys disk' client).clusters ctx.cluster).getD {})
        ((((merged sys disk' client).authInfos ctx.authInfo).map
          (·.detail)).getD {})) = _
      rw [hcluster, hauth]
      rfl
    · rw [getFullContextDetail_of_loads hloads,
        getFullContextDetail_of_loads (h.loads_iff.mpr hloads), hnow,
        if_neg hother]
      cases (merged sys disk client).contexts other with
      | none => rfl
      | some ctx' =>
        have hcluster' : ((merged sys disk' client).clusters
            ctx'.cluster).getD {}
              = if ctx'.cluster = ctx.cluster then
                  req.cluster (((merged sys disk client).clusters
                    ctx.cluster).getD {})
                else ((merged sys disk client).clusters
                  ctx'.cluster).getD {} := by
          by_cases hsame : ctx'.cluster = ctx.cluster
          · rw [if_pos hsame, hsame, hcluster]
          · rw [if_neg hsame, h.merged_clusters_other hctx hsame]
        have hauth' : (((merged sys disk' client).authInfos
            ctx'.authInfo).map (·.detail)).getD {}
              = if ctx'.authInfo = ctx.authInfo then
                  req.authDetail ((((merged sys disk client).authInfos
                    ctx.authInfo).map (·.detail)).getD {})
                else (((merged sys disk client).authInfos
                  ctx'.authInfo).map (·.detail)).getD {} := by
          by_cases hsame : ctx'.authInfo = ctx.authInfo
          · rw [if_pos hsame, hsame, hauth]
          · rw [if_neg hsame, h.merged_authInfos_other hctx hsame]
        refine congrArg Except.ok ?_
        show FullContextDetail.mk _ _ _ _ _
          (((merged sys disk' client).clusters ctx'.cluster).getD {})
          ((((merged sys disk' client).authInfos ctx'.authInfo).map
            (·.detail)).getD {}) = _
        rw [hcluster', hauth']
        rfl

-- ======== the result

/-- To switch to the context that is the current one changes nothing of the
client that is modelled. -/
theorem switchContext_current {err : Option String} {out : Outcome}
    (h : sys.switchContext err client.currentContext disk client = out)
    (hok : out.err = none) : out.disk = disk ∧ out.client = client := by
  rw [← h] at hok ⊢
  unfold System.switchContext at hok ⊢
  cases err with
  | some err => cases hok
  | none =>
    dsimp only at hok ⊢
    rw [dif_neg client.named]
    exact ⟨rfl, rfl⟩

/-- An edit without an error changes the first file that has the context,
and not the client. -/
theorem updateContextDetail_changed {switchErr : Option String}
    (hok : (sys.updateContextDetail switchErr name req disk client).err
      = none) :
    (sys.updateContextDetail switchErr name req disk client).client = client
      ∧ ∃ before file after config config',
        Changed sys name (sys.updateIn name req) client.allPaths disk
          (sys.updateContextDetail switchErr name req disk client).disk
          before file after config config' := by
  unfold System.updateContextDetail at hok ⊢
  cases hmodify : sys.modifyKubeconfigContext name (sys.updateIn name req)
      disk client.allPaths with
  | error err =>
    rw [hmodify] at hok
    cases hok
  | ok disk' =>
    rw [hmodify] at hok
    dsimp only at hok ⊢
    by_cases hcurrent : name = client.currentContext
    · rw [if_pos hcurrent] at hok ⊢
      rw [hcurrent] at hok ⊢
      obtain ⟨hdisk, hclient⟩ := switchContext_current rfl hok
      rw [hdisk, hclient]
      exact ⟨rfl, modify_changed (hcurrent ▸ hmodify)⟩
    · rw [if_neg hcurrent]
      exact ⟨rfl, modify_changed hmodify⟩

/-- A context that is edited without an error, in the first file that has
it, is shown as the request asks and leaves what others do not share as it
was, if and only if the configuration loads, its cluster and its user either
count as that file has them or are not asked to be anything that they are
not, paths are asked for as they are resolved, and an exec plugin is edited
only on request. -/
theorem updates_iff (sys : System) (disk : Disk) (client : Client)
    (switchErr : Option String) (name : String)
    (req : ContextUpdateRequest)
    (hok : (sys.updateContextDetail switchErr name req disk client).err
      = none) :
    ∃ file ctx, DefinedIn sys disk client name file ctx
      ∧ (ShowsUpdate sys name req disk client
          (sys.updateContextDetail switchErr name req disk client).disk
          (sys.updateContextDetail switchErr name req disk client).client
        ↔ Updates sys disk client name req file ctx) := by
  obtain ⟨hclient, before, file, after, config, config', h⟩ :=
    updateContextDetail_changed hok
  obtain ⟨ctx, hctx, -⟩ := updateIn_ok h.change
  refine ⟨file, ctx, ⟨h.find?_eq, ?_⟩, ?_⟩
  · rw [h.contextAt_eq, hctx]
  · rw [hclient]
    exact h.showsUpdate_iff hctx

-- ======== two files

def splitFiles : Disk := fun path =>
  if path = "/home/user/.kube/config" then
    some (.config
      { clusters := Function.update (fun _ => none) "shared"
          (some { server := "https://old.invalid" }) })
  else if path = "/home/user/extra" then
    some (.config
      { contexts := Function.update (fun _ => none) "dev"
          (some { cluster := "shared", authInfo := "user" }) })
  else none

def newServer : ContextUpdateRequest where
  server := some "https://new.invalid"

/-- The equivalence, of them. -/
theorem updates_iff_newServer :
    ∃ file ctx, DefinedIn unix splitFiles twoFiles "dev" file ctx
      ∧ (ShowsUpdate unix "dev" newServer splitFiles twoFiles
          (unix.updateContextDetail none "dev" newServer splitFiles
            twoFiles).disk
          (unix.updateContextDetail none "dev" newServer splitFiles
            twoFiles).client
        ↔ Updates unix splitFiles twoFiles "dev" newServer file ctx) :=
  updates_iff unix splitFiles twoFiles none "dev" newServer (by decide)

/-- The server of a cluster in another file is not edited, and no error is
returned. -/
theorem server_not_edited :
    ∃ sys disk client name req,
      (System.updateContextDetail sys none name req disk client).err = none
        ∧ req.server = some "https://new.invalid"
        ∧ (∃ detail, sys.getFullContextDetail name
            (sys.updateContextDetail none name req disk client).disk
            (sys.updateContextDetail none name req disk client).client
              = .ok detail
          ∧ detail.clusterDetail.server = "https://old.invalid")
        ∧ ¬ ShowsUpdate sys name req disk client
          (sys.updateContextDetail none name req disk client).disk
          (sys.updateContextDetail none name req disk client).client := by
  refine ⟨unix, splitFiles, twoFiles, "dev", newServer, by decide, rfl,
    ⟨_, rfl, by decide⟩, ?_⟩
  rintro ⟨detail, -, hshown, -⟩
  have hserver : (unix.getFullContextDetail "dev"
      (unix.updateContextDetail none "dev" newServer splitFiles
        twoFiles).disk
      (unix.updateContextDetail none "dev" newServer splitFiles
        twoFiles).client).map (·.clusterDetail.server)
          = .ok "https://new.invalid" := by
    rw [hshown]
    rfl
  exact absurd hserver (by decide)

end Kubeconfig
