/-
What the merged configuration says, and what a change to a file does to it.

# The argument

Each file says of a name what it maps to, and the first that says something
counts (`rawConfig_iff`). A change goes to the first file that has a context
(`modify_cases`), so that nothing before it says anything of that context;
of any other name a file before it may, and then the change is not seen.
-/
import Kubikles.Lib.Overlay
import Kubikles.Kubeconfig.Contexts

namespace Kubeconfig

variable {sys : System} {disk : Disk} {client : Client}

-- ======== paths

namespace System

theorem resolve_resolve (file path : String) :
    sys.resolve file (sys.resolve file path) = sys.resolve file path := by
  unfold resolve
  by_cases h : path = "" ∨ sys.isAbs path = true
  · rw [if_pos h, if_pos h]
  · rw [if_neg h, if_pos (.inr (sys.isAbs_join file path))]

theorem resolveCluster_resolveCluster (file : String) (cluster : Cluster) :
    sys.resolveCluster file (sys.resolveCluster file cluster)
      = sys.resolveCluster file cluster := by
  simp [resolveCluster, resolve_resolve]

theorem resolveCommand_resolveCommand (file command : String) :
    sys.resolveCommand file (sys.resolveCommand file command)
      = sys.resolveCommand file command := by
  unfold resolveCommand
  by_cases h : sys.hasSeparator command = true
  · rw [if_pos h, resolve_resolve, ite_self]
  · rw [if_neg h, if_neg h]

theorem resolveAuthInfo_resolveAuthInfo (file : String)
    (authInfo : AuthInfo) :
    sys.resolveAuthInfo file (sys.resolveAuthInfo file authInfo)
      = sys.resolveAuthInfo file authInfo := by
  cases hexec : authInfo.exec <;>
    simp [resolveAuthInfo, resolve_resolve, resolveCommand_resolveCommand,
      hexec]

end System

structure Resolved (sys : System) (file : String) (config : Config) :
    Prop where
  clusters : ∀ name,
    (config.clusters name).map (sys.resolveCluster file)
      = config.clusters name
  authInfos : ∀ name,
    (config.authInfos name).map (sys.resolveAuthInfo file)
      = config.authInfos name

theorem resolved_resolveConfig (file : String) (config : Config) :
    Resolved sys file (sys.resolveConfig file config) where
  clusters name := by
    show ((config.clusters name).map _).map _ = (config.clusters name).map _
    rw [Option.map_map]
    congr 1
    exact funext (sys.resolveCluster_resolveCluster file)
  authInfos name := by
    show ((config.authInfos name).map _).map _
      = (config.authInfos name).map _
    rw [Option.map_map]
    congr 1
    exact funext (sys.resolveAuthInfo_resolveAuthInfo file)

-- ======== places

def contextAt (sys : System) (disk : Disk) (name path : String) :
    Option Context :=
  (sys.configAt disk path).bind (·.contexts name)

def clusterAt (sys : System) (disk : Disk) (name path : String) :
    Option Cluster :=
  (sys.configAt disk path).bind (·.clusters name)

def authAt (sys : System) (disk : Disk) (name path : String) :
    Option AuthInfo :=
  (sys.configAt disk path).bind (·.authInfos name)

def currentAt (sys : System) (disk : Disk) (path : String) :
    Option String :=
  (sys.configAt disk path).bind fun config =>
    if config.currentContext = "" then none else some config.currentContext

def merged (sys : System) (disk : Disk) (client : Client) : Config :=
  System.merge (client.allPaths.filterMap (sys.configAt disk))

/-- No file is broken, and there is one if there are no extra paths. -/
structure Loads (disk : Disk) (client : Client) : Prop where
  errs : ∀ path ∈ client.allPaths, System.errAt disk path = none
  primary : client.extraKubeconfigPaths = [] → client.primary ≠ "" →
    disk client.primary ≠ none

theorem load_precedence {paths : List String} {config : Config} :
    sys.load disk (.precedence paths) = .ok config
      ↔ (∀ path ∈ paths, System.errAt disk path = none)
        ∧ config = System.merge (paths.filterMap (sys.configAt disk)) := by
  rw [← List.findSome?_eq_none_iff, System.load]
  cases paths.findSome? (System.errAt disk) with
  | some err => simp
  | none => simp [eq_comm]

theorem load_explicitPath {path : String} {config : Config} :
    sys.load disk (.explicitPath path) = .ok config
      ↔ (path ≠ "" → disk path ≠ none)
        ∧ System.errAt disk path = none
        ∧ config = System.merge
          ([path].filterMap (sys.configAt disk)) := by
  have hone : [path].filterMap (sys.configAt disk)
      = (sys.configAt disk path).toList := by
    cases h : sys.configAt disk path <;> simp [h]
  rw [hone, System.load]
  by_cases hmissing : path ≠ "" ∧ (disk path).isNone
  · rw [if_pos hmissing]
    refine iff_of_false (by simp) fun h => ?_
    exact h.1 hmissing.1 (Option.isNone_iff_eq_none.mp hmissing.2)
  · rw [if_neg hmissing]
    have hthere : path ≠ "" → disk path ≠ none := by
      intro hne hnone
      exact hmissing ⟨hne, by rw [hnone]; rfl⟩
    cases System.errAt disk path with
    | some err => simp
    | none =>
      refine ⟨fun h => ⟨hthere, rfl, ?_⟩, fun h => congrArg _ h.2.2.symm⟩
      injection h with h
      exact h.symm

theorem rawConfig_iff {config : Config} :
    sys.rawConfig disk client = .ok config
      ↔ Loads disk client ∧ config = merged sys disk client := by
  unfold System.rawConfig Client.getLoadingRules merged
  by_cases hextra : client.extraKubeconfigPaths = []
  · have hpaths : client.allPaths = [client.primary] := by
      unfold Client.allPaths
      rw [hextra]
    rw [if_pos hextra, load_explicitPath, hpaths]
    constructor
    · rintro ⟨hprimary, herr, rfl⟩
      refine ⟨⟨fun path hpath => ?_, fun _ => hprimary⟩, rfl⟩
      rw [hpaths] at hpath
      rw [List.mem_singleton.mp hpath]
      exact herr
    · rintro ⟨⟨herrs, hprimary⟩, rfl⟩
      exact ⟨hprimary hextra,
        herrs _ (by rw [hpaths]; exact List.mem_singleton_self _), rfl⟩
  · rw [if_neg hextra, load_precedence]
    constructor
    · rintro ⟨herrs, rfl⟩
      exact ⟨⟨herrs, fun h => absurd h hextra⟩, rfl⟩
    · rintro ⟨⟨herrs, -⟩, rfl⟩
      exact ⟨herrs, rfl⟩

-- ======== what is merged

theorem merged_contexts (name : String) :
    (merged sys disk client).contexts name
      = client.allPaths.findSome? (contextAt sys disk name) :=
  Overlay.findSome?_filterMap

theorem merged_clusters (name : String) :
    (merged sys disk client).clusters name
      = client.allPaths.findSome? (clusterAt sys disk name) :=
  Overlay.findSome?_filterMap

theorem merged_authInfos (name : String) :
    (merged sys disk client).authInfos name
      = client.allPaths.findSome? (authAt sys disk name) :=
  Overlay.findSome?_filterMap

theorem find?_currentContext (configs : List Config) :
    (configs.map (·.currentContext)).find? (· ≠ "")
      = configs.findSome? fun config =>
        if config.currentContext = "" then none
        else some config.currentContext := by
  induction configs with
  | nil => rfl
  | cons config configs ih =>
    rw [List.map_cons, List.find?_cons, List.findSome?_cons, ih]
    by_cases h : config.currentContext = ""
    · simp [h]
    · simp [h]

theorem merged_currentContext :
    (merged sys disk client).currentContext
      = (client.allPaths.findSome? (currentAt sys disk)).getD "" := by
  unfold merged System.merge
  dsimp only
  rw [find?_currentContext, Overlay.findSome?_filterMap]
  rfl

-- ======== a change

theorem configAt_eq_some {path : String} {config : Config} :
    sys.configAt disk path = some config
      ↔ path ≠ "" ∧ ∃ config', disk path = some (.config config')
        ∧ sys.resolveConfig path config' = config := by
  unfold System.configAt System.fileAt
  by_cases hpath : path = ""
  · simp [hpath]
  · rw [if_neg hpath]
    cases hfile : disk path with
    | none => simp
    | some file =>
      cases file with
      | broken err => simp
      | config config' => simp [hpath]

theorem load_contexts {path : String} {config : Config}
    (h : sys.load disk (.explicitPath path) = .ok config) (name : String) :
    config.contexts name = contextAt sys disk name path := by
  obtain ⟨-, -, rfl⟩ := load_explicitPath.mp h
  unfold contextAt
  cases hconfig : sys.configAt disk path <;>
    simp [hconfig, System.merge]

theorem contextAt_of_load_error {path err : String}
    (h : sys.load disk (.explicitPath path) = .error err) (name : String) :
    contextAt sys disk name path = none := by
  by_contra hne
  obtain ⟨config, hconfig⟩ : ∃ config, sys.configAt disk path = some config
    := by
    unfold contextAt at hne
    cases hconfig : sys.configAt disk path with
    | none => simp [hconfig] at hne
    | some config => exact ⟨config, rfl⟩
  obtain ⟨hpath, config', hfile, -⟩ := configAt_eq_some.mp hconfig
  have hload : sys.load disk (.explicitPath path)
      = .ok (System.merge ([path].filterMap (sys.configAt disk))) := by
    refine load_explicitPath.mpr ⟨fun _ => by simp [hfile], ?_, rfl⟩
    unfold System.errAt System.fileAt
    rw [if_neg hpath, hfile]
  rw [h] at hload
  cases hload

theorem merge_singleton (config : Config) :
    System.merge [config] = config := by
  have hcurrent : ([config].map (·.currentContext)).find? (· ≠ "")
      = if config.currentContext = "" then none
        else some config.currentContext := by
    rw [find?_currentContext, List.findSome?_singleton]
  unfold System.merge
  rw [hcurrent]
  cases config with
  | mk clusters authInfos contexts currentContext =>
    simp only [List.findSome?_singleton]
    split <;> simp_all

/-- A file is the first of some that has a context, and a change is made to
it. -/
structure Changed (sys : System) (name : String)
    (mutate : Config → Except String Config) (paths : List String)
    (disk disk' : Disk) (before : List String) (file : String)
    (after : List String) (config config' : Config) : Prop where
  paths_eq : paths = before ++ file :: after
  earlier : ∀ path ∈ before, contextAt sys disk name path = none
  config_eq : sys.configAt disk file = some config
  has : config.contexts name ≠ none
  change : mutate config = .ok config'
  disk_eq : disk' = Function.update disk file (some (.config config'))

/-- A change goes to the first file that has the context. -/
theorem modify_changed {name : String}
    {mutate : Config → Except String Config} {paths : List String}
    {disk' : Disk}
    (h : sys.modifyKubeconfigContext name mutate disk paths = .ok disk') :
    ∃ before file after config config',
      Changed sys name mutate paths disk disk' before file after config
        config' := by
  induction paths with
  | nil => cases h
  | cons path paths ih =>
    -- A file without the context comes before.
    have hskip : contextAt sys disk name path = none →
        sys.modifyKubeconfigContext name mutate disk paths = .ok disk' →
        ∃ before file after config config', Changed sys name mutate
          (path :: paths) disk disk' before file after config config' := by
      intro hnone hrest
      obtain ⟨before, file, after, config, config', hchanged⟩ := ih hrest
      refine ⟨path :: before, file, after, config, config',
        { hchanged with
          paths_eq := by rw [hchanged.paths_eq]; rfl
          earlier := ?_ }⟩
      intro q hq
      rcases List.mem_cons.mp hq with rfl | hq
      · exact hnone
      · exact hchanged.earlier q hq
    rw [System.modifyKubeconfigContext] at h
    cases hload : sys.load disk (.explicitPath path) with
    | error err =>
      rw [hload] at h
      exact hskip (contextAt_of_load_error hload name) h
    | ok loaded =>
      rw [hload] at h
      dsimp only at h
      have hcontext := load_contexts hload name
      split at h
      next hnone =>
        rw [hcontext, Option.isNone_iff_eq_none] at hnone
        exact hskip hnone h
      next hsome =>
        cases hconfig : sys.configAt disk path with
        | none =>
          unfold contextAt at hcontext
          rw [hconfig] at hcontext
          exact absurd (by rw [hcontext]; rfl) hsome
        | some config =>
          have hloaded : loaded = config := by
            rw [(load_explicitPath.mp hload).2.2,
              List.filterMap_cons_some hconfig, List.filterMap_nil,
              merge_singleton]
          rw [hloaded] at h hsome
          cases hmutate : mutate config with
          | error err =>
            rw [hmutate] at h
            cases h
          | ok config' =>
            rw [hmutate] at h
            dsimp only at h
            unfold System.writeToFile at h
            split at h
            · cases h
            · refine ⟨[], path, paths, config, config', rfl,
                by simp, hconfig, fun hnone => hsome ?_, hmutate,
                ?_⟩
              · rw [hnone]
                rfl
              · injection h with h
                exact h.symm

namespace Changed

variable {name : String} {mutate : Config → Except String Config}
  {paths : List String} {disk' : Disk} {before after : List String}
  {file : String} {config config' : Config}

theorem contextAt_eq
    (h : Changed sys name mutate paths disk disk' before file after config
      config') (n : String) :
    contextAt sys disk n file = config.contexts n := by
  unfold contextAt
  rw [h.config_eq]
  rfl

theorem not_mem_before
    (h : Changed sys name mutate paths disk disk' before file after config
      config') : file ∉ before := by
  intro hmem
  have hnone := h.earlier file hmem
  rw [h.contextAt_eq] at hnone
  exact h.has hnone

theorem takeWhile_eq
    (h : Changed sys name mutate paths disk disk' before file after config
      config') :
    paths.takeWhile (fun path => (contextAt sys disk name path).isNone)
      = before := by
  rw [h.paths_eq, List.takeWhile_append_of_pos, List.takeWhile_cons_of_neg,
    List.append_nil]
  · rw [h.contextAt_eq, Option.isNone_iff_eq_none]
    exact h.has
  · intro path hpath
    rw [h.earlier path hpath]
    rfl

theorem find?_eq
    (h : Changed sys name mutate paths disk disk' before file after config
      config') :
    paths.find? (fun path => (contextAt sys disk name path).isSome)
      = some file := by
  rw [h.paths_eq, List.find?_append, List.find?_eq_none.mpr,
    List.find?_cons_of_pos]
  · rfl
  · rw [h.contextAt_eq, Option.isSome_iff_ne_none]
    exact h.has
  · intro path hpath
    rw [h.earlier path hpath]
    simp

theorem findSome?_eq
    (h : Changed sys name mutate paths disk disk' before file after config
      config') :
    paths.findSome? (contextAt sys disk name) = config.contexts name := by
  rw [h.paths_eq, Overlay.findSome?_split,
    List.findSome?_eq_none_iff.mpr h.earlier, h.contextAt_eq]
  cases hcontext : config.contexts name with
  | none => exact absurd hcontext h.has
  | some ctx => rfl

theorem configAt_file
    (h : Changed sys name mutate paths disk disk' before file after config
      config') :
    sys.configAt disk' file = some (sys.resolveConfig file config') := by
  refine configAt_eq_some.mpr ⟨(configAt_eq_some.mp h.config_eq).1, config',
    ?_, rfl⟩
  rw [h.disk_eq, Function.update_self]

theorem disk_other
    (h : Changed sys name mutate paths disk disk' before file after config
      config') {path : String} (hne : path ≠ file) :
    disk' path = disk path := by
  rw [h.disk_eq, Function.update_of_ne hne]

theorem configAt_other
    (h : Changed sys name mutate paths disk disk' before file after config
      config') {path : String} (hne : path ≠ file) :
    sys.configAt disk' path = sys.configAt disk path := by
  unfold System.configAt System.fileAt
  rw [h.disk_other hne]

theorem contextAt_other
    (h : Changed sys name mutate paths disk disk' before file after config
      config') (n path : String) (hne : path ≠ file) :
    contextAt sys disk' n path = contextAt sys disk n path := by
  unfold contextAt
  rw [h.configAt_other hne]

theorem clusterAt_other
    (h : Changed sys name mutate paths disk disk' before file after config
      config') (n path : String) (hne : path ≠ file) :
    clusterAt sys disk' n path = clusterAt sys disk n path := by
  unfold clusterAt
  rw [h.configAt_other hne]

theorem authAt_other
    (h : Changed sys name mutate paths disk disk' before file after config
      config') (n path : String) (hne : path ≠ file) :
    authAt sys disk' n path = authAt sys disk n path := by
  unfold authAt
  rw [h.configAt_other hne]

theorem currentAt_other
    (h : Changed sys name mutate paths disk disk' before file after config
      config') (path : String) (hne : path ≠ file) :
    currentAt sys disk' path = currentAt sys disk path := by
  unfold currentAt
  rw [h.configAt_other hne]

theorem resolved
    (h : Changed sys name mutate paths disk disk' before file after config
      config') : Resolved sys file config := by
  obtain ⟨-, c, -, rfl⟩ := configAt_eq_some.mp h.config_eq
  exact resolved_resolveConfig file c

theorem loads_iff
    (h : Changed sys name mutate client.allPaths disk disk' before file
      after config config') : Loads disk' client ↔ Loads disk client := by
  have hpath := (configAt_eq_some.mp h.config_eq).1
  obtain ⟨c, hc⟩ : ∃ c, disk file = some (.config c) :=
    (configAt_eq_some.mp h.config_eq).2.imp fun _ h => h.1
  have hc' : disk' file = some (.config config') := by
    rw [h.disk_eq, Function.update_self]
  have herr : ∀ path, System.errAt disk' path = System.errAt disk path := by
    intro path
    unfold System.errAt System.fileAt
    by_cases hfile : path = file
    · rw [hfile, if_neg hpath, if_neg hpath, hc, hc']
    · rw [h.disk_other hfile]
  have hthere : ∀ path, disk' path ≠ none ↔ disk path ≠ none := by
    intro path
    by_cases hfile : path = file
    · rw [hfile, hc, hc']
      simp
    · rw [h.disk_other hfile]
  constructor
  · intro hloads
    exact ⟨fun path hmem => herr path ▸ hloads.errs path hmem,
      fun hextra hne => (hthere _).mp (hloads.primary hextra hne)⟩
  · intro hloads
    exact ⟨fun path hmem => (herr path).symm ▸ hloads.errs path hmem,
      fun hextra hne => (hthere _).mpr (hloads.primary hextra hne)⟩

end Changed

-- ======== two files

def unix : System where
  isAbs path := path.toList.head? = some '/'
  hasSeparator command := command.toList.contains '/'
  join _ path := "/home/user/.kube/" ++ path
  isAbs_join _ path := by simp [String.toList_append]
  writeErr _ := none
  quote name := "\"" ++ name ++ "\""

def twoFiles : Client where
  primary := "/home/user/.kube/config"
  extraKubeconfigPaths := ["/home/user/extra"]
  currentContext := "prod"
  named := by decide

end Kubeconfig
