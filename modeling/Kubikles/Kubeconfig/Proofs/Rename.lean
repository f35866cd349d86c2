/-
What a renamed context is in the merged configuration.

# The argument

The first file that has the old name is changed, and nothing else. The new
name then maps to what the old one did, unless a file before that one has
the new name too; the old name is gone, unless another file has it; and the
current context is changed only if that file sets it (`renames_iff`). The
file that is changed is asked whether it has the new name, the others are
not.
-/
import Kubikles.Kubeconfig.Proofs.Merge

namespace Kubeconfig

variable {sys : System} {disk disk' : Disk} {client : Client}
  {oldName newName : String}

def Config.clusterOf (config : Config) (name : String) : Option String :=
  (config.contexts name).map (·.cluster)

/-- The new name is what the old one was, nothing else has changed, and the
current context is of the same cluster. -/
structure IsRename (before after : Config) (oldName newName : String) :
    Prop where
  renamed : after.contexts newName = before.contexts oldName
  gone : after.contexts oldName = none
  others : ∀ name, name ≠ oldName → name ≠ newName →
    after.contexts name = before.contexts name
  clusters : after.clusters = before.clusters
  authInfos : after.authInfos = before.authInfos
  current : after.clusterOf after.currentContext
    = before.clusterOf before.currentContext

def earlierFiles (sys : System) (disk : Disk) (client : Client)
    (name : String) : List String :=
  client.allPaths.takeWhile fun path =>
    (contextAt sys disk name path).isNone

def fileOf (sys : System) (disk : Disk) (client : Client) (name : String) :
    Option String :=
  client.allPaths.find? fun path => (contextAt sys disk name path).isSome

/-- The first file that has a context has it for its current one, and no
file before has a current one. -/
def SetsCurrent (sys : System) (disk : Disk) (client : Client)
    (name : String) : Prop :=
  (earlierFiles sys disk client name).findSome? (currentAt sys disk) = none
    ∧ ∃ file config, fileOf sys disk client name = some file
      ∧ sys.configAt disk file = some config
      ∧ config.currentContext = name

/-- When a context that is renamed is renamed in the merged configuration:
that one loads, only one file has the old name, no file before it maps the
new name to something else, and the current context is that of this file if
it is the old name, and of the same cluster if it is the new one. -/
structure Renames (sys : System) (disk : Disk) (client : Client)
    (oldName newName : String) : Prop where
  loads : Loads disk client
  alone : ∀ p ∈ client.allPaths, ∀ q ∈ client.allPaths,
    contextAt sys disk oldName p ≠ none →
    contextAt sys disk oldName q ≠ none → p = q
  unhidden : ∀ ctx, (earlierFiles sys disk client oldName).findSome?
      (contextAt sys disk newName) = some ctx →
    (merged sys disk client).contexts oldName = some ctx
  sets : SetsCurrent sys disk client oldName →
    (merged sys disk client).clusterOf
        (merged sys disk client).currentContext
      = (merged sys disk client).clusterOf oldName
  keeps : ¬ SetsCurrent sys disk client oldName →
    (merged sys disk client).currentContext ≠ oldName
      ∧ ((merged sys disk client).currentContext = newName →
        (merged sys disk client).clusterOf newName
          = (merged sys disk client).clusterOf oldName)

-- ======== what is changed

theorem renameIn_ok {config config' : Config}
    (h : sys.renameIn oldName newName config = .ok config') :
    config.contexts newName = none
      ∧ config' = { config with
        contexts := Function.update
          (Function.update config.contexts newName
            (config.contexts oldName)) oldName none
        currentContext :=
          if config.currentContext = oldName then newName
          else config.currentContext } := by
  unfold System.renameIn at h
  split at h
  · cases h
  · split at h
    · cases h
    next hnew =>
      injection h with h
      exact ⟨by simpa using hnew, h.symm⟩

section

variable {before after : List String} {file : String}
  {config config' : Config}
  (h : Changed sys oldName (sys.renameIn oldName newName) client.allPaths
    disk disk' before file after config config')

include h

theorem Changed.contextAt_renamed (name : String) :
    contextAt sys disk' name file
      = if name = oldName then none
        else if name = newName then config.contexts oldName
        else config.contexts name := by
  obtain ⟨-, rfl⟩ := renameIn_ok h.change
  unfold contextAt
  rw [h.configAt_file]
  show Function.update (Function.update config.contexts newName _) _ _ name
    = _
  unfold Function.update
  simp

theorem Changed.clusterAt_renamed (name path : String) :
    clusterAt sys disk' name path = clusterAt sys disk name path := by
  by_cases hne : path = file
  · obtain ⟨-, rfl⟩ := renameIn_ok h.change
    unfold clusterAt
    rw [hne, h.configAt_file, h.config_eq]
    exact h.resolved.clusters name
  · exact h.clusterAt_other name path hne

theorem Changed.authAt_renamed (name path : String) :
    authAt sys disk' name path = authAt sys disk name path := by
  by_cases hne : path = file
  · obtain ⟨-, rfl⟩ := renameIn_ok h.change
    unfold authAt
    rw [hne, h.configAt_file, h.config_eq]
    exact h.resolved.authInfos name
  · exact h.authAt_other name path hne

theorem Changed.currentAt_renamed (hnew : newName ≠ "") :
    currentAt sys disk' file
      = if config.currentContext = oldName then some newName
        else currentAt sys disk file := by
  obtain ⟨-, rfl⟩ := renameIn_ok h.change
  unfold currentAt
  rw [h.configAt_file, h.config_eq]
  show (if (if config.currentContext = oldName then newName
      else config.currentContext) = "" then none else some _) = _
  by_cases hold : config.currentContext = oldName
  · rw [if_pos hold, if_neg hnew, if_pos hold]
    rfl
  · rw [if_neg hold, if_neg hold]
    rfl

-- ======== what is merged

/-- The clusters and users of the merged configuration are what they
were. -/
theorem Changed.merged_renamed :
    (merged sys disk' client).clusters = (merged sys disk client).clusters
      ∧ (merged sys disk' client).authInfos
        = (merged sys disk client).authInfos := by
  constructor
  · funext name
    rw [merged_clusters, merged_clusters]
    exact Overlay.findSome?_congr fun path _ =>
      h.clusterAt_renamed name path
  · funext name
    rw [merged_authInfos, merged_authInfos]
    exact Overlay.findSome?_congr fun path _ => h.authAt_renamed name path

theorem Changed.merged_others {name : String} (hold : name ≠ oldName)
    (hnew : name ≠ newName) :
    (merged sys disk' client).contexts name
      = (merged sys disk client).contexts name := by
  rw [merged_contexts, merged_contexts]
  refine Overlay.findSome?_congr fun path _ => ?_
  by_cases hne : path = file
  · rw [hne, h.contextAt_renamed, if_neg hold, if_neg hnew,
      h.contextAt_eq]
  · exact h.contextAt_other name path hne

theorem Changed.merged_old :
    (merged sys disk client).contexts oldName = config.contexts oldName := by
  rw [merged_contexts, h.findSome?_eq]

theorem Changed.merged_new_iff (hne : oldName ≠ newName) :
    (merged sys disk' client).contexts newName
        = (merged sys disk client).contexts oldName
      ↔ ∀ ctx, (earlierFiles sys disk client oldName).findSome?
          (contextAt sys disk newName) = some ctx →
        (merged sys disk client).contexts oldName = some ctx := by
  have hbefore : earlierFiles sys disk client oldName = before :=
    h.takeWhile_eq
  rw [merged_contexts, hbefore, h.merged_old, h.paths_eq]
  obtain ⟨ctx, hctx⟩ := Option.ne_none_iff_exists'.mp h.has
  have hhere : contextAt sys disk' newName file = some ctx := by
    rw [h.contextAt_renamed, if_neg hne.symm, if_pos rfl, hctx]
  have hother := h.contextAt_other newName
  cases hfirst : before.findSome? (contextAt sys disk newName) with
  | none =>
    rw [Overlay.findSome?_of_here hother h.not_mem_before hfirst hhere,
      hctx]
    simp
  | some ctx' =>
    rw [Overlay.findSome?_of_before hother h.not_mem_before hfirst, hctx]
    simp [eq_comm]

theorem Changed.merged_gone_iff :
    (merged sys disk' client).contexts oldName = none
      ↔ ∀ p ∈ client.allPaths, ∀ q ∈ client.allPaths,
        contextAt sys disk oldName p ≠ none →
        contextAt sys disk oldName q ≠ none → p = q := by
  have hgone : contextAt sys disk' oldName file = none := by
    rw [h.contextAt_renamed, if_pos rfl]
  have hfile : contextAt sys disk oldName file ≠ none := by
    rw [h.contextAt_eq]
    exact h.has
  have hmem : file ∈ client.allPaths := by
    rw [h.paths_eq]
    exact List.mem_append_right _ List.mem_cons_self
  have hall := Overlay.findSome?_of_gone before after
    (h.contextAt_other oldName) hgone
  rw [← h.paths_eq] at hall
  rw [merged_contexts, hall]
  constructor
  · intro hnone
    have honly : ∀ p ∈ client.allPaths,
        contextAt sys disk oldName p ≠ none → p = file := by
      intro p hp hsome
      by_contra hne
      exact hsome (hnone p hp hne)
    intro p hp q hq hpsome hqsome
    rw [honly p hp hpsome, honly q hq hqsome]
  · intro halone p hp hne
    by_contra hsome
    exact hne (halone p hp file hmem hsome hfile)

theorem Changed.setsCurrent_iff :
    SetsCurrent sys disk client oldName
      ↔ before.findSome? (currentAt sys disk) = none
        ∧ config.currentContext = oldName := by
  have hbefore : earlierFiles sys disk client oldName = before :=
    h.takeWhile_eq
  have hfile : fileOf sys disk client oldName = some file := h.find?_eq
  unfold SetsCurrent
  rw [hbefore, hfile]
  constructor
  · rintro ⟨hnone, file', config'', hfile', hconfig, hcurrent⟩
    injection hfile' with hfile'
    rw [← hfile', h.config_eq] at hconfig
    injection hconfig with hconfig
    exact ⟨hnone, hconfig ▸ hcurrent⟩
  · rintro ⟨hnone, hcurrent⟩
    exact ⟨hnone, file, config, rfl, h.config_eq, hcurrent⟩

theorem Changed.merged_current_of_sets (hnew : newName ≠ "")
    (hsets : SetsCurrent sys disk client oldName) :
    (merged sys disk' client).currentContext = newName := by
  obtain ⟨hnone, hcurrent⟩ := h.setsCurrent_iff.mp hsets
  have hhere : currentAt sys disk' file = some newName := by
    rw [h.currentAt_renamed hnew, if_pos hcurrent]
  rw [merged_currentContext, h.paths_eq,
    Overlay.findSome?_of_here h.currentAt_other h.not_mem_before hnone hhere]
  rfl

theorem Changed.merged_current_of_not_sets (hnew : newName ≠ "")
    (hsets : ¬ SetsCurrent sys disk client oldName) :
    (merged sys disk' client).currentContext
      = (merged sys disk client).currentContext := by
  rw [h.setsCurrent_iff, not_and] at hsets
  rw [merged_currentContext, merged_currentContext, h.paths_eq]
  cases hfirst : before.findSome? (currentAt sys disk) with
  | some current =>
    rw [Overlay.findSome?_of_before h.currentAt_other h.not_mem_before
      hfirst, Overlay.findSome?_split, hfirst]
    rfl
  | none =>
    congr 1
    refine Overlay.findSome?_congr fun path _ => ?_
    by_cases hne : path = file
    · rw [hne, h.currentAt_renamed hnew, if_neg (hsets hfirst)]
    · exact h.currentAt_other path hne

/-- A change of the file is a renaming in the merged configuration. -/
theorem Changed.isRename_iff (hnew : newName ≠ "") (hne : oldName ≠ newName)
    (hloads : Loads disk client) :
    IsRename (merged sys disk client) (merged sys disk' client) oldName
        newName
      ↔ Renames sys disk client oldName newName := by
  obtain ⟨hclusters, hauthInfos⟩ := h.merged_renamed
  obtain ⟨ctx, hctx⟩ := Option.ne_none_iff_exists'.mp h.has
  have hold : (merged sys disk client).clusterOf oldName
      = some ctx.cluster := by
    unfold Config.clusterOf
    rw [h.merged_old, hctx]
    rfl
  constructor
  · intro hrename
    have hcluster : (merged sys disk' client).clusterOf newName
        = (merged sys disk client).clusterOf oldName :=
      congrArg (Option.map _) hrename.renamed
    have hcurrent := hrename.current
    refine ⟨hloads, h.merged_gone_iff.mp hrename.gone,
      (h.merged_new_iff hne).mp hrename.renamed, fun hsets => ?_,
      fun hsets => ?_⟩
    · rw [h.merged_current_of_sets hnew hsets, hcluster] at hcurrent
      exact hcurrent.symm
    · rw [h.merged_current_of_not_sets hnew hsets] at hcurrent
      refine ⟨fun hisold => ?_, fun hisnew => ?_⟩
      · rw [hisold, hold] at hcurrent
        unfold Config.clusterOf at hcurrent
        rw [hrename.gone] at hcurrent
        cases hcurrent
      · rw [hisnew, hcluster] at hcurrent
        exact hcurrent.symm
  · intro hrenames
    have hrenamed := (h.merged_new_iff hne).mpr hrenames.unhidden
    have hcluster : (merged sys disk' client).clusterOf newName
        = (merged sys disk client).clusterOf oldName :=
      congrArg (Option.map _) hrenamed
    refine ⟨hrenamed, h.merged_gone_iff.mpr hrenames.alone,
      fun name hname hname' => h.merged_others hname hname', hclusters,
      hauthInfos, ?_⟩
    by_cases hsets : SetsCurrent sys disk client oldName
    · rw [h.merged_current_of_sets hnew hsets, hcluster]
      exact (hrenames.sets hsets).symm
    · rw [h.merged_current_of_not_sets hnew hsets]
      obtain ⟨hnotold, hisnew⟩ := hrenames.keeps hsets
      by_cases hcurrent : (merged sys disk client).currentContext = newName
      · rw [hcurrent, hcluster]
        exact (hisnew hcurrent).symm
      · exact congrArg (Option.map _) (h.merged_others hnotold hcurrent)

end

-- ======== the result

/-- A renaming without an error changes the first file that has the
context. -/
theorem renameContext_changed (hnew : newName ≠ "") (hne : oldName ≠ newName)
    (hok : (sys.renameContext oldName newName disk client).err = none) :
    ∃ before file after config config',
      Changed sys oldName (sys.renameIn oldName newName) client.allPaths disk
        (sys.renameContext oldName newName disk client).disk before file
        after config config' := by
  unfold System.renameContext at hok ⊢
  rw [dif_neg hnew, if_neg hne] at hok ⊢
  cases hmodify : sys.modifyKubeconfigContext oldName
      (sys.renameIn oldName newName) disk client.allPaths with
  | error err =>
    rw [hmodify] at hok
    cases hok
  | ok disk' => exact modify_changed hmodify

theorem renameContext_allPaths :
    (sys.renameContext oldName newName disk client).client.allPaths
        = client.allPaths
      ∧ (sys.renameContext oldName newName disk client).client.getLoadingRules
        = client.getLoadingRules := by
  unfold System.renameContext
  split
  · exact ⟨rfl, rfl⟩
  · split
    · exact ⟨rfl, rfl⟩
    · split
      · exact ⟨rfl, rfl⟩
      · dsimp only
        split <;> exact ⟨rfl, rfl⟩

/-- A context that is renamed without an error is renamed in the merged
configuration if and only if that one loads, no other file has the old
name, no file before has the new one for something else, and the current
context is not the old name of another file or the new name of another
cluster. -/
theorem renames_iff (sys : System) (disk : Disk) (client : Client)
    (oldName newName : String) (hnew : newName ≠ "")
    (hne : oldName ≠ newName)
    (hok : (sys.renameContext oldName newName disk client).err = none) :
    (∃ before after, sys.rawConfig disk client = .ok before
        ∧ sys.rawConfig
          (sys.renameContext oldName newName disk client).disk
          (sys.renameContext oldName newName disk client).client = .ok after
        ∧ IsRename before after oldName newName)
      ↔ Renames sys disk client oldName newName := by
  obtain ⟨before, file, after, config, config', h⟩ :=
    renameContext_changed hnew hne hok
  have hrules : ∀ disk', sys.rawConfig disk'
      (sys.renameContext oldName newName disk client).client
        = sys.rawConfig disk' client := by
    intro disk'
    unfold System.rawConfig
    rw [renameContext_allPaths.2]
  rw [hrules]
  constructor
  · rintro ⟨_, _, hbefore, hafter, hrename⟩
    obtain ⟨hloads, rfl⟩ := rawConfig_iff.mp hbefore
    obtain ⟨-, rfl⟩ := rawConfig_iff.mp hafter
    exact (h.isRename_iff hnew hne hloads).mp hrename
  · intro hrenames
    have hloads := hrenames.loads
    exact ⟨_, _, rawConfig_iff.mpr ⟨hloads, rfl⟩,
      rawConfig_iff.mpr ⟨h.loads_iff.mpr hloads, rfl⟩,
      (h.isRename_iff hnew hne hloads).mpr hrenames⟩

-- ======== two files

def oneContext (name : String) : File :=
  .config
    { contexts := Function.update (fun _ => none) name
        (some { cluster := name ++ "-cluster", authInfo := name ++ "-user" })
      currentContext := name }

def prodAndDev : Disk := fun path =>
  if path = "/home/user/.kube/config" then some (oneContext "prod")
  else if path = "/home/user/extra" then some (oneContext "dev")
  else none

/-- The equivalence, of them. -/
theorem renames_iff_prodAndDev :
    (∃ before after, unix.rawConfig prodAndDev twoFiles = .ok before
        ∧ unix.rawConfig
          (unix.renameContext "dev" "test" prodAndDev twoFiles).disk
          (unix.renameContext "dev" "test" prodAndDev twoFiles).client
            = .ok after
        ∧ IsRename before after "dev" "test")
      ↔ Renames unix prodAndDev twoFiles "dev" "test" :=
  renames_iff unix prodAndDev twoFiles "dev" "test" (by decide) (by decide)
    (by decide)

/-- Renamed to the name of one in the first file, the context of the second
is not found under any name. -/
theorem renamed_context_hidden :
    ∃ sys disk client oldName newName before after,
      newName ≠ "" ∧ oldName ≠ newName
        ∧ (System.renameContext sys oldName newName disk client).err = none
        ∧ sys.rawConfig disk client = .ok before
        ∧ sys.rawConfig
          (sys.renameContext oldName newName disk client).disk
          (sys.renameContext oldName newName disk client).client = .ok after
        ∧ after.contexts newName ≠ before.contexts oldName
        ∧ ¬ IsRename before after oldName newName := by
  have hhidden : (merged unix
      (unix.renameContext "dev" "prod" prodAndDev twoFiles).disk
      (unix.renameContext "dev" "prod" prodAndDev twoFiles).client).contexts
        "prod" ≠ (merged unix prodAndDev twoFiles).contexts "dev" := by
    decide
  exact ⟨unix, prodAndDev, twoFiles, "dev", "prod", _, _, by decide,
    by decide, by decide, rfl, rfl, hhidden, fun h => hhidden h.renamed⟩

end Kubeconfig
