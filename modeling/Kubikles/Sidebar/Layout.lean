/-
The layout of the sidebar (frontend/src/constants/menuStructure.ts).

# Membership

`id in ALL_MENU_ITEMS` is asked of a plain object, which has the names that
all objects inherit as well.

# Sections

What is pushed to a section goes to the first one of its id. Icons are left
out.
-/
import Mathlib.Data.List.Perm.Basic
import Mathlib.Data.List.Nodup

namespace Sidebar

structure MenuItemDef where
  id : String
  label : String
  defaultSection : String
  defaultHidden : Bool
deriving DecidableEq

structure MenuSectionDef where
  id : String
  title : String
  items : List String
deriving DecidableEq

structure SidebarLayoutSection where
  id : String
  title : String
  items : List String
  isCustom : Bool := false
  itemLabels : Option (List (String × String)) := none
deriving DecidableEq

def fixedSectionIds : List String := ["custom-resources"]

def defaultMenuSections : List MenuSectionDef :=
  [⟨"metrics", "Metrics",
      ["metrics-overview", "metrics-settings"]⟩,
    ⟨"cluster", "Cluster",
      ["nodes", "namespaces", "events", "priorityclasses"]⟩,
    ⟨"workloads", "Workloads",
      ["pods", "deployments", "statefulsets", "daemonsets",
        "replicasets", "jobs", "cronjobs"]⟩,
    ⟨"config", "Config",
      ["configmaps", "secrets", "hpas", "pdbs", "resourcequotas",
        "limitranges", "leases"]⟩,
    ⟨"network", "Network",
      ["services", "endpoints", "endpointslices", "ingresses",
        "ingressclasses", "networkpolicies", "portforwards"]⟩,
    ⟨"storage", "Storage",
      ["pvcs", "pvs", "storageclasses", "csidrivers", "csinodes"]⟩,
    ⟨"helm", "Helm",
      ["helmreleases", "helmrepos"]⟩,
    ⟨"access-control", "Access Control",
      ["serviceaccounts", "roles", "clusterroles", "rolebindings",
        "clusterrolebindings"]⟩,
    ⟨"admission-control", "Admission Control",
      ["validatingwebhooks", "mutatingwebhooks"]⟩,
    ⟨"custom-resources", "Custom Resources",
      ["crds"]⟩,
    ⟨"diagnostics", "Diagnostics",
      ["flow-timeline", "multi-log-viewer", "resource-diff",
        "rbac-checker", "issue-detector", "scratchpad", "embedded-browser"]⟩]

/-- `ALL_MENU_ITEMS`, in the order of its entries. -/
def allMenuItems : List MenuItemDef :=
  [⟨"metrics-overview", "Overview", "metrics", false⟩,
    ⟨"metrics-settings", "Settings", "metrics", false⟩,
    ⟨"nodes", "Nodes", "cluster", false⟩,
    ⟨"namespaces", "Namespaces", "cluster", false⟩,
    ⟨"events", "Events", "cluster", false⟩,
    ⟨"priorityclasses", "Priority Classes", "cluster", false⟩,
    ⟨"embedded-browser", "Embedded Browser", "diagnostics", false⟩,
    ⟨"pods", "Pods", "workloads", false⟩,
    ⟨"deployments", "Deployments", "workloads", false⟩,
    ⟨"statefulsets", "StatefulSets", "workloads", false⟩,
    ⟨"daemonsets", "DaemonSets", "workloads", false⟩,
    ⟨"replicasets", "ReplicaSets", "workloads", false⟩,
    ⟨"jobs", "Jobs", "workloads", false⟩,
    ⟨"cronjobs", "CronJobs", "workloads", false⟩,
    ⟨"configmaps", "ConfigMaps", "config", false⟩,
    ⟨"secrets", "Secrets", "config", false⟩,
    ⟨"hpas", "HPAs", "config", false⟩,
    ⟨"pdbs", "PDBs", "config", false⟩,
    ⟨"resourcequotas", "Resource Quotas", "config", false⟩,
    ⟨"limitranges", "Limit Ranges", "config", false⟩,
    ⟨"leases", "Leases", "config", false⟩,
    ⟨"services", "Services", "network", false⟩,
    ⟨"endpoints", "Endpoints", "network", false⟩,
    ⟨"endpointslices", "Endpoint Slices", "network", false⟩,
    ⟨"ingresses", "Ingresses", "network", false⟩,
    ⟨"ingressclasses", "Ingress Classes", "network", false⟩,
    ⟨"networkpolicies", "Network Policies", "network", false⟩,
    ⟨"portforwards", "Port Forwards", "network", false⟩,
    ⟨"pvcs", "PVCs", "storage", false⟩,
    ⟨"pvs", "PVs", "storage", false⟩,
    ⟨"storageclasses", "Storage Classes", "storage", false⟩,
    ⟨"csidrivers", "CSI Drivers", "storage", false⟩,
    ⟨"csinodes", "CSI Nodes", "storage", false⟩,
    ⟨"helmreleases", "Releases", "helm", false⟩,
    ⟨"helmrepos", "Chart Sources", "helm", false⟩,
    ⟨"serviceaccounts", "Service Accounts", "access-control", false⟩,
    ⟨"roles", "Roles", "access-control", false⟩,
    ⟨"clusterroles", "Cluster Roles", "access-control", false⟩,
    ⟨"rolebindings", "Role Bindings", "access-control", false⟩,
    ⟨"clusterrolebindings", "Cluster Role Bindings",
      "access-control", false⟩,
    ⟨"validatingwebhooks", "Validating Webhooks",
      "admission-control", false⟩,
    ⟨"mutatingwebhooks", "Mutating Webhooks", "admission-control", false⟩,
    ⟨"flow-timeline", "Flow Timeline", "diagnostics", false⟩,
    ⟨"multi-log-viewer", "Multi-Pod Logs", "diagnostics", false⟩,
    ⟨"resource-diff", "Resource Diff", "diagnostics", false⟩,
    ⟨"rbac-checker", "RBAC Checker", "diagnostics", false⟩,
    ⟨"issue-detector", "Issue Detector", "diagnostics", false⟩,
    ⟨"scratchpad", "Scratch Pad", "diagnostics", false⟩,
    ⟨"crds", "Definitions", "custom-resources", false⟩]

/-- What every object has. -/
def inheritedNames : List String :=
  ["constructor", "__defineGetter__", "__defineSetter__", "hasOwnProperty",
    "__lookupGetter__", "__lookupSetter__", "isPrototypeOf",
    "propertyIsEnumerable", "toString", "valueOf", "__proto__",
    "toLocaleString"]

def registered (id : String) : Bool := allMenuItems.any (·.id = id)

/-- `id in ALL_MENU_ITEMS`. -/
def inAllMenuItems (id : String) : Bool :=
  registered id || inheritedNames.contains id

/-- A section keeps its items of the registry. -/
def SidebarLayoutSection.known (s : SidebarLayoutSection) :
    SidebarLayoutSection :=
  { s with items := s.items.filter inAllMenuItems }

def SidebarLayoutSection.stays (s : SidebarLayoutSection) : Bool :=
  0 < s.items.length || s.isCustom || fixedSectionIds.contains s.id

def prune (storedLayout : List SidebarLayoutSection) :
    List SidebarLayoutSection :=
  (storedLayout.map SidebarLayoutSection.known).filter
    SidebarLayoutSection.stays

def ensureFixed (result : List SidebarLayoutSection) (fixedId : String) :
    List SidebarLayoutSection :=
  if result.any (·.id = fixedId) then result
  else
    match defaultMenuSections.find? (·.id = fixedId) with
    | some defaultSec =>
      result ++ [{ id := defaultSec.id, title := defaultSec.title
                   items := defaultSec.items }]
    | none => result

def itemsOf (layout : List SidebarLayoutSection) : List String :=
  layout.flatMap SidebarLayoutSection.items

/-- `targetSection.items.push(id)`. -/
def push (target id : String) :
    List SidebarLayoutSection → List SidebarLayoutSection
  | [] => []
  | s :: rest =>
    if s.id = target then { s with items := s.items ++ [id] } :: rest
    else s :: push target id rest

/-- The loop over the registry: `resultItemIds` are the items that the
layout has before it. -/
def inject (resultItemIds excluded : List String) :
    List MenuItemDef → List SidebarLayoutSection → List String →
      List SidebarLayoutSection × List String
  | [], result, newExcluded => (result, newExcluded)
  | d :: rest, result, newExcluded =>
    if d.id ∈ resultItemIds ∨ d.id ∈ excluded ∨ d.id = "crds" then
      inject resultItemIds excluded rest result newExcluded
    else if d.defaultHidden then
      inject resultItemIds excluded rest result (newExcluded ++ [d.id])
    else
      inject resultItemIds excluded rest
        (push d.defaultSection d.id result) newExcluded

/-- The sections before any item is injected. -/
def base (storedLayout : List SidebarLayoutSection) :
    List SidebarLayoutSection :=
  fixedSectionIds.foldl ensureFixed (prune storedLayout)

/-- `reconcileLayout`: the sections and `newExcluded`. -/
def reconcileLayout (storedLayout : List SidebarLayoutSection)
    (excludedItems : List String) :
    List SidebarLayoutSection × List String :=
  let result := base storedLayout
  inject (itemsOf result) excludedItems allMenuItems result []

-- ======== the purpose

variable {stored result : List SidebarLayoutSection}
variable {excluded : List String} {d : MenuItemDef}

/-- Where some items of the registry are: the sections that have any of
them, with those that they have. -/
def placement (wanted : List String) (layout : List SidebarLayoutSection) :
    List (String × List String) :=
  (layout.map fun s => (s.id, s.items.filter fun id =>
    registered id && wanted.contains id)).filter fun p => p.2 ≠ []

structure Reconciled (stored : List SidebarLayoutSection)
    (excluded : List String) : Prop where
  /-- Every item is in the registry. -/
  known : ∀ id ∈ itemsOf (reconcileLayout stored excluded).1,
    registered id = true
  /-- No item occurs twice. -/
  once : (itemsOf (reconcileLayout stored excluded).1).Nodup
  /-- No item of the registry is lost. -/
  complete : ∀ d ∈ allMenuItems, d.id ≠ "crds" →
    d.id ∈ itemsOf (reconcileLayout stored excluded).1
      ∨ d.id ∈ excluded ∨ d.id ∈ (reconcileLayout stored excluded).2
  /-- The stored items keep their sections and their order. -/
  kept : placement (itemsOf stored) (reconcileLayout stored excluded).1
    = placement (itemsOf stored) stored
  /-- Reconciling again changes nothing. -/
  again : reconcileLayout (reconcileLayout stored excluded).1
      (excluded ++ (reconcileLayout stored excluded).2)
    = ((reconcileLayout stored excluded).1, [])

/-- No stored item has the name of something that every object has, the
section of the definitions is stored if they are, and the default section of
every other item that is neither stored nor excluded is stored and stays. -/
structure Sound (stored : List SidebarLayoutSection)
    (excluded : List String) : Prop where
  names : ∀ id ∈ itemsOf stored, id ∉ inheritedNames
  crds : "crds" ∈ itemsOf stored →
    stored.any (·.id = "custom-resources") = true
  targets : ∀ d ∈ allMenuItems, d.id ≠ "crds" →
    d.id ∉ itemsOf stored → d.id ∉ excluded →
      ∃ s ∈ stored, s.id = d.defaultSection ∧ s.known.stays = true

-- ======== the registry

theorem shown_all : ∀ d ∈ allMenuItems, d.defaultHidden = false := by
  decide

theorem ids_nodup : (allMenuItems.map MenuItemDef.id).Nodup := by decide

theorem not_registered : ∀ id ∈ inheritedNames, registered id = false := by
  decide

theorem crds_registered : registered "crds" = true := by decide

theorem crds_of_section : ∀ d ∈ allMenuItems,
    d.defaultSection = "custom-resources" → d.id = "crds" := by
  decide

theorem registered_of_mem (h : d ∈ allMenuItems) :
    registered d.id = true :=
  List.any_eq_true.mpr ⟨d, h, decide_eq_true rfl⟩

theorem inAllMenuItems_of_registered {id : String}
    (h : registered id = true) : inAllMenuItems id = true := by
  unfold inAllMenuItems
  rw [h, Bool.true_or]

theorem registered_of_inAllMenuItems {id : String}
    (h : inAllMenuItems id = true) (hname : id ∉ inheritedNames) :
    registered id = true := by
  unfold inAllMenuItems at h
  rcases (Bool.or_eq_true ..).mp h with h | h
  · exact h
  · exact absurd (List.contains_iff_mem.mp h) hname

-- ======== pushing

@[simp] theorem itemsOf_cons (s : SidebarLayoutSection)
    (rest : List SidebarLayoutSection) :
    itemsOf (s :: rest) = s.items ++ itemsOf rest := List.flatMap_cons

theorem itemsOf_append (l l' : List SidebarLayoutSection) :
    itemsOf (l ++ l') = itemsOf l ++ itemsOf l' := List.flatMap_append

def has (target : String) (result : List SidebarLayoutSection) : Bool :=
  result.any (·.id = target)

/-- What pushing some items does to sections. -/
structure Grows (ds : List MenuItemDef)
    (result result' : List SidebarLayoutSection) : Prop where
  ids : result'.map SidebarLayoutSection.id
    = result.map SidebarLayoutSection.id
  /-- The items whose section is there are added. -/
  items : (itemsOf result').Perm (itemsOf result
    ++ (ds.filter fun d => has d.defaultSection result).map MenuItemDef.id)
  /-- Others stay where they are. -/
  kept : ∀ wanted : String → Bool, (∀ d ∈ ds, wanted d.id = false) →
    result'.map (fun s => (s.id, s.items.filter wanted))
      = result.map fun s => (s.id, s.items.filter wanted)
  /-- No section gets empty. -/
  stays : (∀ s ∈ result, s.stays = true) → ∀ s ∈ result', s.stays = true

theorem has_of_ids {result' : List SidebarLayoutSection}
    (h : result'.map SidebarLayoutSection.id
      = result.map SidebarLayoutSection.id) (target : String) :
    has target result' = has target result := by
  have hany : ∀ l : List SidebarLayoutSection, has target l
      = (l.map SidebarLayoutSection.id).any fun id => id = target := by
    intro l
    rw [List.any_map]
    rfl
  rw [hany, hany, h]

theorem push_missing {target : String} (id : String)
    (h : has target result = false) : push target id result = result := by
  induction result with
  | nil => rfl
  | cons s rest ih =>
    obtain ⟨hs, hrest⟩ := (Bool.or_eq_false_iff).mp h
    rw [push, if_neg (of_decide_eq_false hs), ih hrest]

theorem grows_push (d : MenuItemDef) (result : List SidebarLayoutSection) :
    Grows [d] result (push d.defaultSection d.id result) := by
  induction result with
  | nil =>
    exact ⟨rfl, .refl _, fun _ _ => rfl, fun h => h⟩
  | cons s rest ih =>
    rw [push]
    by_cases hs : s.id = d.defaultSection
    · rw [if_pos hs]
      have hhas : has d.defaultSection (s :: rest) = true := by
        simp [has, hs]
      constructor
      case ids => rfl
      case items =>
        rw [List.filter_singleton, hhas, itemsOf_cons, itemsOf_cons,
          List.append_assoc, List.append_assoc]
        exact List.perm_append_comm.append_left s.items
      case kept =>
        intro wanted hwanted
        rw [List.map_cons, List.map_cons]
        simp [hwanted d (List.mem_singleton_self d)]
      case stays =>
        intro hall s' hs'
        rcases List.mem_cons.mp hs' with rfl | hs'
        · simp [SidebarLayoutSection.stays]
        · exact hall s' (List.mem_cons_of_mem _ hs')
    · rw [if_neg hs]
      have hhas : has d.defaultSection (s :: rest)
          = has d.defaultSection rest := by simp [has, hs]
      constructor
      case ids => rw [List.map_cons, List.map_cons, ih.ids]
      case items =>
        have hitems := ih.items
        rw [List.filter_singleton] at hitems ⊢
        rw [itemsOf_cons, itemsOf_cons, List.append_assoc, hhas]
        exact hitems.append_left s.items
      case kept =>
        intro wanted hwanted
        rw [List.map_cons, List.map_cons, ih.kept wanted hwanted]
      case stays =>
        intro hall s' hs'
        rcases List.mem_cons.mp hs' with rfl | hs'
        · exact hall s' (List.mem_cons_self ..)
        · exact ih.stays (fun s'' h =>
            hall s'' (List.mem_cons_of_mem _ h)) s' hs'

theorem grows_foldl (ds : List MenuItemDef)
    (result : List SidebarLayoutSection) :
    Grows ds result (ds.foldl (fun result d =>
      push d.defaultSection d.id result) result) := by
  induction ds generalizing result with
  | nil => exact ⟨rfl, by simp, fun _ _ => rfl, fun h => h⟩
  | cons d ds ih =>
    have hone := grows_push d result
    have hmore := ih (push d.defaultSection d.id result)
    have hhas : ∀ target, has target (push d.defaultSection d.id result)
        = has target result := has_of_ids hone.ids
    rw [List.foldl_cons]
    constructor
    case ids => exact hmore.ids.trans hone.ids
    case items =>
      have hitems := hone.items.append_right
        ((ds.filter fun d => has d.defaultSection result).map
          MenuItemDef.id)
      have hmore' := hmore.items
      simp only [hhas] at hmore'
      rw [List.append_assoc, ← List.map_append, ← List.filter_append]
        at hitems
      exact hmore'.trans hitems
    case kept =>
      intro wanted hwanted
      exact (hmore.kept wanted fun d' h =>
        hwanted d' (List.mem_cons_of_mem _ h)).trans
          (hone.kept wanted fun d' h =>
            hwanted d' (List.mem_cons.mpr (.inl (List.mem_singleton.mp h))))
    case stays => exact fun hall => hmore.stays (hone.stays hall)

-- ======== the loop

def isNew (resultItemIds excluded : List String) (d : MenuItemDef) : Bool :=
  ¬ (d.id ∈ resultItemIds ∨ d.id ∈ excluded ∨ d.id = "crds")

theorem inject_eq (resultItemIds excluded : List String)
    {entries : List MenuItemDef}
    (h : ∀ d ∈ entries, d.defaultHidden = false)
    (result : List SidebarLayoutSection) (newExcluded : List String) :
    inject resultItemIds excluded entries result newExcluded
      = ((entries.filter (isNew resultItemIds excluded)).foldl
          (fun result d => push d.defaultSection d.id result) result,
        newExcluded) := by
  induction entries generalizing result with
  | nil => rfl
  | cons d rest ih =>
    have hrest := ih fun d' h' => h d' (List.mem_cons_of_mem _ h')
    rw [inject]
    by_cases hnew : d.id ∈ resultItemIds ∨ d.id ∈ excluded ∨ d.id = "crds"
    · have hthis : ¬ isNew resultItemIds excluded d = true :=
        fun h' => of_decide_eq_true h' hnew
      rw [if_pos hnew, hrest, List.filter_cons_of_neg hthis]
    · have hthis : isNew resultItemIds excluded d = true :=
        decide_eq_true hnew
      rw [if_neg hnew, h d (List.mem_cons_self ..),
        if_neg Bool.false_ne_true, hrest, List.filter_cons_of_pos hthis,
        List.foldl_cons]

def newItems (stored : List SidebarLayoutSection) (excluded : List String) :
    List MenuItemDef :=
  allMenuItems.filter (isNew (itemsOf (base stored)) excluded)

theorem reconcileLayout_eq (stored : List SidebarLayoutSection)
    (excluded : List String) :
    reconcileLayout stored excluded
      = ((newItems stored excluded).foldl
          (fun result d => push d.defaultSection d.id result) (base stored),
        []) :=
  inject_eq _ excluded shown_all (base stored) []

theorem grows_reconcile (stored : List SidebarLayoutSection)
    (excluded : List String) :
    Grows (newItems stored excluded) (base stored)
      (reconcileLayout stored excluded).1 := by
  rw [reconcileLayout_eq]
  exact grows_foldl _ _

theorem mem_newItems :
    d ∈ newItems stored excluded ↔ d ∈ allMenuItems
      ∧ d.id ∉ itemsOf (base stored) ∧ d.id ∉ excluded ∧ d.id ≠ "crds" := by
  unfold newItems isNew
  rw [List.mem_filter]
  simp

theorem mem_itemsOf_reconcile {id : String} :
    id ∈ itemsOf (reconcileLayout stored excluded).1
      ↔ id ∈ itemsOf (base stored)
        ∨ ∃ d ∈ newItems stored excluded,
          has d.defaultSection (base stored) = true ∧ d.id = id := by
  rw [(grows_reconcile stored excluded).items.mem_iff, List.mem_append,
    List.mem_map]
  simp only [List.mem_filter, and_assoc]

-- ======== the base

/-- The section of the definitions, as it is by default. -/
def customResources : SidebarLayoutSection :=
  { id := "custom-resources", title := "Custom Resources"
    items := ["crds"] }

theorem base_eq (stored : List SidebarLayoutSection) :
    base stored = if has "custom-resources" (prune stored) then prune stored
      else prune stored ++ [customResources] := rfl

theorem items_of_not_stays {s : SidebarLayoutSection}
    (h : s.stays ≠ true) : s.items = [] := by
  by_contra hne
  refine h ?_
  unfold SidebarLayoutSection.stays
  rw [decide_eq_true (List.length_pos_iff.mpr hne), Bool.true_or,
    Bool.true_or]

theorem itemsOf_prune (stored : List SidebarLayoutSection) :
    itemsOf (prune stored) = (itemsOf stored).filter inAllMenuItems := by
  induction stored with
  | nil => rfl
  | cons s rest ih =>
    rw [itemsOf_cons, List.filter_append, ← ih]
    unfold prune
    rw [List.map_cons]
    by_cases hs : s.known.stays = true
    · rw [List.filter_cons_of_pos hs, itemsOf_cons]
      rfl
    · rw [List.filter_cons_of_neg hs,
        show s.items.filter inAllMenuItems = [] from items_of_not_stays hs]
      rfl

theorem has_prune {target : String} :
    has target (prune stored) = true
      ↔ ∃ s ∈ stored, s.id = target ∧ s.known.stays = true := by
  unfold has prune
  rw [List.any_eq_true]
  simp only [List.mem_filter, List.mem_map, decide_eq_true_eq]
  constructor
  · rintro ⟨_, ⟨⟨s, hs, rfl⟩, hstays⟩, hid⟩
    exact ⟨s, hs, hid, hstays⟩
  · rintro ⟨s, hs, hid, hstays⟩
    exact ⟨s.known, ⟨⟨s, hs, rfl⟩, hstays⟩, hid⟩

theorem has_crds_prune (stored : List SidebarLayoutSection) :
    has "custom-resources" (prune stored)
      = stored.any (·.id = "custom-resources") := by
  rw [Bool.eq_iff_iff, has_prune, List.any_eq_true]
  constructor
  · rintro ⟨s, hs, hid, -⟩
    exact ⟨s, hs, decide_eq_true hid⟩
  · rintro ⟨s, hs, hid⟩
    refine ⟨s, hs, of_decide_eq_true hid, ?_⟩
    have hfixed : fixedSectionIds.contains s.known.id = true :=
      List.contains_iff_mem.mpr
        (List.mem_singleton.mpr (of_decide_eq_true hid))
    unfold SidebarLayoutSection.stays
    rw [hfixed, Bool.or_true]

theorem stays_base (stored : List SidebarLayoutSection) :
    ∀ s ∈ base stored, s.stays = true := by
  have hprune : ∀ s ∈ prune stored, s.stays = true :=
    fun s hs => (List.mem_filter.mp hs).2
  intro s hs
  rw [base_eq] at hs
  split at hs
  · exact hprune s hs
  · rcases List.mem_append.mp hs with hs | hs
    · exact hprune s hs
    · rw [List.mem_singleton.mp hs]
      rfl

theorem has_crds_base (stored : List SidebarLayoutSection) :
    has "custom-resources" (base stored) = true := by
  rw [base_eq]
  split
  next h => exact h
  next =>
    unfold has
    rw [List.any_append]
    exact Bool.or_true _

theorem has_base {target : String} (h : target ≠ "custom-resources") :
    has target (base stored) = has target (prune stored) := by
  rw [base_eq]
  split
  · rfl
  · have hnot : decide (customResources.id = target) = false :=
      decide_eq_false fun heq => h heq.symm
    unfold has
    rw [List.any_append, List.any_cons, hnot]
    exact Bool.or_false _

theorem mem_itemsOf_base {id : String} :
    id ∈ itemsOf (base stored)
      ↔ (id ∈ itemsOf stored ∧ inAllMenuItems id = true)
        ∨ (id = "crds"
          ∧ stored.any (·.id = "custom-resources") = false) := by
  rw [base_eq, has_crds_prune, ← List.mem_filter, ← itemsOf_prune]
  cases stored.any (·.id = "custom-resources") with
  | true => simp
  | false =>
    rw [if_neg Bool.false_ne_true, itemsOf_append, List.mem_append]
    simp [itemsOf, customResources]

-- ======== again

/-- Where all items are known, all sections stay and the fixed one is there,
there is nothing to prune or to add. -/
theorem base_of_settled (hknown : ∀ id ∈ itemsOf result,
      inAllMenuItems id = true)
    (hstays : ∀ s ∈ result, s.stays = true)
    (hfixed : has "custom-resources" result = true) :
    base result = result := by
  have hsame : result.map SidebarLayoutSection.known = result := by
    refine (List.map_congr_left fun s hs => ?_).trans (List.map_id _)
    show { s with items := s.items.filter inAllMenuItems } = s
    rw [List.filter_eq_self.mpr fun id hid =>
      hknown id (List.mem_flatMap.mpr ⟨s, hs, hid⟩)]
  have hprune : prune result = result := by
    unfold prune
    rw [hsame, List.filter_eq_self.mpr hstays]
  rw [base_eq, hprune, if_pos hfixed]

theorem foldl_push_missing {ds : List MenuItemDef}
    (h : ∀ d ∈ ds, has d.defaultSection result = false) :
    ds.foldl (fun result d => push d.defaultSection d.id result) result
      = result := by
  induction ds with
  | nil => rfl
  | cons d ds ih =>
    rw [List.foldl_cons, push_missing _ (h d (List.mem_cons_self ..))]
    exact ih fun d' h' => h d' (List.mem_cons_of_mem _ h')

theorem inAllMenuItems_reconcile {id : String}
    (h : id ∈ itemsOf (reconcileLayout stored excluded).1) :
    inAllMenuItems id = true := by
  rcases mem_itemsOf_reconcile.mp h with h | ⟨d, hd, -, rfl⟩
  · rcases mem_itemsOf_base.mp h with ⟨-, h⟩ | ⟨rfl, -⟩
    · exact h
    · exact inAllMenuItems_of_registered crds_registered
  · exact inAllMenuItems_of_registered
      (registered_of_mem (mem_newItems.mp hd).1)

theorem reconcile_again (stored : List SidebarLayoutSection)
    (excluded : List String) :
    reconcileLayout (reconcileLayout stored excluded).1
        (excluded ++ (reconcileLayout stored excluded).2)
      = ((reconcileLayout stored excluded).1, []) := by
  have hgrows := grows_reconcile stored excluded
  have hhas := has_of_ids hgrows.ids
  have hbase : base (reconcileLayout stored excluded).1
      = (reconcileLayout stored excluded).1 :=
    base_of_settled (fun _ => inAllMenuItems_reconcile)
      (hgrows.stays (stays_base stored))
      ((hhas _).trans (has_crds_base stored))
  rw [reconcileLayout_eq (reconcileLayout stored excluded).1, hbase,
    foldl_push_missing]
  intro d hd
  obtain ⟨hmem, hnot, hexcluded, hcrds⟩ := mem_newItems.mp hd
  rw [hbase, mem_itemsOf_reconcile] at hnot
  rw [hhas]
  refine Bool.eq_false_iff.mpr fun htarget => hnot (.inr ⟨d, ?_, htarget, rfl⟩)
  exact mem_newItems.mpr ⟨hmem, fun h => hnot (.inl h),
    fun h => hexcluded (List.mem_append_left _ h), hcrds⟩

-- ======== the result

/-- No item occurs twice if none did, and the definitions are in their
section. -/
theorem nodup_reconcile (honce : (itemsOf stored).Nodup)
    (hcrds : "crds" ∈ itemsOf stored →
      stored.any (·.id = "custom-resources") = true) :
    (itemsOf (reconcileLayout stored excluded).1).Nodup := by
  have hbase : (itemsOf (base stored)).Nodup := by
    have hprune : (itemsOf (prune stored)).Nodup := by
      rw [itemsOf_prune]
      exact honce.filter _
    rw [base_eq, has_crds_prune]
    cases hfixed : stored.any (·.id = "custom-resources") with
    | true => exact hprune
    | false =>
      rw [if_neg Bool.false_ne_true, itemsOf_append]
      refine List.Nodup.append hprune (List.nodup_singleton _) ?_
      intro id hid hid'
      rw [itemsOf_prune] at hid
      rw [List.mem_singleton.mp hid'] at hid
      rw [hcrds (List.mem_filter.mp hid).1] at hfixed
      cases hfixed
  rw [(grows_reconcile stored excluded).items.nodup_iff]
  refine List.Nodup.append hbase ?_ ?_
  · exact ids_nodup.sublist
      (((List.filter_sublist).trans List.filter_sublist).map _)
  · intro id hid hnew
    obtain ⟨d, hd, rfl⟩ := List.mem_map.mp hnew
    exact (mem_newItems.mp (List.mem_filter.mp hd).1).2.1 hid

theorem placement_prune (wanted : List String)
    (stored : List SidebarLayoutSection) :
    placement wanted (prune stored) = placement wanted stored := by
  induction stored with
  | nil => rfl
  | cons s rest ih =>
    have hsame : s.known.items.filter
        (fun id => registered id && wanted.contains id)
        = s.items.filter fun id => registered id && wanted.contains id := by
      show (s.items.filter inAllMenuItems).filter _ = _
      rw [List.filter_filter]
      refine List.filter_congr fun id _ => ?_
      cases hreg : registered id with
      | true =>
        rw [inAllMenuItems_of_registered hreg, Bool.and_true]
      | false => rfl
    unfold placement prune at ih ⊢
    rw [List.map_cons]
    by_cases hs : s.known.stays = true
    · rw [List.filter_cons_of_pos hs, List.map_cons, List.map_cons,
        List.filter_cons, List.filter_cons, ih, hsame]
      rfl
    · have hnone : s.items.filter
          (fun id => registered id && wanted.contains id) = [] := by
        rw [← hsame, items_of_not_stays hs]
        rfl
      rw [List.filter_cons_of_neg hs, ih, List.map_cons, hnone]
      rfl

/-- The stored items keep their places, if the definitions are in their
section. -/
theorem placement_reconcile (hcrds : "crds" ∈ itemsOf stored →
      stored.any (·.id = "custom-resources") = true) :
    placement (itemsOf stored) (reconcileLayout stored excluded).1
      = placement (itemsOf stored) stored := by
  have hbase : placement (itemsOf stored) (base stored)
      = placement (itemsOf stored) (prune stored) := by
    rw [base_eq, has_crds_prune]
    cases hfixed : stored.any (·.id = "custom-resources") with
    | true => rfl
    | false =>
      have hnone : "crds" ∉ itemsOf stored := fun h => by
        rw [hcrds h] at hfixed
        cases hfixed
      unfold placement
      rw [if_neg Bool.false_ne_true, List.map_append, List.filter_append]
      simp [customResources, hnone]
  rw [← placement_prune _ stored, ← hbase]
  unfold placement
  rw [(grows_reconcile stored excluded).kept]
  intro d hd
  obtain ⟨-, hnot, -, -⟩ := mem_newItems.mp hd
  refine Bool.eq_false_iff.mpr fun h => ?_
  obtain ⟨hreg, hmem⟩ := (Bool.and_eq_true ..).mp h
  exact hnot (mem_itemsOf_base.mpr (.inl ⟨List.contains_iff_mem.mp hmem,
    inAllMenuItems_of_registered hreg⟩))

/-- A layout in which no item is in two places is reconciled as it is to be
exactly if it is sound. -/
theorem reconciled_iff_sound (stored : List SidebarLayoutSection)
    (excluded : List String) (honce : (itemsOf stored).Nodup) :
    Reconciled stored excluded ↔ Sound stored excluded := by
  constructor
  · intro h
    constructor
    case names =>
      intro id hid hname
      have hin : inAllMenuItems id = true := by
        unfold inAllMenuItems
        rw [List.contains_iff_mem.mpr hname, Bool.or_true]
      have hknown := h.known id (mem_itemsOf_reconcile.mpr
        (.inl (mem_itemsOf_base.mpr (.inl ⟨hid, hin⟩))))
      rw [not_registered id hname] at hknown
      cases hknown
    case crds =>
      intro hmem
      by_contra hfixed
      have hnodup := (grows_reconcile stored excluded).items.nodup_iff.mp
        h.once
      have hbase := (List.nodup_append.mp hnodup).1
      rw [base_eq, has_crds_prune, if_neg hfixed, itemsOf_append,
        itemsOf_prune] at hbase
      have hcrds : "crds" ∈ (itemsOf stored).filter inAllMenuItems :=
        List.mem_filter.mpr
          ⟨hmem, inAllMenuItems_of_registered crds_registered⟩
      exact (List.nodup_append.mp hbase).2.2 _ hcrds _
        (List.mem_singleton_self _) rfl
    case targets =>
      intro d hd hcrds hstored hexcluded
      have hmem : d.id ∈ itemsOf (reconcileLayout stored excluded).1 := by
        rcases h.complete d hd hcrds with hmem | hmem | hmem
        · exact hmem
        · exact absurd hmem hexcluded
        · rw [reconcileLayout_eq] at hmem
          exact absurd hmem List.not_mem_nil
      rcases mem_itemsOf_reconcile.mp hmem with hmem | ⟨d', hd', hhas, hid⟩
      · rcases mem_itemsOf_base.mp hmem with ⟨hmem, -⟩ | ⟨hid, -⟩
        · exact absurd hmem hstored
        · exact absurd hid hcrds
      · -- an id has one entry in the registry
        obtain ⟨hmem', -, -, hcrds'⟩ := mem_newItems.mp hd'
        obtain rfl := List.inj_on_of_nodup_map ids_nodup hmem' hd hid
        rw [has_base fun heq => hcrds' (crds_of_section d' hmem' heq)]
          at hhas
        exact has_prune.mp hhas
  · intro h
    constructor
    case known =>
      intro id hid
      rcases mem_itemsOf_reconcile.mp hid with hid | ⟨d, hd, -, rfl⟩
      · rcases mem_itemsOf_base.mp hid with ⟨hmem, hin⟩ | ⟨rfl, -⟩
        · exact registered_of_inAllMenuItems hin (h.names id hmem)
        · exact crds_registered
      · exact registered_of_mem (mem_newItems.mp hd).1
    case once => exact nodup_reconcile honce h.crds
    case complete =>
      intro d hd hcrds
      by_cases hexcluded : d.id ∈ excluded
      · exact .inr (.inl hexcluded)
      · refine .inl (mem_itemsOf_reconcile.mpr ?_)
        by_cases hbase : d.id ∈ itemsOf (base stored)
        · exact .inl hbase
        · have hstored : d.id ∉ itemsOf stored := fun hmem =>
            hbase (mem_itemsOf_base.mpr (.inl ⟨hmem,
              inAllMenuItems_of_registered (registered_of_mem hd)⟩))
          have hhas := has_prune.mpr
            (h.targets d hd hcrds hstored hexcluded)
          rw [← has_base fun heq => hcrds (crds_of_section d hd heq)]
            at hhas
          exact .inr ⟨d, mem_newItems.mpr ⟨hd, hbase, hexcluded, hcrds⟩,
            hhas, rfl⟩
    case kept => exact placement_reconcile h.crds
    case again => exact reconcile_again stored excluded

/-- The default layout, but for the section of the metrics, whose items are
hidden. -/
def withoutMetrics : List SidebarLayoutSection :=
  (defaultMenuSections.drop 1).map fun s =>
    { id := s.id, title := s.title, items := s.items }

/-- It is sound as long as they are excluded. -/
theorem reconciled_iff_sound_withoutMetrics :
    (itemsOf withoutMetrics).Nodup
      ∧ (Reconciled withoutMetrics ["metrics-overview", "metrics-settings"]
        ↔ Sound withoutMetrics ["metrics-overview", "metrics-settings"]) :=
  have honce : (itemsOf withoutMetrics).Nodup := by decide
  ⟨honce, reconciled_iff_sound withoutMetrics
    ["metrics-overview", "metrics-settings"] honce⟩

/-- If the settings are not, as they were not in the registry yet, they are
lost. -/
theorem layout_lost :
    ¬ ∀ (stored : List SidebarLayoutSection) (excluded : List String),
      (itemsOf stored).Nodup → (∀ id ∈ excluded, id ∉ itemsOf stored) →
        Reconciled stored excluded := by
  intro h
  have hcomplete := (h withoutMetrics ["metrics-overview"] (by decide)
    (by decide)).complete ⟨"metrics-settings", "Settings", "metrics", false⟩
    (by decide) (by decide)
  revert hcomplete
  decide

end Sidebar
