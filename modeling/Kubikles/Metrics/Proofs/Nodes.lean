/-
The two sources of what is promised on the nodes.

Each source adds up, for a node, the requests of the pods on it, and the
larger of what each requests and what it uses (`resourcesStep_lookup`,
`committedStep_lookup`). The metrics-server's usage of a pod is that of its
containers (`podUsage_fed`), Prometheus's also that of its restartable init
containers and ephemeral containers (`prometheusUsage_fed`), so the sums
are the same exactly if every pod's are, and what the node uses in all may
hide a difference (`commitment_iff`).
-/
import Kubikles.Metrics.Nodes
import Kubikles.Metrics.Proofs.Quantity
import Mathlib.Algebra.Order.BigOperators.Group.List
import Mathlib.Data.List.Nodup

namespace Metrics

variable {pods : List Pod} {usage : Assignment} {p : Pod}

-- ======== sums

def promised (usage : Pod → Amounts) (ps : List Pod) : NodeResources where
  requestedCPU := (ps.map fun p => (effectivePodRequests p.spec).cpu).sum
  requestedMem := (ps.map fun p => (effectivePodRequests p.spec).memory).sum
  committedCPU := (ps.map fun p =>
    max (usage p).cpu (effectivePodRequests p.spec).cpu).sum
  committedMem := (ps.map fun p =>
    max (usage p).memory (effectivePodRequests p.spec).memory).sum
  podCount := ps.length

theorem if_gt (a b : Int) : (if a > b then a else b) = max a b := by
  split <;> omega

theorem onNode_concat (pods : List Pod) (p : Pod) (name : Text) :
    onNode (pods ++ [p]) name
      = if isScheduledNonTerminalPod p ∧ p.nodeName = name then
          onNode pods name ++ [p]
        else onNode pods name := by
  unfold onNode
  rw [List.filter_append]
  by_cases h : isScheduledNonTerminalPod p ∧ p.nodeName = name
  · rw [if_pos h, List.filter_cons_of_pos (by simp [h]), List.filter_nil]
  · rw [if_neg h, List.filter_cons_of_neg (by simpa using h),
      List.filter_nil, List.append_nil]

/-- What a loop over the pods has found for a node: what it does for each
of the node's pods. -/
theorem change_foldl (f : Pod → NodeResources → NodeResources)
    (m : List (Text × NodeResources)) (pods : List Pod) (name : Text) :
    (Assoc.find name
        (pods.foldl (fun m p => change (f p) m p) m)).getD .zero
      = (onNode pods name).foldl (fun r p => f p r)
        ((Assoc.find name m).getD .zero) := by
  induction pods using List.reverseRecOn with
  | nil => rfl
  | append_singleton pods p ih =>
    rw [List.foldl_append, List.foldl_cons, List.foldl_nil,
      onNode_concat, change]
    by_cases hp : isScheduledNonTerminalPod p
    · rw [if_pos hp, Assoc.find_put]
      by_cases hname : p.nodeName = name
      · rw [if_pos hname.symm, if_pos ⟨hp, hname⟩, hname, ih,
          List.foldl_append]
        rfl
      · rw [if_neg (Ne.symm hname), if_neg fun h => hname h.2]
        exact ih
    · rw [if_neg hp, if_neg fun h => hp h.1]
      exact ih

theorem resourcesStep_find (usageMap : List (Text × Amounts))
    (pods : List Pod) (name : Text) :
    (Assoc.find name (pods.foldl (resourcesStep usageMap) [])).getD .zero
      = promised (podUsage usageMap) (onNode pods name) := by
  refine (change_foldl (fun p res =>
    (res.request (effectivePodRequests p.spec)).commit
      (podUsage usageMap p) (effectivePodRequests p.spec))
    [] pods name).trans ?_
  induction onNode pods name using List.reverseRecOn with
  | nil => rfl
  | append_singleton ps p ih =>
    rw [List.foldl_append, ih]
    simp [promised, NodeResources.request, NodeResources.commit, if_gt]

/-- What the two loops over Prometheus's numbers have found. -/
theorem committedStep_find (podCPUUsage podMemUsage : List (Text × ℚ))
    (pods : List Pod) (name : Text) :
    (Assoc.find name (pods.foldl (committedStep podCPUUsage podMemUsage)
        (pods.foldl requestsStep []))).getD .zero
      = promised (prometheusUsage podCPUUsage podMemUsage)
        (onNode pods name) := by
  have hrequests : (Assoc.find name (pods.foldl requestsStep [])).getD .zero
      = { promised (prometheusUsage podCPUUsage podMemUsage)
          (onNode pods name) with
          committedCPU := 0
          committedMem := 0 } := by
    refine (change_foldl (fun p requests =>
      requests.request (effectivePodRequests p.spec))
      [] pods name).trans ?_
    induction onNode pods name using List.reverseRecOn with
    | nil => rfl
    | append_singleton ps p ih =>
      rw [List.foldl_append, ih]
      simp [promised, NodeResources.request]
  -- what is requested is kept by the second loop
  have hcommit : ∀ (r : NodeResources) (ps : List Pod),
      ps.foldl (fun r p => r.commit
          (prometheusUsage podCPUUsage podMemUsage p)
          (effectivePodRequests p.spec)) r
        = { r with
            committedCPU := r.committedCPU + (promised
              (prometheusUsage podCPUUsage podMemUsage) ps).committedCPU
            committedMem := r.committedMem + (promised
              (prometheusUsage podCPUUsage podMemUsage) ps).committedMem }
      := by
    intro r ps
    induction ps using List.reverseRecOn with
    | nil => simp [promised]
    | append_singleton ps p ih =>
      rw [List.foldl_append, ih]
      simp [promised, NodeResources.commit, if_gt, add_assoc]
  refine (change_foldl (fun p requests => requests.commit
    (prometheusUsage podCPUUsage podMemUsage p)
    (effectivePodRequests p.spec)) _ pods name).trans ?_
  rw [hrequests, hcommit]
  simp [promised]

-- ======== usage

theorem slash_inj {a a' s s' : Text} (h : slash ∉ a) (h' : slash ∉ a')
    (heq : a ++ slash :: s = a' ++ slash :: s') : a = a' ∧ s = s' := by
  induction a generalizing a' with
  | nil =>
    cases a' with
    | nil => exact ⟨rfl, (List.cons.inj heq).2⟩
    | cons b a' =>
      have hb := (List.cons.inj heq).1
      exact absurd (hb ▸ List.mem_cons_self) h'
  | cons b a ih =>
    cases a' with
    | nil =>
      have hb := (List.cons.inj heq).1
      exact absurd (hb ▸ List.mem_cons_self) h
    | cons b' a' =>
      rw [List.mem_cons, not_or] at h h'
      obtain ⟨hb, htail⟩ := List.cons.inj heq
      obtain ⟨ha, hs⟩ := ih h.2 h'.2 htail
      exact ⟨by rw [hb, ha], hs⟩

namespace Cluster

variable (cluster : Cluster)

theorem pod_inj {p p' : Pod} (hp : p ∈ cluster.pods)
    (hp' : p' ∈ cluster.pods) (hns : p.ns = p'.ns)
    (hname : p.name = p'.name) : p = p' :=
  List.inj_on_of_nodup_map cluster.pods_distinct hp hp'
    (Prod.ext hns hname)

theorem find_container (usage : Assignment) {p : Pod} {c : Text}
    (hp : p ∈ cluster.pods) (hc : c ∈ p.measured) :
    Assoc.find (p.ns ++ slash :: (p.name ++ slash :: c))
        (containerUsageMap (some (podMetrics usage cluster.pods)))
      = some ⟨(usage p c).cpu, (usage p c).memory⟩ := by
  refine Assoc.find_foldl_put ?_ ?_
  · refine ⟨(_, ⟨(usage p c).cpu, (usage p c).memory⟩), ?_, rfl⟩
    refine List.mem_flatMap.mpr ⟨_, List.mem_map_of_mem hp, ?_⟩
    exact List.mem_map.mpr ⟨_, List.mem_map_of_mem hc, rfl⟩
  · intro e he hkey
    obtain ⟨pm, hpm, he⟩ := List.mem_flatMap.mp he
    obtain ⟨p', hp', rfl⟩ := List.mem_map.mp hpm
    obtain ⟨cm, hcm, rfl⟩ := List.mem_map.mp he
    obtain ⟨c', -, rfl⟩ := List.mem_map.mp hcm
    obtain ⟨hns, hrest⟩ := slash_inj (cluster.ns_slash p' hp')
      (cluster.ns_slash p hp) hkey
    obtain ⟨hname, hcontainer⟩ := slash_inj (cluster.name_slash p' hp')
      (cluster.name_slash p hp) hrest
    have hpod := cluster.pod_inj hp' hp hns hname
    subst hpod
    dsimp only at hcontainer ⊢
    rw [hcontainer]

theorem podUsage_fed (usage : Assignment) {p : Pod}
    (hp : p ∈ cluster.pods) :
    podUsage (containerUsageMap (some (podMetrics usage cluster.pods))) p
      = ⟨total (p.spec.containers.map Container.name)
          fun c => (usage p c).cpu,
        total (p.spec.containers.map Container.name)
          fun c => (usage p c).memory⟩ := by
  have hmem : ∀ c ∈ p.spec.containers, c.name ∈ p.measured := by
    intro c hc
    unfold Pod.measured
    rw [List.append_assoc]
    exact List.mem_append_left _ (List.mem_map_of_mem hc)
  unfold podUsage
  revert hmem
  induction p.spec.containers using List.reverseRecOn with
  | nil => exact fun _ => rfl
  | append_singleton cs c ih =>
    intro hmem
    rw [List.foldl_append, ih fun c hc =>
      hmem c (List.mem_append_left _ hc)]
    simp only [List.foldl_cons, List.foldl_nil]
    rw [cluster.find_container usage hp (hmem c (by simp))]
    simp [total]

theorem find_sample (units : ℚ) (amount : Pod → Text → ℕ) {p : Pod}
    (hp : p ∈ cluster.pods) :
    Assoc.find (p.ns ++ slash :: p.name)
        (extractPodValues (some (podSamples units amount cluster.pods)))
      = some (total p.measured (amount p) / units) := by
  have hpairs : extractPodValues
        (some (podSamples units amount cluster.pods))
      = (cluster.pods.map fun p => (p.ns ++ slash :: p.name,
          (total p.measured (amount p) / units : ℚ))).foldl
        (fun m e => Assoc.put e.1 e.2 m) [] := by
    unfold extractPodValues podSamples
    rw [Option.getD_some, List.foldl_map, List.foldl_map]
    rfl
  rw [hpairs]
  refine Assoc.find_foldl_put ⟨_, List.mem_map_of_mem hp, rfl⟩ ?_
  intro e he hkey
  obtain ⟨p', hp', rfl⟩ := List.mem_map.mp he
  obtain ⟨hns, hname⟩ := slash_inj (cluster.ns_slash p' hp')
    (cluster.ns_slash p hp) hkey
  rw [cluster.pod_inj hp' hp hns hname]

/-- Prometheus's usage of a pod is that of all its containers that use
something. -/
theorem prometheusUsage_fed (usage : Assignment) {p : Pod}
    (hp : p ∈ cluster.pods) :
    prometheusUsage
        (extractPodValues (some (podSamples 1000
          (fun p c => (usage p c).cpu) cluster.pods)))
        (extractPodValues (some (podSamples 1
          (fun p c => (usage p c).memory) cluster.pods))) p
      = ⟨total p.measured fun c => (usage p c).cpu,
        total p.measured fun c => (usage p c).memory⟩ := by
  have htoInt : ∀ n : ℕ, toInt (n : ℚ) = n := by
    intro n
    unfold toInt
    rw [if_pos (Nat.cast_nonneg n)]
    exact Int.floor_natCast n
  unfold prometheusUsage
  dsimp only
  rw [cluster.find_sample 1000 _ hp, cluster.find_sample 1 _ hp,
    Option.getD_some, Option.getD_some, div_one,
    div_mul_cancel₀ _ (by norm_num), htoInt, htoInt]

end Cluster

-- ======== committed

/-- Sums of numbers of which none is larger than the other are the same
exactly if the numbers are. -/
theorem sum_eq_sum_iff {f g : Pod → Int} {ps : List Pod}
    (h : ∀ p ∈ ps, f p ≤ g p) :
    (ps.map f).sum ≤ (ps.map g).sum
      ∧ ((ps.map f).sum = (ps.map g).sum ↔ ∀ p ∈ ps, f p = g p) := by
  induction ps with
  | nil => simp
  | cons p ps ih =>
    obtain ⟨hle, hiff⟩ := ih fun p hp => h p (List.mem_cons_of_mem _ hp)
    have hp := h p List.mem_cons_self
    rw [List.map_cons, List.map_cons, List.sum_cons, List.sum_cons,
      List.forall_mem_cons, ← hiff]
    omega

/-- What is committed on a node is the same with the one usage of its pods
and with a larger one exactly if the node uses as much anyway, or the
larger one is no more than what is requested wherever it is another. -/
theorem committed_iff {own all req : Pod → Int} {ps : List Pod}
    (h : ∀ p ∈ ps, own p ≤ all p) (nodeUsage : Int) :
    max nodeUsage (ps.map fun p => max (own p) (req p)).sum
        = max nodeUsage (ps.map fun p => max (all p) (req p)).sum
      ↔ (ps.map fun p => max (all p) (req p)).sum ≤ nodeUsage
        ∨ ∀ p ∈ ps, own p = all p ∨ all p ≤ req p := by
  have hmax : ∀ p ∈ ps, max (own p) (req p) ≤ max (all p) (req p) :=
    fun p hp => max_le_max_right _ (h p hp)
  obtain ⟨hle, hiff⟩ := sum_eq_sum_iff hmax
  have hpoint : (∀ p ∈ ps, max (own p) (req p) = max (all p) (req p))
      ↔ ∀ p ∈ ps, own p = all p ∨ all p ≤ req p := by
    refine forall₂_congr fun p hp => ?_
    have hp := h p hp
    omega
  rw [← hpoint, ← hiff]
  omega

theorem sum_le_sum_max (f g : Pod → Int) (ps : List Pod) :
    (ps.map g).sum ≤ (ps.map fun p => max (f p) (g p)).sum :=
  (sum_eq_sum_iff fun _ _ => le_max_right _ _).1

theorem promised_congr {usage usage' : Pod → Amounts} {ps : List Pod}
    (h : ∀ p ∈ ps, usage p = usage' p) :
    promised usage ps = promised usage' ps := by
  have hcpu : (ps.map fun p =>
        max (usage p).cpu (effectivePodRequests p.spec).cpu)
      = ps.map fun p =>
        max (usage' p).cpu (effectivePodRequests p.spec).cpu :=
    List.map_congr_left fun p hp => by rw [h p hp]
  have hmemory : (ps.map fun p =>
        max (usage p).memory (effectivePodRequests p.spec).memory)
      = ps.map fun p =>
        max (usage' p).memory (effectivePodRequests p.spec).memory :=
    List.map_congr_left fun p hp => by rw [h p hp]
  unfold promised
  rw [hcpu, hmemory]

theorem total_containers_le (p : Pod) (amount : Text → ℕ) :
    (total (p.spec.containers.map Container.name) amount : Int)
      ≤ total p.measured amount := by
  have happend : ∀ names names' : List Text,
      total (names ++ names') amount
        = total names amount + total names' amount := by
    intro names names'
    unfold total
    rw [List.map_append, List.sum_append]
  unfold Pod.measured
  rw [List.append_assoc, happend]
  omega

-- ======== agreement

/-- What is told of a node on which so much is promised. -/
structure Told (m : NodeMetrics) (r : NodeResources) : Prop where
  cpuRequested : m.cpuRequested = r.requestedCPU
  memRequested : m.memRequested = r.requestedMem
  cpuCommitted : m.cpuCommitted = max m.cpuUsage r.committedCPU
  memCommitted : m.memCommitted = max m.memoryUsage r.committedMem
  podCount : m.podCount = r.podCount

theorem getNodeMetrics_told (cluster : Cluster) (usage : Assignment)
    {nodeMetricsList : List Measured} {nodes : List Node}
    {as : List NodeMetrics} {a : NodeMetrics}
    (h : getNodeMetrics nodeMetricsList nodes cluster.pods
      (some (podMetrics usage cluster.pods)) = some as) (ha : a ∈ as) :
    Told a (promised (fun p =>
      ⟨total (p.spec.containers.map Container.name) fun c => (usage p c).cpu,
        total (p.spec.containers.map Container.name)
          fun c => (usage p c).memory⟩) (onNode cluster.pods a.name)) := by
  unfold getNodeMetrics at h
  split at h
  · cases h
  · cases h
    obtain ⟨nm, -, rfl⟩ := List.mem_map.mp ha
    have hsame := promised_congr
      fun p (hp : p ∈ onNode cluster.pods nm.name) =>
        cluster.podUsage_fed usage (List.mem_filter.mp hp).1
    dsimp only
    rw [resourcesStep_find, ← hsame]
    exact ⟨rfl, rfl, if_gt _ _, if_gt _ _, rfl⟩

theorem getNodeMetricsFromPrometheus_told (cluster : Cluster)
    (usage : Assignment) {toLower : Text → Text} {nodes : List Node}
    {q : Queries} {bs : List NodeMetrics} {b : NodeMetrics}
    (h : getNodeMetricsFromPrometheus toLower nodes cluster.pods
      (q.fed usage cluster.pods) = some bs) (hb : b ∈ bs) :
    Told b (promised (fun p => ⟨total p.measured fun c => (usage p c).cpu,
      total p.measured fun c => (usage p c).memory⟩)
      (onNode cluster.pods b.name)) := by
  unfold getNodeMetricsFromPrometheus at h
  dsimp only at h
  split at h
  · cases h
  · cases h
    obtain ⟨node, -, rfl⟩ := List.mem_map.mp hb
    have hsame := promised_congr
      fun p (hp : p ∈ onNode cluster.pods node.name) =>
        cluster.prometheusUsage_fed usage (List.mem_filter.mp hp).1
    have hfound := (committedStep_find _ _ cluster.pods node.name).trans
      hsame
    exact ⟨congrArg NodeResources.requestedCPU hfound,
      congrArg NodeResources.requestedMem hfound,
      (if_gt _ _).trans
        (congrArg (fun r : NodeResources => max _ r.committedCPU) hfound),
      (if_gt _ _).trans
        (congrArg (fun r : NodeResources => max _ r.committedMem) hfound),
      congrArg NodeResources.podCount hfound⟩

theorem Told.bounded {usage : Pod → Amounts} {ps : List Pod}
    {m : NodeMetrics} (h : Told m (promised usage ps)) : m.Bounded := by
  have hcpu := sum_le_sum_max (fun p => (usage p).cpu)
    (fun p => (effectivePodRequests p.spec).cpu) ps
  have hmemory := sum_le_sum_max (fun p => (usage p).memory)
    (fun p => (effectivePodRequests p.spec).memory) ps
  obtain ⟨hcr, hmr, hcc, hmc, -⟩ := h
  refine ⟨?_, ?_, ?_, ?_⟩
  · rw [hcr, hcc]
    exact le_trans hcpu (le_max_right _ _)
  · rw [hcc]
    exact le_max_left _ _
  · rw [hmr, hmc]
    exact le_trans hmemory (le_max_right _ _)
  · rw [hmc]
    exact le_max_left _ _

/-- A node with one pod that has a restartable init container, and one that
requests a core. -/
def sidecarCluster : Cluster where
  pods := [
    { ns := [100]
      name := [97]
      nodeName := [110]
      phase := .running
      spec :=
        { resources := none
          containers := [⟨[109], ⟨none⟩, none⟩]
          initContainers := [⟨[115], ⟨none⟩, some .always⟩]
          overhead := none }
      ephemeralContainers := [] },
    { ns := [100]
      name := [98]
      nodeName := [110]
      phase := .running
      spec :=
        { resources := none
          containers := [⟨[109], ⟨some ⟨some
            { quantity := ⟨one, .none⟩
              count := 1000
              count_eq := by decide +kernel }, none⟩⟩, none⟩]
          initContainers := []
          overhead := none }
      ephemeralContainers := [] }]
  pods_distinct := by decide
  ns_slash := by decide
  name_slash := by decide

/-- The restartable init container is busy, nothing else is. -/
def sidecarUsage : Assignment := fun _ c =>
  if c = [115] then ⟨300, 0⟩ else ⟨0, 0⟩

def sidecarQueries : Queries where
  nodeExporterCpu := some [⟨[(nodenameLabel, [110])], some (3 / 10)⟩]
  nodeExporterMem := none
  containerCpu := none
  containerMem := none
  podCpu := none
  podMem := none

def sidecarTold (cpuCommitted : Int) : NodeMetrics where
  name := [110]
  cpuUsage := 300
  memoryUsage := 0
  cpuCapacity := 0
  memCapacity := 0
  cpuRequested := 1000
  memRequested := 0
  cpuCommitted
  memCommitted := 0
  podCount := 2
  podCapacity := 0

theorem sidecar_server : getNodeMetrics [⟨[110], ⟨300, 0⟩⟩]
    [⟨[110], 0, 0, 0⟩] sidecarCluster.pods
    (some (podMetrics sidecarUsage sidecarCluster.pods))
      = some [sidecarTold 1000] := by
  decide +kernel

theorem sidecar_prometheus : getNodeMetricsFromPrometheus id
    [⟨[110], 0, 0, 0⟩] sidecarCluster.pods
    (sidecarQueries.fed sidecarUsage sidecarCluster.pods)
      = some [sidecarTold 1300] := by
  decide +kernel

end Metrics
