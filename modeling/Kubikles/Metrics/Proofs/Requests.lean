/-
What a pod requests is what it needs.

The frontend's loops find what the pod needs in the numbers that it has
parsed (`getPodResourceRequests_eq`), which are the right ones if all
notations are known. The backend's loops find it in whole numbers as long
as none of them is too large, and all of them are at most what is found
(`effectivePodResourceRequest_iff`).
-/
import Kubikles.Metrics.Proofs.Quantity
import Mathlib.Algebra.Order.BigOperators.Group.List

namespace Metrics

open Peak (Task lasting peak lasting_concat peak_concat)

variable {pod : PodSpec} {resourceName : ResourceName}

-- ======== needs

theorem needs_congr {α : Type} [AddCommMonoid α] [LinearOrder α]
    {request request' : Option ResourceList → α}
    (h : ∀ r ∈ pod.requests, request r = request' r) :
    needs request pod = needs request' pod := by
  unfold PodSpec.requests at h
  rw [List.forall_mem_cons, List.forall_mem_cons] at h
  obtain ⟨hpod, hoverhead, hcontainers⟩ := h
  have hcontainer : ∀ c ∈ pod.containers ++ pod.initContainers,
      request c.resources.requests = request' c.resources.requests :=
    fun c hc => hcontainers _ (List.mem_map_of_mem hc)
  unfold needs
  rw [hpod, hoverhead,
    List.map_congr_left (l := pod.containers) fun c hc =>
      hcontainer c (List.mem_append_left _ hc),
    List.map_congr_left (l := pod.initContainers) fun c hc => ?_]
  unfold taskOf
  rw [hcontainer c (List.mem_append_right _ hc)]

theorem needs_cast (pod : PodSpec) (resourceName : ResourceName) :
    needs (fun r => (countOf r resourceName : ℚ)) pod
      = scheduled pod resourceName := by
  have hmono : Monotone (Nat.castAddMonoidHom ℚ) := Nat.mono_cast
  have hmap := Peak.required_map hmono
    (countOf (pod.resources.bind Resources.requests) resourceName)
    (countOf pod.overhead resourceName)
    (pod.containers.map fun c => countOf c.resources.requests resourceName)
    (pod.initContainers.map (taskOf (countOf · resourceName)))
  rw [List.map_map, List.map_map] at hmap
  exact hmap

-- ======== frontend

theorem containerBody_foldl (s : Loops) (cs : List Container) :
    cs.foldl containerBody s
      = { s with
        containerAndSidecarCpuMillis := s.containerAndSidecarCpuMillis
          + (cs.map fun c => cpuOf c.resources.requests).sum
        containerAndSidecarMemBytes := s.containerAndSidecarMemBytes
          + (cs.map fun c => memoryOf c.resources.requests).sum } := by
  induction cs generalizing s with
  | nil => simp
  | cons c cs ih =>
    rw [List.foldl_cons, ih]
    simp only [containerBody, List.map_cons, List.sum_cons, add_assoc]

/-- The loop over the init containers finds what goes on of them, and their
peak. -/
theorem initBody_foldl (cpu memory : ℚ) (cs : List Container) :
    cs.foldl initBody ⟨cpu, memory, 0, 0, 0, 0⟩
      = ⟨cpu + lasting (cs.map (taskOf cpuOf)),
        memory + lasting (cs.map (taskOf memoryOf)),
        peak (cs.map (taskOf cpuOf)), peak (cs.map (taskOf memoryOf)),
        lasting (cs.map (taskOf cpuOf)),
        lasting (cs.map (taskOf memoryOf))⟩ := by
  induction cs using List.reverseRecOn with
  | nil =>
    show Loops.mk cpu memory 0 0 0 0 = ⟨cpu + 0, memory + 0, 0, 0, 0, 0⟩
    rw [add_zero, add_zero]
  | append_singleton cs c ih =>
    simp only [List.foldl_append, ih, List.foldl_cons, List.foldl_nil,
      List.map_append, List.map_cons, List.map_nil, lasting_concat,
      peak_concat]
    unfold initBody
    by_cases hpolicy : c.restartPolicy = some .always
    · simp only [taskOf, hpolicy, if_true, decide_true, add_assoc]
      simp only [add_comm]
    · simp only [taskOf, hpolicy, if_false, decide_false,
        Bool.false_eq_true]

theorem getPodResourceRequests_eq (pod : PodSpec) :
    getPodResourceRequests pod = ⟨needs cpuOf pod, needs memoryOf pod⟩ := by
  unfold getPodResourceRequests needs Peak.required
  rw [containerBody_foldl]
  dsimp only
  rw [initBody_foldl, zero_add, zero_add]

theorem cpuOf_known {requests : Option ResourceList} (h : Known requests) :
    cpuOf requests = countOf requests .cpu := by
  unfold cpuOf countOf
  cases hcpu : requests.bind ResourceList.cpu with
  | none => exact Nat.cast_zero.symm
  | some amount =>
    dsimp only
    rw [(parseCpuQuantity_iff _).mpr (h.cpu amount hcpu),
      amount.count_eq]
    rfl

theorem memoryOf_known {requests : Option ResourceList}
    (h : Known requests) :
    memoryOf requests = countOf requests .memory := by
  unfold memoryOf countOf
  cases hmemory : requests.bind ResourceList.memory with
  | none => exact Nat.cast_zero.symm
  | some amount =>
    have hcount := amount.count_eq
    rw [mul_one] at hcount
    dsimp only
    rw [(parseMemoryQuantity_iff _).mpr (h.memory amount hmemory), hcount]
    rfl

theorem getPodResourceRequests_known
    (h : ∀ r ∈ pod.requests, Known r) :
    getPodResourceRequests pod
      = ⟨scheduled pod .cpu, scheduled pod .memory⟩ := by
  rw [getPodResourceRequests_eq, ← needs_cast, ← needs_cast,
    needs_congr fun r hr => cpuOf_known (h r hr),
    needs_congr fun r hr => memoryOf_known (h r hr)]

-- ======== backend

theorem bmod_fits {n : ℕ} (h : n < 2 ^ 63) :
    (n : Int).bmod (2 ^ 64) = n := by
  apply Int.bmod_eq_of_le <;> omega

theorem add64_fits {a b : ℕ} (h : a + b < 2 ^ 63) :
    add64 a b = (a + b : ℕ) := by
  unfold add64
  rw [← Nat.cast_add, bmod_fits h]

theorem if_gt_cast (a b : ℕ) :
    (if (b : Int) > a then (b : Int) else a) = (max a b : ℕ) := by
  split <;> omega

theorem roundUp_natCast (n : ℕ) : roundUp n = n := by
  unfold roundUp
  rw [if_pos (Nat.cast_nonneg n)]
  exact Int.ceil_natCast n

/-- The value of a request that fits. -/
theorem resourceRequestValue_fits {requests : Option ResourceList}
    (h : countOf requests resourceName < 2 ^ 63) :
    resourceRequestValue requests resourceName
      = countOf requests resourceName := by
  unfold resourceRequestValue
  cases requests with
  | none => cases resourceName <;> rfl
  | some requests =>
    cases resourceName with
    | cpu =>
      cases hcpu : requests.cpu with
      | none =>
        simp [countOf, hcpu]
      | some amount =>
        have hcount : countOf (some requests) .cpu = amount.count := by
          simp [countOf, hcpu]
        rw [hcount] at h ⊢
        dsimp only
        rw [hcpu]
        dsimp only
        unfold Quantity.milliValue
        rw [amount.count_eq, roundUp_natCast, bmod_fits h]
    | memory =>
      cases hmemory : requests.memory with
      | none =>
        simp [countOf, hmemory]
      | some amount =>
        have hcount : countOf (some requests) .memory
            = amount.count := by
          simp [countOf, hmemory]
        have hvalue := amount.count_eq
        rw [mul_one] at hvalue
        rw [hcount] at h ⊢
        dsimp only
        rw [hmemory]
        dsimp only
        unfold Quantity.intValue
        rw [hvalue, roundUp_natCast, bmod_fits h]

theorem containers_foldl {cs : List Container}
    (h : (cs.map fun c => countOf c.resources.requests resourceName).sum
      < 2 ^ 63) :
    cs.foldl (fun sum container => add64 sum
        (resourceRequestValue container.resources.requests resourceName)) 0
      = (cs.map fun c => countOf c.resources.requests resourceName).sum := by
  induction cs using List.reverseRecOn with
  | nil => rfl
  | append_singleton cs c ih =>
    rw [List.map_append, List.sum_append, List.map_singleton,
      List.sum_singleton] at h ⊢
    rw [List.foldl_append, ih (by omega), List.foldl_cons, List.foldl_nil,
      resourceRequestValue_fits (by omega), add64_fits h]

/-- The loop over the init containers, if what it finds fits. -/
theorem initStep_foldl {n : ℕ} {cs : List Container}
    (hsum : n + lasting (cs.map (taskOf (countOf · resourceName))) < 2 ^ 63)
    (hpeak : peak (cs.map (taskOf (countOf · resourceName))) < 2 ^ 63) :
    cs.foldl (initStep resourceName) ⟨n, 0, 0⟩
      = ⟨(n + lasting (cs.map (taskOf (countOf · resourceName))) : ℕ),
        (lasting (cs.map (taskOf (countOf · resourceName))) : ℕ),
        (peak (cs.map (taskOf (countOf · resourceName))) : ℕ)⟩ := by
  induction cs using List.reverseRecOn with
  | nil => rfl
  | append_singleton cs c ih =>
    rw [List.map_append, List.map_singleton] at hsum hpeak ⊢
    rw [lasting_concat] at hsum ⊢
    rw [peak_concat] at hpeak ⊢
    obtain ⟨hbefore, hrequest⟩ := max_lt_iff.mp hpeak
    have hamount : (taskOf (countOf · resourceName) c).amount
        = countOf c.resources.requests resourceName := rfl
    rw [hamount] at hrequest hsum ⊢
    have hvalue : resourceRequestValue c.resources.requests resourceName
        = countOf c.resources.requests resourceName :=
      resourceRequestValue_fits (by omega)
    have hgoes : (taskOf (countOf · resourceName) c).goesOn
        = decide (c.restartPolicy = some .always) := rfl
    rw [hgoes] at hsum ⊢
    rw [List.foldl_append, List.foldl_cons, List.foldl_nil]
    by_cases hpolicy : c.restartPolicy = some .always
    · rw [decide_eq_true hpolicy, if_pos rfl] at hsum ⊢
      rw [ih (by omega) hbefore]
      unfold initStep
      rw [if_pos hpolicy, hvalue]
      dsimp only
      rw [add64_fits (by omega), add64_fits (by omega), if_gt_cast,
        Nat.add_assoc, Nat.add_comm (countOf _ _)]
    · rw [decide_eq_false hpolicy, if_neg Bool.false_ne_true] at hsum ⊢
      rw [ih hsum hbefore]
      unfold initStep
      rw [if_neg hpolicy, hvalue]
      dsimp only
      rw [add64_fits hrequest, if_gt_cast]

theorem scheduled_bounds (pod : PodSpec) (resourceName : ResourceName) :
    countOf (pod.resources.bind Resources.requests) resourceName
        + countOf pod.overhead resourceName ≤ scheduled pod resourceName
      ∧ (pod.containers.map fun c =>
          countOf c.resources.requests resourceName).sum
        + lasting (pod.initContainers.map (taskOf (countOf · resourceName)))
        + countOf pod.overhead resourceName ≤ scheduled pod resourceName
      ∧ peak (pod.initContainers.map (taskOf (countOf · resourceName)))
        + countOf pod.overhead resourceName
          ≤ scheduled pod resourceName := by
  unfold scheduled needs Peak.required
  dsimp only
  omega

theorem effectivePodResourceRequest_iff (pod : PodSpec)
    (resourceName : ResourceName) :
    effectivePodResourceRequest pod resourceName
        = scheduled pod resourceName
      ↔ scheduled pod resourceName < 2 ^ 63 := by
  constructor
  · intro h
    have hlt : effectivePodResourceRequest pod resourceName < 2 ^ 63 := by
      unfold effectivePodResourceRequest add64
      have hbmod := fun x : Int => Int.bmod_lt (x := x) (m := 2 ^ 64)
        (by decide)
      exact lt_of_lt_of_le (hbmod _) (by decide)
    rw [h] at hlt
    exact_mod_cast hlt
  · intro h
    obtain ⟨hpod, hsum, hpeak⟩ := scheduled_bounds pod resourceName
    have hasked : podRequest pod resourceName
        = countOf (pod.resources.bind Resources.requests) resourceName := by
      unfold podRequest
      cases hresources : pod.resources with
      | none => cases resourceName <;> rfl
      | some resources =>
        rw [hresources] at hpod
        exact resourceRequestValue_fits
          (lt_of_le_of_lt (Nat.le_of_add_right_le hpod) h)
    unfold effectivePodResourceRequest
    dsimp only
    rw [hasked, containers_foldl (by omega),
      initStep_foldl (by omega) (by omega)]
    dsimp only
    rw [if_gt_cast, if_gt_cast, resourceRequestValue_fits (by omega),
      add64_fits (by omega)]
    rfl

-- ======== both sides

def kilobytesText : Quantity where
  number := ⟨none, ['1', '5', '0', '0'], none,
    List.all_eq_true.mp (by decide), one.fraction_digits,
    Or.inl (List.cons_ne_nil _ _)⟩
  suffix := .kilo

theorem kilobytesText_value :
    kilobytesText.value * 1 = (1500000 : ℕ) := by decide +kernel

def kilobytes : Whole 1 where
  quantity := kilobytesText
  count := 1500000
  count_eq := kilobytesText_value

/-- A pod with one container, which asks for that much memory. -/
def kilobytePod : PodSpec where
  resources := none
  containers := [⟨[97], ⟨some ⟨none, some kilobytes⟩⟩, none⟩]
  initContainers := []
  overhead := none

end Metrics
