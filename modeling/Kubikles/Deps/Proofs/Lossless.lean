/-
Aggregation hides, and when it loses nothing.

# The result

What the groups that are processed leave in the new graph is read off the
invariant: a node of a visible parent is kept or counted, and one of a
hidden parent is below a node that is counted (`Inv.lossless`). So nothing
is lost if every node is processed, and a node that is not is kept nowhere
and counted by nothing: the two are the same (`aggregate_lossless_iff`).

A node that is not processed is one from which primary parents lead into a
cycle, or to an ID that is no node's. The guard of the third rule for
primary parents sees a cycle only where the other node's parent is
determined already: a node that is met before the one that has it for a
parent closes a cycle of two, and both are lost (`endpoints_lost`).
-/
import Kubikles.Deps.Proofs.Rounds

namespace Deps

variable {a : Aggregation} {done : List GroupKey} {s : State}

-- ======== what is there

theorem Inv.hidden_parent (hi : Inv a done s) {n : DependencyNode}
    (hroot : n.id ≠ a.rootID) (h : a.parentID n ∈ s.hiddenNodes) :
    ¬ Kept (a.result s) n ∧ ¬ Summarized (a.result s) (a.keyOf n) := by
  constructor
  · intro hkept
    rcases (hi.node n).mp hkept with ⟨-, h' | ⟨-, hvisible, -⟩⟩
    · exact hroot h'
    · exact hvisible h
  · rintro ⟨remaining, hsummary⟩
    exact ((hi.summary _ _).mp hsummary).2.1 h

theorem Inv.not_kept (hi : Inv a done s) (hunique : Unique a.graph)
    {n : DependencyNode} (hroot : n.id ≠ a.rootID)
    (h : a.parentID n ∈ s.hiddenNodes
      ∨ n ∈ (a.split (a.children (a.keyOf n))).2) :
    ¬ Kept (a.result s) n := by
  rcases h with h | h
  · exact (hi.hidden_parent hroot h).1
  · intro hkept
    rcases (hi.node n).mp hkept with ⟨-, h' | ⟨-, -, hsplit⟩⟩
    · exact hroot h'
    · exact split_disjoint (hunique.of_map.filter _) hsplit h

theorem Inv.visible_parent (hi : Inv a done s) (hunique : Unique a.graph)
    {n : DependencyNode} (hn : n ∈ a.graph.nodes)
    (hroot : n.id ≠ a.rootID) (hdone : a.keyOf n ∈ done)
    (h : a.parentID n ∉ s.hiddenNodes) :
    Kept (a.result s) n ∨ Counted a (a.result s) n := by
  have hmem := mem_children.mpr ⟨hn, hroot, rfl⟩
  rcases mem_split.mpr hmem with hsplit | hsplit
  · exact .inl ((hi.node n).mpr ⟨hn, .inr ⟨hdone, h, hsplit⟩⟩)
  · refine .inr ⟨hi.not_kept hunique hroot (.inr hsplit), ?_⟩
    exact ⟨_, (hi.summary _ _).mpr
      ⟨hdone, h, List.ne_nil_of_mem hsplit, rfl⟩⟩

theorem Inv.processed_cases (hi : Inv a done s)
    (hunique : Unique a.graph) {id : String} (hrooted : Rooted a id) :
    ∀ n ∈ a.graph.nodes, n.id = id → n.id ∈ s.processedNodes →
      Kept (a.result s) n ∨ Counted a (a.result s) n
        ∨ Below a (a.result s) n := by
  induction hrooted with
  | root =>
    intro n hn hid _
    exact .inl ((hi.node n).mpr ⟨hn, .inl hid⟩)
  | @node n' hn' _ ih =>
    intro n hn hid hprocessed
    obtain rfl := hunique.eq hn' hn hid.symm
    rcases (hi.processed n'.id).mp hprocessed with
      hroot | ⟨m, hm, hid', hroot, hdone⟩
    · exact .inl ((hi.node n').mpr ⟨hn, .inl hroot⟩)
    · obtain rfl := hunique.eq hm hn hid'
      by_cases hparent : a.parentID m ∈ s.hiddenNodes
      · -- The parent is hidden, and what it is below, its child is.
        obtain ⟨p, hp, hpid, hproot, hpdone, hwhy⟩ :=
          (hi.hidden _).mp hparent
        have hchild : Child a m p := ⟨hn, hp, hroot, hpid.symm⟩
        obtain ⟨hkept, hsummary⟩ := hi.hidden_parent hroot hparent
        have hpprocessed : p.id ∈ s.processedNodes :=
          (hi.processed p.id).mpr (.inr ⟨p, hp, rfl, hproot, hpdone⟩)
        rcases ih p hp hpid hpprocessed with h | h | h
        · exact absurd h (hi.not_kept hunique hproot hwhy)
        · exact .inr (.inr ⟨hkept, hsummary, p, h, .single hchild⟩)
        · obtain ⟨-, -, q, hq, hchain⟩ := h
          exact .inr (.inr ⟨hkept, hsummary, q, hq, .head hchild hchain⟩)
      · exact (hi.visible_parent hunique hn hroot hdone hparent).imp_right
          .inl

theorem Inv.mem_standsFor (hi : Inv a done s) (hunique : Unique a.graph)
    {key : GroupKey} {remaining : Nat}
    (h : .summary key remaining ∈ s.entries) {n : DependencyNode} :
    n ∈ standsFor a (a.result s) key
      ↔ n ∈ (a.split (a.children key)).2 := by
  obtain ⟨hdone, hvisible, -, -⟩ := (hi.summary _ _).mp h
  have hstands : n ∈ standsFor a (a.result s) key
      ↔ n ∈ a.graph.nodes ∧ a.keyOf n = key ∧ .node n ∉ s.entries := by
    unfold standsFor Aggregation.result
    simp
  rw [hstands]
  constructor
  · rintro ⟨hmem, rfl, hnot⟩
    have hroot : n.id ≠ a.rootID := fun hid =>
      hnot ((hi.node n).mpr ⟨hmem, .inl hid⟩)
    rcases mem_split.mpr (mem_children.mpr ⟨hmem, hroot, rfl⟩) with
      hkept | hhidden
    · exact absurd ((hi.node n).mpr
        ⟨hmem, .inr ⟨hdone, hvisible, hkept⟩⟩) hnot
    · exact hhidden
  · intro hn
    obtain ⟨hmem, hroot, rfl⟩ := mem_children.mp (mem_split.mp (.inr hn))
    exact ⟨hmem, rfl, hi.not_kept hunique hroot (.inr hn)⟩

theorem Inv.counts (hi : Inv a done s) (hunique : Unique a.graph)
    {key : GroupKey} {remaining : Nat}
    (h : .summary key remaining ∈ s.entries) :
    remaining = (standsFor a (a.result s) key).length := by
  obtain ⟨-, -, -, rfl⟩ := (hi.summary _ _).mp h
  have hnodup : a.graph.nodes.Nodup := hunique.of_map
  have hsplit : (a.split (a.children key)).2.Nodup := by
    have hboth := (split_perm a (a.children key)).nodup_iff.mpr
      (hnodup.filter _)
    exact (List.nodup_append.mp hboth).2.1
  have hstandsFor : (standsFor a (a.result s) key).Nodup :=
    hnodup.filter _
  apply List.Perm.length_eq
  rw [List.perm_ext_iff_of_nodup hsplit hstandsFor]
  exact fun n => (hi.mem_standsFor hunique h).symm

-- ======== edges

/-- What one step of a fold adds is there at its end, if every step keeps
what is there. -/
theorem mem_foldl_of_step {α β : Type} {f : List β → α → List β}
    (hkeeps : ∀ acc x, acc ⊆ f acc x) {x : α} {b : β}
    (hadds : ∀ acc, b ∈ f acc x) :
    ∀ {l : List α} {acc}, x ∈ l ∨ b ∈ acc → b ∈ l.foldl f acc := by
  intro l
  induction l with
  | nil =>
    intro acc h
    exact h.resolve_left List.not_mem_nil
  | cons y l ih =>
    intro acc h
    rw [List.foldl_cons]
    apply ih
    rcases h with h | h
    · rcases List.mem_cons.mp h with rfl | h
      · exact .inr (hadds acc)
      · exact .inl h
    · exact .inr (hkeeps acc y h)

theorem mem_rebuild {keptNodes : List String} {e e' : DependencyEdge}
    (he : e ∈ a.graph.edges) (h : a.redirect keptNodes e = some e') :
    e' ∈ a.rebuild keptNodes := by
  apply mem_foldl_of_step _ _ (.inl he)
  · intro acc x
    split
    · split
      · exact List.Subset.refl _
      · exact List.subset_append_left _ _
    · exact List.Subset.refl _
  · intro acc
    rw [h]
    by_cases hacc : e' ∈ acc
    · simp [hacc]
    · simp [hacc]

theorem mem_rebuild_of_kept {keptNodes : List String} {e : DependencyEdge}
    (he : e ∈ a.graph.edges) (hsource : e.source ∈ keptNodes)
    (htarget : e.target ∈ keptNodes) : e ∈ a.rebuild keptNodes := by
  apply mem_rebuild he
  unfold Aggregation.redirect
  rw [if_pos (by simpa using hsource), if_pos (by simpa using htarget)]

-- ======== the result

theorem Inv.lossless (hi : Inv a done s) (hunique : Unique a.graph)
    (hend : a.keys s = []) (hall : ∀ n ∈ a.graph.nodes, Rooted a n.id) :
    Lossless a (a.result s) where
  nodes n hn := hi.processed_cases hunique (hall n hn) n hn rfl
    ((hi.processed_iff hend).mpr (hall n hn))
  once := hi.once
  counts _ _ h := hi.counts hunique h
  edges e he hsource htarget := by
    obtain ⟨n, hn, hsource⟩ := hsource
    obtain ⟨m, hm, htarget⟩ := htarget
    exact mem_rebuild_of_kept he (hsource ▸ hi.kept n hn)
      (htarget ▸ hi.kept m hm)

theorem Inv.rooted_of_done (hi : Inv a done s) {n : DependencyNode}
    (hn : n ∈ a.graph.nodes) (h : a.keyOf n ∈ done) : Rooted a n.id :=
  .node hn (hi.rooted _ (hi.parent_processed h))

theorem Rooted.of_descendant {n m : DependencyNode} (h : Rooted a m.id)
    (hchain : Relation.TransGen (Child a) n m) : Rooted a n.id := by
  induction hchain using Relation.TransGen.head_induction_on with
  | single hchild =>
    obtain ⟨hn, -, -, hparent⟩ := hchild
    exact .node hn (hparent ▸ h)
  | head hchild _ ih =>
    obtain ⟨hn, -, -, hparent⟩ := hchild
    exact .node hn (hparent ▸ ih)

theorem Inv.rooted_of_counted (hi : Inv a done s) {n : DependencyNode}
    (hn : n ∈ a.graph.nodes) (h : Counted a (a.result s) n) :
    Rooted a n.id := by
  obtain ⟨-, remaining, hsummary⟩ := h
  exact hi.rooted_of_done hn ((hi.summary _ _).mp hsummary).1

theorem Inv.rooted_of_cases (hi : Inv a done s) {n : DependencyNode}
    (hn : n ∈ a.graph.nodes)
    (h : Kept (a.result s) n ∨ Counted a (a.result s) n
      ∨ Below a (a.result s) n) : Rooted a n.id := by
  rcases h with h | h | ⟨-, -, m, hm, hchain⟩
  · rcases (hi.node n).mp h with ⟨-, hid | ⟨hdone, -⟩⟩
    · rw [hid]
      exact .root
    · exact hi.rooted_of_done hn hdone
  · exact hi.rooted_of_counted hn h
  · have hmem : m ∈ a.graph.nodes := by
      cases hchain with
      | single hchild => exact hchild.2.1
      | tail _ hchild => exact hchild.2.1
    exact (hi.rooted_of_counted hmem hm).of_descendant hchain

/-- The aggregation of a graph with unique IDs from a root of it ends, and
it loses nothing if and only if following primary parents leads from every
node to the root, or to one without a primary parent. -/
theorem aggregate_lossless_iff (graph : DependencyGraph) (limit : Int)
    (explicitRootID : String) (nodeOrder : List String)
    (order : Nat → List GroupKey → List GroupKey)
    (hunique : Unique graph) (hne : explicitRootID ≠ "")
    (_hroot : ∃ n ∈ graph.nodes, n.id = explicitRootID)
    (horder : ∀ r keys, (order r keys).Perm keys) :
    ∃ new, aggregate graph limit explicitRootID nodeOrder order = some new
      ∧ aggregateGraph graph limit explicitRootID nodeOrder order
        = some new.toGraph
      ∧ (Lossless (aggregation graph limit explicitRootID nodeOrder) new
        ↔ ∀ n ∈ graph.nodes, Rooted
          (aggregation graph limit explicitRootID nodeOrder) n.id) := by
  have hrootOf : graph.rootOf explicitRootID = explicitRootID :=
    if_neg hne
  obtain ⟨done, s, hnew, hi, hend, -⟩ := exists_aggregate graph limit
    explicitRootID nodeOrder order hunique
    (fun _ _ _ => hrootOf.symm ▸ hne) horder
  refine ⟨_, hnew, ?_, ?_⟩
  · unfold aggregateGraph
    rw [hnew]
    rfl
  · constructor
    · intro h n hn
      exact hi.rooted_of_cases hn (h.nodes n hn)
    · exact hi.lossless hunique hend

/-- A service, its endpoints and the pod that they are of. -/
def service : DependencyGraph where
  nodes := [
    { id := "Service/default/s", kind := "Service", name := "s" },
    { id := "Endpoints/default/s", kind := "Endpoints", name := "s" },
    { id := "Pod/default/p", kind := "Pod", name := "p" } ]
  edges := [
    ⟨"Service/default/s", "Endpoints/default/s", "owns"⟩,
    ⟨"Endpoints/default/s", "Pod/default/p", "references"⟩ ]

/-- Met in this order, the endpoints are a child of the pod, and the pod of
the root. -/
theorem service_lossless :
    ∃ new, aggregate service 5 "Service/default/s"
        (service.nodes.map (·.id)) (fun _ keys => keys) = some new
      ∧ Lossless (aggregation service 5 "Service/default/s"
        (service.nodes.map (·.id))) new := by
  obtain ⟨new, hnew, -, hiff⟩ := aggregate_lossless_iff service 5
    "Service/default/s" (service.nodes.map (·.id)) (fun _ keys => keys)
    (by decide) (by decide) (by decide) (fun _ keys => .refl keys)
  refine ⟨new, hnew, hiff.mpr ?_⟩
  have hpod : Rooted (aggregation service 5 "Service/default/s"
      (service.nodes.map (·.id))) "Pod/default/p" :=
    Rooted.node (n := service.nodes[2]) (by decide) .root
  intro n hn
  rcases List.mem_cons.mp hn with rfl | hn
  · exact .root
  · rcases List.mem_cons.mp hn with rfl | hn
    · exact Rooted.node (by decide) hpod
    · rw [List.mem_singleton.mp hn]
      exact hpod

/-- Met before the endpoints, the pod is their child, and they are its: the
new graph has the service alone. -/
theorem endpoints_lost :
    ∃ graph limit explicitRootID nodeOrder order new,
      Unique graph ∧ 1 ≤ limit ∧ explicitRootID ≠ ""
        ∧ (∃ n ∈ graph.nodes, n.id = explicitRootID)
        ∧ nodeOrder.Perm (graph.nodes.map (·.id))
        ∧ (∀ r keys, (order r keys).Perm keys)
        ∧ aggregate graph limit explicitRootID nodeOrder order = some new
        ∧ ¬ Lossless
          (aggregation graph limit explicitRootID nodeOrder) new := by
  refine ⟨service, 5, "Service/default/s",
    ["Service/default/s", "Pod/default/p", "Endpoints/default/s"],
    fun _ keys => keys, ⟨[.node service.nodes[0]], []⟩, by decide,
    by decide, by decide, by decide, by decide, fun _ keys => .refl keys,
    by decide, fun h => ?_⟩
  have hnone : ∀ key, ¬ Summarized
      ⟨[.node service.nodes[0]], []⟩ key := by
    rintro key ⟨remaining, hmem⟩
    simp at hmem
  rcases h.nodes service.nodes[2] (by decide) with
    h | ⟨-, h⟩ | ⟨-, -, m, ⟨-, h⟩, -⟩
  · exact absurd h (by unfold Kept; decide)
  · exact hnone _ h
  · exact hnone _ h

end Deps
