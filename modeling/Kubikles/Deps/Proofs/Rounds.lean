/-
The rounds of the aggregation, and where they end.

# The argument

A key of a round is of a group that has not been processed, whose parent
has, and the nodes under it are all the members (`Inv.key_of_round`). So a
round processes the groups of its keys, in whichever order it meets them
(`Inv.round`). There are no more groups than nodes, and so the loop ends
within one round more (`Inv.loop`). Where it ends no node has a parent that
is processed without being processed itself, and the nodes processed are
those that are rooted (`Inv.processed_iff`).
-/
import Kubikles.Deps.Proofs.Aggregate

namespace Deps

variable {a : Aggregation} {done : List GroupKey} {s : State}

-- ======== the start

theorem nodeByID_of_mem {graph : DependencyGraph} (h : Unique graph)
    {n : DependencyNode} (hn : n ∈ graph.nodes) :
    graph.nodeByID n.id = some n := by
  unfold DependencyGraph.nodeByID
  cases hfind : graph.nodes.reverse.find? (·.id = n.id) with
  | none =>
    have hnone := List.find?_eq_none.mp hfind n (List.mem_reverse.mpr hn)
    simp at hnone
  | some m =>
    have hm := List.mem_reverse.mp (List.mem_of_find?_eq_some hfind)
    have hid : m.id = n.id := by simpa using List.find?_some hfind
    rw [h.eq hm hn hid]

theorem nodeByID_eq_some {graph : DependencyGraph} (h : Unique graph)
    {id : String} {n : DependencyNode} :
    graph.nodeByID id = some n ↔ n ∈ graph.nodes ∧ n.id = id := by
  constructor
  · intro hfind
    refine ⟨List.mem_reverse.mp (List.mem_of_find?_eq_some hfind), ?_⟩
    simpa using List.find?_some hfind
  · rintro ⟨hn, rfl⟩
    exact nodeByID_of_mem h hn

theorem start_eq (hunique : Unique a.graph) {root : DependencyNode}
    (hmem : root ∈ a.graph.nodes) (hid : root.id = a.rootID)
    (hne : a.rootID ≠ "") :
    a.start = { entries := [.node root]
                keptNodes := [a.rootID]
                processedNodes := [a.rootID] } := by
  unfold Aggregation.start
  rw [if_neg hne, ← hid, nodeByID_of_mem hunique hmem]
  rfl

theorem start_eq_none (hnone : ∀ n ∈ a.graph.nodes, n.id ≠ a.rootID) :
    a.start = { processedNodes := [a.rootID] } := by
  have hlookup : a.graph.nodeByID a.rootID = none := by
    unfold DependencyGraph.nodeByID
    rw [List.find?_eq_none]
    intro n hn
    simpa using hnone n (List.mem_reverse.mp hn)
  unfold Aggregation.start
  rw [hlookup, ite_self]
  rfl

theorem Inv.start_root (hunique : Unique a.graph) {root : DependencyNode}
    (hmem : root ∈ a.graph.nodes) (hid : root.id = a.rootID)
    (hne : a.rootID ≠ "") : Inv a [] a.start := by
  rw [start_eq hunique hmem hid hne]
  exact
    { nodup := List.nodup_nil
      members := by simp
      parents := by simp
      processed := by simp
      rooted := by
        intro id hprocessed
        rw [List.mem_singleton.mp hprocessed]
        exact .root
      hidden := by simp
      node := by
        intro n
        constructor
        · intro hn
          obtain rfl : n = root := by simpa using hn
          exact ⟨hmem, .inl hid⟩
        · rintro ⟨hn, hroot | ⟨hdone, -⟩⟩
          · simp [hunique.eq hn hmem (hroot.trans hid.symm)]
          · cases hdone
      summary := by simp
      once := List.nodup_nil
      kept := by
        intro n hn
        obtain rfl : n = root := by simpa using hn
        simp [hid] }

theorem Inv.start_none (hnone : ∀ n ∈ a.graph.nodes, n.id ≠ a.rootID) :
    Inv a [] a.start := by
  rw [start_eq_none hnone]
  exact
    { nodup := List.nodup_nil
      members := by simp
      parents := by simp
      processed := by simp
      rooted := by
        intro id hprocessed
        rw [List.mem_singleton.mp hprocessed]
        exact .root
      hidden := by simp
      node := by
        intro n
        constructor
        · intro hn
          cases hn
        · rintro ⟨hn, hroot | ⟨hdone, -⟩⟩
          · exact absurd hroot (hnone n hn)
          · cases hdone
      summary := by simp
      once := List.nodup_nil
      kept := by simp }

theorem Inv.start (hunique : Unique a.graph)
    (hne : ∀ n ∈ a.graph.nodes, n.id = a.rootID → a.rootID ≠ "") :
    Inv a [] a.start := by
  by_cases h : ∃ n ∈ a.graph.nodes, n.id = a.rootID
  · obtain ⟨root, hmem, hid⟩ := h
    exact .start_root hunique hmem hid (hne root hmem hid)
  · exact .start_none fun n hn hid => h ⟨n, hn, hid⟩

-- ======== one round

theorem mem_available {n : DependencyNode} :
    n ∈ a.available s
      ↔ n ∈ a.graph.nodes ∧ n.id ∉ s.processedNodes
        ∧ (a.parentID n ∈ s.processedNodes ∨ a.parentID n = a.rootID) := by
  unfold Aggregation.available
  simp

theorem mem_keys {key : GroupKey} :
    key ∈ a.keys s ↔ ∃ n ∈ a.available s, a.keyOf n = key := by
  unfold Aggregation.keys
  rw [List.mem_dedup, List.mem_map]

theorem Inv.root_processed (hi : Inv a done s) :
    a.rootID ∈ s.processedNodes :=
  (hi.processed a.rootID).mpr (.inl rfl)

theorem Inv.mem_available (hi : Inv a done s) {n : DependencyNode} :
    n ∈ a.available s
      ↔ n ∈ a.graph.nodes ∧ n.id ∉ s.processedNodes
        ∧ a.parentID n ∈ s.processedNodes := by
  rw [Deps.mem_available]
  refine and_congr_right fun _ => and_congr_right fun _ => ?_
  constructor
  · rintro (h | h)
    · exact h
    · rw [h]
      exact hi.root_processed
  · exact .inl

/-- What processing a group asks of its key, where these nodes are
available. -/
structure Ready (a : Aggregation) (done : List GroupKey) (s : State)
    (available : List DependencyNode) (key : GroupKey) : Prop where
  fresh : key ∉ done
  parent : key.parentID ∈ s.processedNodes
  member : ∃ n ∈ a.graph.nodes, a.keyOf n = key
  all : available.filter (a.keyOf · = key) = a.children key

theorem Inv.key_of_round (hi : Inv a done s) (hunique : Unique a.graph)
    {key : GroupKey} (hkey : key ∈ a.keys s) :
    Ready a done s (a.available s) key := by
  obtain ⟨n, havailable, rfl⟩ := mem_keys.mp hkey
  obtain ⟨hn, hfresh, hparent⟩ := hi.mem_available.mp havailable
  have hroot : n.id ≠ a.rootID := fun h =>
    hfresh (h ▸ hi.root_processed)
  have hdone : a.keyOf n ∉ done := fun h =>
    hfresh ((hi.processed n.id).mpr (.inr ⟨n, hn, rfl, hroot, h⟩))
  refine ⟨hdone, hparent, ⟨n, hn, rfl⟩, ?_⟩
  unfold Aggregation.available Aggregation.children
  rw [List.filter_filter]
  apply List.filter_congr
  intro m hm
  by_cases hsame : a.keyOf m = a.keyOf n
  · have hparent' : a.parentID m ∈ s.processedNodes := by
      rw [show a.parentID m = a.parentID n from
        congrArg GroupKey.parentID hsame]
      exact hparent
    by_cases hid : m.id = a.rootID
    · have hprocessed := hi.root_processed
      simp [hid, hprocessed]
    · have hunprocessed := hi.fresh hunique hdone
        (mem_children.mpr ⟨hm, hid, hsame⟩)
      simp [hsame, hid, hparent', hunprocessed]
  · simp [hsame]

theorem Ready.process {available : List DependencyNode}
    {key key' : GroupKey} (h : Ready a done s available key)
    (hne : key ≠ key') (nodes : List DependencyNode) :
    Ready a (done ++ [key']) (a.process key' nodes s) available key where
  fresh := by
    intro hmem
    rcases List.mem_append.mp hmem with hmem | hmem
    · exact h.fresh hmem
    · exact hne (List.mem_singleton.mp hmem)
  parent := by
    rw [process_processedNodes]
    exact List.mem_append_left _ h.parent
  member := h.member
  all := h.all

theorem Inv.groups (hunique : Unique a.graph)
    {available : List DependencyNode} :
    ∀ {order done s}, Inv a done s → order.Nodup →
      (∀ key ∈ order, Ready a done s available key) →
      Inv a (done ++ order) (order.foldl (fun s key =>
        a.process key (available.filter (a.keyOf · = key)) s) s) := by
  intro order
  induction order with
  | nil =>
    intro done s hi _ _
    rw [List.append_nil]
    exact hi
  | cons key order ih =>
    intro done s hi hnodup hready
    obtain ⟨hkey, hnodup⟩ := List.nodup_cons.mp hnodup
    have hfirst := hready key List.mem_cons_self
    rw [List.append_cons, List.foldl_cons, hfirst.all]
    apply ih _ hnodup
    · intro key' hmem
      have hne : key' ≠ key := fun h => hkey (h ▸ hmem)
      exact (hready key' (List.mem_cons_of_mem _ hmem)).process hne _
    · exact hi.process hunique hfirst.fresh hfirst.member hfirst.parent

theorem Inv.round (hi : Inv a done s) (hunique : Unique a.graph)
    {order : List GroupKey} (horder : order.Perm (a.keys s)) :
    Inv a (done ++ order) (a.round order s) := by
  apply Inv.groups hunique hi
  · exact horder.nodup_iff.mpr (List.nodup_dedup _)
  · exact fun key hkey =>
      hi.key_of_round hunique (horder.mem_iff.mp hkey)

-- ======== the loop

theorem Inv.length_le (hi : Inv a done s) :
    done.length ≤ a.graph.nodes.length := by
  have hsubset : done ⊆ a.graph.nodes.map a.keyOf := by
    intro key hkey
    obtain ⟨n, hn, rfl⟩ := hi.members key hkey
    exact List.mem_map_of_mem hn
  have hle := (hi.nodup.subperm hsubset).length_le
  rwa [List.length_map] at hle

/-- With a round for each group left, the loop ends, and no node is
available then. -/
theorem Inv.loop (hunique : Unique a.graph)
    {order : Nat → List GroupKey → List GroupKey}
    (horder : ∀ r keys, (order r keys).Perm keys) :
    ∀ {fuel done s}, Inv a done s →
      a.graph.nodes.length < done.length + fuel →
      ∃ done' s', a.loop order fuel s = some s' ∧ Inv a done' s'
        ∧ a.keys s' = [] := by
  intro fuel
  induction fuel with
  | zero =>
    intro done s hi hfuel
    have hle := hi.length_le
    omega
  | succ fuel ih =>
    intro done s hi hfuel
    unfold Aggregation.loop
    split
    · next hend =>
        exact ⟨done, s, rfl, hi, List.isEmpty_iff.mp hend⟩
    · next hmore =>
        have hperm := horder fuel (a.keys s)
        have hlength : 0 < (a.keys s).length := by
          rw [List.length_pos_iff]
          exact fun h => hmore (List.isEmpty_iff.mpr h)
        apply ih (hi.round hunique hperm)
        rw [List.length_append, hperm.length_eq]
        omega

theorem Inv.processed_iff (hi : Inv a done s) (hend : a.keys s = [])
    {id : String} : id ∈ s.processedNodes ↔ Rooted a id := by
  refine ⟨hi.rooted id, fun h => ?_⟩
  induction h with
  | root => exact hi.root_processed
  | @node n hn _ ih =>
    by_contra hfresh
    have hkey : a.keyOf n ∈ a.keys s :=
      mem_keys.mpr ⟨n, hi.mem_available.mpr ⟨hn, hfresh, ih⟩, rfl⟩
    rw [hend] at hkey
    cases hkey

-- ======== the result

def Aggregation.result (a : Aggregation) (s : State) : NewGraph where
  nodes := s.entries
  edges := a.rebuild s.keptNodes

def State.KeepsIDs (s : State) : Prop :=
  s.keptNodes = s.entries.map (·.toNode.id)

theorem keepsIDs_start (hunique : Unique a.graph)
    (hne : ∀ n ∈ a.graph.nodes, n.id = a.rootID → a.rootID ≠ "") :
    a.start.KeepsIDs := by
  unfold State.KeepsIDs
  by_cases h : ∃ n ∈ a.graph.nodes, n.id = a.rootID
  · obtain ⟨root, hmem, hid⟩ := h
    rw [start_eq hunique hmem hid (hne root hmem hid)]
    simp [Entry.toNode, hid]
  · rw [start_eq_none fun n hn hid => h ⟨n, hn, hid⟩]
    rfl

theorem State.KeepsIDs.process (h : s.KeepsIDs) (key : GroupKey)
    (nodes : List DependencyNode) : (a.process key nodes s).KeepsIDs := by
  have hnodes : ((a.split nodes).1.map Entry.node).map (·.toNode.id)
      = (a.split nodes).1.map (·.id) := by
    rw [List.map_map]
    rfl
  unfold Aggregation.process
  dsimp only
  split
  · exact h
  · unfold State.KeepsIDs at h ⊢
    dsimp only
    rw [List.map_append, List.map_append, hnodes, h]
    split <;> rfl

theorem State.KeepsIDs.groups (h : s.KeepsIDs)
    (available : List DependencyNode) (keys : List GroupKey) :
    (keys.foldl (fun s key =>
      a.process key (available.filter (a.keyOf · = key)) s) s).KeepsIDs := by
  induction keys generalizing s with
  | nil => exact h
  | cons key keys ih => exact ih (h.process key _)

theorem State.KeepsIDs.loop
    {order : Nat → List GroupKey → List GroupKey} :
    ∀ {fuel s s'}, s.KeepsIDs → a.loop order fuel s = some s' →
      s'.KeepsIDs := by
  intro fuel
  induction fuel with
  | zero =>
    intro s s' _ hloop
    cases hloop
  | succ fuel ih =>
    intro s s' h hloop
    unfold Aggregation.loop at hloop
    split at hloop
    · cases hloop
      exact h
    · exact ih (h.groups _ _) hloop

/-- The aggregation ends, in a state where the invariant holds and no node
is available. -/
theorem exists_aggregate (graph : DependencyGraph) (limit : Int)
    (explicitRootID : String) (nodeOrder : List String)
    (order : Nat → List GroupKey → List GroupKey) (hunique : Unique graph)
    (hne : ∀ n ∈ graph.nodes, n.id = graph.rootOf explicitRootID →
      graph.rootOf explicitRootID ≠ "")
    (horder : ∀ r keys, (order r keys).Perm keys) :
    ∃ done s, aggregate graph limit explicitRootID nodeOrder order
        = some ((aggregation graph limit explicitRootID nodeOrder).result s)
      ∧ Inv (aggregation graph limit explicitRootID nodeOrder) done s
      ∧ (aggregation graph limit explicitRootID nodeOrder).keys s = []
      ∧ s.KeepsIDs := by
  have hstart : Inv (aggregation graph limit explicitRootID nodeOrder) []
      (aggregation graph limit explicitRootID nodeOrder).start :=
    Inv.start hunique hne
  obtain ⟨done, s, hloop, hi, hend⟩ := Inv.loop hunique horder hstart
    (show graph.nodes.length < 0 + (graph.nodes.length + 1) by omega)
  refine ⟨done, s, ?_, hi, hend,
    (keepsIDs_start hunique hne).loop hloop⟩
  unfold aggregate
  dsimp only
  rw [hloop]
  rfl

end Deps
