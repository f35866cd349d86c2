/-
What the aggregation of a dependency graph keeps, counts and loses.

# The argument

The children of a parent of one kind are one group, and they become
available together, in the round behind the one that processes their parent.
So every group is processed once, with all its members, and what the new
graph has can be read off the groups that have been processed (`Inv`): the
nodes that a group with a visible parent keeps, one summary for those that
it does not, and nothing of a group whose parent is hidden. Each round
processes a group more, and the loop ends when no parent of a node is
processed that is not processed itself.

So a node is processed if and only if following primary parents leads from
it to the root (`Rooted`), and one that is not is nowhere in the new graph.
-/
import Kubikles.Deps.Graph

namespace Deps

variable {a : Aggregation}

-- ======== the statement

/-- Following primary parents leads from a node to the root, or to one
without a primary parent. -/
inductive Rooted (a : Aggregation) : String → Prop where
  | root : Rooted a a.rootID
  | node {n : DependencyNode} (hn : n ∈ a.graph.nodes)
      (h : Rooted a (a.parentID n)) : Rooted a n.id

def Child (a : Aggregation) (n m : DependencyNode) : Prop :=
  n ∈ a.graph.nodes ∧ m ∈ a.graph.nodes ∧ n.id ≠ a.rootID
    ∧ a.parentID n = m.id

def Kept (new : NewGraph) (n : DependencyNode) : Prop :=
  .node n ∈ new.nodes

def Summarized (new : NewGraph) (key : GroupKey) : Prop :=
  ∃ remaining, .summary key remaining ∈ new.nodes

/-- A node is one of those that the summary of its primary parent and kind
stands for. -/
def Counted (a : Aggregation) (new : NewGraph) (n : DependencyNode) :
    Prop :=
  ¬ Kept new n ∧ Summarized new (a.keyOf n)

/-- A node is a descendant of one that is counted, and neither kept nor
counted itself. -/
def Below (a : Aggregation) (new : NewGraph) (n : DependencyNode) : Prop :=
  ¬ Kept new n ∧ ¬ Summarized new (a.keyOf n)
    ∧ ∃ m, Counted a new m ∧ Relation.TransGen (Child a) n m

def standsFor (a : Aggregation) (new : NewGraph) (key : GroupKey) :
    List DependencyNode :=
  a.graph.nodes.filter fun n => a.keyOf n = key ∧ .node n ∉ new.nodes

def Entry.summaryOf : Entry → Option GroupKey
  | .node _ => none
  | .summary key _ => some key

/-- Nothing is lost: every node is kept, counted, or a descendant of one
that is; a group has one summary at most, which counts what it stands for;
and edges between kept nodes are there. -/
structure Lossless (a : Aggregation) (new : NewGraph) : Prop where
  nodes : ∀ n ∈ a.graph.nodes,
    Kept new n ∨ Counted a new n ∨ Below a new n
  once : (new.nodes.filterMap Entry.summaryOf).Nodup
  counts : ∀ key remaining, .summary key remaining ∈ new.nodes →
    remaining = (standsFor a new key).length
  edges : ∀ e ∈ a.graph.edges, (∃ n, Kept new n ∧ n.id = e.source) →
    (∃ n, Kept new n ∧ n.id = e.target) → e ∈ new.edges

-- ======== groups

def Aggregation.children (a : Aggregation) (key : GroupKey) :
    List DependencyNode :=
  a.graph.nodes.filter fun n => n.id ≠ a.rootID && a.keyOf n = key

theorem mem_children {key : GroupKey} {n : DependencyNode} :
    n ∈ a.children key
      ↔ n ∈ a.graph.nodes ∧ n.id ≠ a.rootID ∧ a.keyOf n = key := by
  unfold Aggregation.children
  simp

theorem split_perm (a : Aggregation) (nodes : List DependencyNode) :
    ((a.split nodes).1 ++ (a.split nodes).2).Perm nodes := by
  unfold Aggregation.split
  split
  · simp
  · simp only [List.append_assoc, List.take_append_drop]
    exact List.filter_append_perm _ nodes

theorem mem_split {nodes : List DependencyNode} {n : DependencyNode} :
    n ∈ (a.split nodes).1 ∨ n ∈ (a.split nodes).2 ↔ n ∈ nodes := by
  rw [← List.mem_append]
  exact (split_perm a nodes).mem_iff

theorem split_disjoint {nodes : List DependencyNode} (h : nodes.Nodup)
    {n : DependencyNode} (hkept : n ∈ (a.split nodes).1) :
    n ∉ (a.split nodes).2 := by
  have hnodup := (split_perm a nodes).nodup_iff.mpr h
  exact fun hhidden => List.disjoint_of_nodup_append hnodup hkept hhidden

-- ======== the invariant

def Unique (graph : DependencyGraph) : Prop :=
  (graph.nodes.map DependencyNode.id).Nodup

instance Unique.decidable (graph : DependencyGraph) :
    Decidable (Unique graph) :=
  inferInstanceAs (Decidable (List.Nodup _))

theorem Unique.eq {graph : DependencyGraph} (h : Unique graph)
    {n m : DependencyNode} (hn : n ∈ graph.nodes) (hm : m ∈ graph.nodes)
    (hid : n.id = m.id) : n = m :=
  List.inj_on_of_nodup_map h hn hm hid

/-- What the variables of the loop are, where these groups have been
processed. -/
structure Inv (a : Aggregation) (done : List GroupKey) (s : State) :
    Prop where
  nodup : done.Nodup
  members : ∀ key ∈ done, ∃ n ∈ a.graph.nodes, a.keyOf n = key
  parents : ∀ key ∈ done, key.parentID ∈ s.processedNodes
  processed : ∀ id, id ∈ s.processedNodes
    ↔ id = a.rootID ∨ ∃ n ∈ a.graph.nodes, n.id = id ∧ n.id ≠ a.rootID
      ∧ a.keyOf n ∈ done
  rooted : ∀ id ∈ s.processedNodes, Rooted a id
  hidden : ∀ id, id ∈ s.hiddenNodes
    ↔ ∃ n ∈ a.graph.nodes, n.id = id ∧ n.id ≠ a.rootID
      ∧ a.keyOf n ∈ done
      ∧ (a.parentID n ∈ s.hiddenNodes
        ∨ n ∈ (a.split (a.children (a.keyOf n))).2)
  node : ∀ n, .node n ∈ s.entries
    ↔ n ∈ a.graph.nodes ∧ (n.id = a.rootID
      ∨ a.keyOf n ∈ done ∧ a.parentID n ∉ s.hiddenNodes
        ∧ n ∈ (a.split (a.children (a.keyOf n))).1)
  summary : ∀ key remaining, .summary key remaining ∈ s.entries
    ↔ key ∈ done ∧ key.parentID ∉ s.hiddenNodes
      ∧ (a.split (a.children key)).2 ≠ []
      ∧ remaining = (a.split (a.children key)).2.length
  once : (s.entries.filterMap Entry.summaryOf).Nodup
  kept : ∀ n, .node n ∈ s.entries → n.id ∈ s.keptNodes

variable {done : List GroupKey} {s : State} {key : GroupKey}

theorem Inv.fresh (hi : Inv a done s) (hunique : Unique a.graph)
    (hkey : key ∉ done) {n : DependencyNode} (hn : n ∈ a.children key) :
    n.id ∉ s.processedNodes := by
  obtain ⟨hmem, hroot, rfl⟩ := mem_children.mp hn
  intro hprocessed
  rcases (hi.processed n.id).mp hprocessed with h | ⟨m, hm, hid, -, hdone⟩
  · exact hroot h
  · obtain rfl := hunique.eq hm hmem hid
    exact hkey hdone

-- ======== one group

def hides (a : Aggregation) (key : GroupKey) (s : State) :
    List DependencyNode :=
  if key.parentID ∈ s.hiddenNodes then a.children key
  else (a.split (a.children key)).2

def adds (a : Aggregation) (key : GroupKey) (s : State) : List Entry :=
  if key.parentID ∈ s.hiddenNodes then []
  else
    (a.split (a.children key)).1.map .node
      ++ if (a.split (a.children key)).2 = [] then []
        else [.summary key (a.split (a.children key)).2.length]

theorem process_processedNodes (nodes : List DependencyNode) :
    (a.process key nodes s).processedNodes
      = s.processedNodes ++ nodes.map (·.id) := by
  unfold Aggregation.process
  split <;> rfl

theorem process_hiddenNodes :
    (a.process key (a.children key) s).hiddenNodes
      = s.hiddenNodes ++ (hides a key s).map (·.id) := by
  unfold Aggregation.process hides
  by_cases h : key.parentID ∈ s.hiddenNodes
  · simp [h]
  · simp [h]

theorem process_entries :
    (a.process key (a.children key) s).entries
      = s.entries ++ adds a key s := by
  unfold Aggregation.process adds
  by_cases h : key.parentID ∈ s.hiddenNodes
  · simp [h]
  · simp [h]

theorem mem_hides {n : DependencyNode} (hn : n ∈ a.children key) :
    n ∈ hides a key s
      ↔ key.parentID ∈ s.hiddenNodes
        ∨ n ∈ (a.split (a.children key)).2 := by
  unfold hides
  by_cases h : key.parentID ∈ s.hiddenNodes
  · simp [h, hn]
  · simp [h]

theorem hides_subset {n : DependencyNode} (h : n ∈ hides a key s) :
    n ∈ a.children key := by
  unfold hides at h
  split at h
  · exact h
  · exact mem_split.mp (.inr h)

theorem node_mem_adds {n : DependencyNode} :
    .node n ∈ adds a key s
      ↔ key.parentID ∉ s.hiddenNodes
        ∧ n ∈ (a.split (a.children key)).1 := by
  unfold adds
  by_cases h : key.parentID ∈ s.hiddenNodes
  · simp [h]
  · by_cases hnone : (a.split (a.children key)).2 = [] <;> simp [h, hnone]

theorem process_keptNodes {n : DependencyNode}
    (h : n.id ∈ s.keptNodes ∨ .node n ∈ adds a key s) :
    n.id ∈ (a.process key (a.children key) s).keptNodes := by
  unfold Aggregation.process
  by_cases hhidden : key.parentID ∈ s.hiddenNodes
  · rcases h with h | h
    · simp [hhidden, h]
    · exact absurd hhidden (node_mem_adds.mp h).1
  · have hmem : n.id ∈ s.keptNodes
        ++ (a.split (a.children key)).1.map (·.id) := by
      rcases h with h | h
      · exact List.mem_append_left _ h
      · exact List.mem_append_right _
          (List.mem_map.mpr ⟨n, (node_mem_adds.mp h).2, rfl⟩)
    rw [if_neg (by simpa using hhidden)]
    exact List.mem_append_left _ hmem

theorem summary_mem_adds {key' : GroupKey} {remaining : Nat} :
    .summary key' remaining ∈ adds a key s
      ↔ key' = key ∧ key.parentID ∉ s.hiddenNodes
        ∧ (a.split (a.children key)).2 ≠ []
        ∧ remaining = (a.split (a.children key)).2.length := by
  unfold adds
  by_cases h : key.parentID ∈ s.hiddenNodes
  · simp [h]
  · by_cases hnone : (a.split (a.children key)).2 = []
    · simp [h, hnone]
    · simp [h, hnone]

theorem summaryOf_adds :
    ((adds a key s).filterMap Entry.summaryOf).Sublist [key] := by
  unfold adds
  have hnodes : ((a.split (a.children key)).1.map Entry.node).filterMap
      Entry.summaryOf = [] := by
    rw [List.filterMap_map]
    exact List.filterMap_eq_nil_iff.mpr fun _ _ => rfl
  split
  · exact List.nil_sublist _
  · rw [List.filterMap_append, hnodes, List.nil_append]
    split
    · exact List.nil_sublist _
    · exact List.Sublist.refl _

/-- Hiding members of the group hides no parent of a group that has been
processed. -/
theorem Inv.parent_hidden_iff (hi : Inv a done s)
    (hunique : Unique a.graph) (hkey : key ∉ done) {id : String}
    (hid : id ∈ s.processedNodes) :
    id ∈ (a.process key (a.children key) s).hiddenNodes
      ↔ id ∈ s.hiddenNodes := by
  rw [process_hiddenNodes, List.mem_append]
  refine ⟨fun h => ?_, .inl⟩
  rcases h with h | h
  · exact h
  · obtain ⟨n, hn, rfl⟩ := List.mem_map.mp h
    exact absurd hid (hi.fresh hunique hkey (hides_subset hn))

/-- The parent of a member of a group that has been processed has been
processed. -/
theorem Inv.parent_processed (hi : Inv a done s) {n : DependencyNode}
    (h : a.keyOf n ∈ done) : a.parentID n ∈ s.processedNodes :=
  hi.parents (a.keyOf n) h

/-- A group more is processed, with all its members. -/
theorem Inv.process (hi : Inv a done s) (hunique : Unique a.graph)
    (hkey : key ∉ done) (hmember : ∃ n ∈ a.graph.nodes, a.keyOf n = key)
    (hparent : key.parentID ∈ s.processedNodes) :
    Inv a (done ++ [key]) (a.process key (a.children key) s) where
  nodup := by
    rw [List.nodup_append]
    refine ⟨hi.nodup, List.nodup_singleton key, ?_⟩
    intro k hk k' hk' heq
    rw [List.mem_singleton] at hk'
    exact hkey (hk' ▸ heq ▸ hk)
  members := by
    intro k hk
    rcases List.mem_append.mp hk with hk | hk
    · exact hi.members k hk
    · rw [List.mem_singleton.mp hk]
      exact hmember
  parents := by
    intro k hk
    rw [process_processedNodes]
    refine List.mem_append_left _ ?_
    rcases List.mem_append.mp hk with hk | hk
    · exact hi.parents k hk
    · rw [List.mem_singleton.mp hk]
      exact hparent
  processed := by
    intro id
    rw [process_processedNodes, List.mem_append, hi.processed id]
    constructor
    · rintro ((h | ⟨n, hn, hid, hroot, hdone⟩) | h)
      · exact .inl h
      · exact .inr ⟨n, hn, hid, hroot, List.mem_append_left _ hdone⟩
      · obtain ⟨n, hmem, rfl⟩ := List.mem_map.mp h
        obtain ⟨hn, hroot, rfl⟩ := mem_children.mp hmem
        exact .inr ⟨n, hn, rfl, hroot, List.mem_append_right _
          (List.mem_singleton.mpr rfl)⟩
    · rintro (h | ⟨n, hn, rfl, hroot, hdone⟩)
      · exact .inl (.inl h)
      · rcases List.mem_append.mp hdone with hdone | hdone
        · exact .inl (.inr ⟨n, hn, rfl, hroot, hdone⟩)
        · exact .inr (List.mem_map.mpr ⟨n, mem_children.mpr
            ⟨hn, hroot, List.mem_singleton.mp hdone⟩, rfl⟩)
  rooted := by
    intro id hid
    rw [process_processedNodes, List.mem_append] at hid
    rcases hid with hid | hid
    · exact hi.rooted id hid
    · obtain ⟨n, hmem, rfl⟩ := List.mem_map.mp hid
      obtain ⟨hn, -, rfl⟩ := mem_children.mp hmem
      exact .node hn (hi.rooted _ hparent)
  hidden := by
    intro id
    have hsame : ∀ n, a.keyOf n ∈ done →
        (a.parentID n ∈ (a.process key (a.children key) s).hiddenNodes
          ↔ a.parentID n ∈ s.hiddenNodes) := fun n hdone =>
      hi.parent_hidden_iff hunique hkey (hi.parent_processed hdone)
    have hself := hi.parent_hidden_iff hunique hkey hparent
    rw [process_hiddenNodes, List.mem_append, ← process_hiddenNodes]
    constructor
    · rintro (h | h)
      · obtain ⟨n, hn, hid, hroot, hdone, hwhy⟩ := (hi.hidden id).mp h
        exact ⟨n, hn, hid, hroot, List.mem_append_left _ hdone,
          hwhy.imp_left (hsame n hdone).mpr⟩
      · obtain ⟨n, hhides, rfl⟩ := List.mem_map.mp h
        have hchild := hides_subset hhides
        obtain ⟨hn, hroot, rfl⟩ := mem_children.mp hchild
        exact ⟨n, hn, rfl, hroot, List.mem_append_right _
          (List.mem_singleton.mpr rfl),
          ((mem_hides hchild).mp hhides).imp_left hself.mpr⟩
    · rintro ⟨n, hn, rfl, hroot, hdone, hwhy⟩
      rcases List.mem_append.mp hdone with hdone | hdone
      · exact .inl ((hi.hidden n.id).mpr ⟨n, hn, rfl, hroot, hdone,
          hwhy.imp_left (hsame n hdone).mp⟩)
      · obtain rfl := List.mem_singleton.mp hdone
        have hchild := mem_children.mpr ⟨hn, hroot, rfl⟩
        exact .inr (List.mem_map.mpr ⟨n, (mem_hides hchild).mpr
          (hwhy.imp_left hself.mp), rfl⟩)
  node := by
    intro n
    have hsame : a.keyOf n ∈ done →
        (a.parentID n ∈ (a.process key (a.children key) s).hiddenNodes
          ↔ a.parentID n ∈ s.hiddenNodes) := fun hdone =>
      hi.parent_hidden_iff hunique hkey (hi.parent_processed hdone)
    have hself := hi.parent_hidden_iff hunique hkey hparent
    rw [process_entries, List.mem_append, hi.node n, node_mem_adds]
    constructor
    · rintro (⟨hn, hroot | ⟨hdone, hvisible, hsplit⟩⟩ | ⟨hvisible, hsplit⟩)
      · exact ⟨hn, .inl hroot⟩
      · exact ⟨hn, .inr ⟨List.mem_append_left _ hdone,
          fun h => hvisible ((hsame hdone).mp h), hsplit⟩⟩
      · obtain ⟨hn, -, rfl⟩ := mem_children.mp (mem_split.mp (.inl hsplit))
        exact ⟨hn, .inr ⟨List.mem_append_right _
          (List.mem_singleton.mpr rfl),
          fun h => hvisible (hself.mp h), hsplit⟩⟩
    · rintro ⟨hn, hroot | ⟨hdone, hvisible, hsplit⟩⟩
      · exact .inl ⟨hn, .inl hroot⟩
      · rcases List.mem_append.mp hdone with hdone | hdone
        · exact .inl ⟨hn, .inr ⟨hdone,
            fun h => hvisible ((hsame hdone).mpr h), hsplit⟩⟩
        · obtain rfl := List.mem_singleton.mp hdone
          exact .inr ⟨fun h => hvisible (hself.mpr h), hsplit⟩
  summary := by
    intro k remaining
    have hsame : k ∈ done →
        (k.parentID ∈ (a.process key (a.children key) s).hiddenNodes
          ↔ k.parentID ∈ s.hiddenNodes) := fun hdone =>
      hi.parent_hidden_iff hunique hkey (hi.parents k hdone)
    have hself := hi.parent_hidden_iff hunique hkey hparent
    rw [process_entries, List.mem_append, hi.summary k remaining,
      summary_mem_adds]
    constructor
    · rintro (⟨hdone, hvisible, hrest⟩ | ⟨rfl, hvisible, hrest⟩)
      · exact ⟨List.mem_append_left _ hdone,
          fun h => hvisible ((hsame hdone).mp h), hrest⟩
      · exact ⟨List.mem_append_right _ (List.mem_singleton.mpr rfl),
          fun h => hvisible (hself.mp h), hrest⟩
    · rintro ⟨hdone, hvisible, hrest⟩
      rcases List.mem_append.mp hdone with hdone | hdone
      · exact .inl ⟨hdone, fun h => hvisible ((hsame hdone).mpr h), hrest⟩
      · obtain rfl := List.mem_singleton.mp hdone
        exact .inr ⟨rfl, fun h => hvisible (hself.mpr h), hrest⟩
  once := by
    rw [process_entries, List.filterMap_append, List.nodup_append]
    refine ⟨hi.once, summaryOf_adds.nodup (List.nodup_singleton key), ?_⟩
    intro k hk k' hk' heq
    obtain rfl := List.mem_singleton.mp (summaryOf_adds.subset hk')
    obtain ⟨entry, hentry, hof⟩ := List.mem_filterMap.mp hk
    cases entry with
    | node n => cases hof
    | summary k'' remaining =>
      obtain rfl := Option.some.inj hof
      exact hkey (heq ▸ ((hi.summary k'' remaining).mp hentry).1)
  kept := by
    intro n hn
    rw [process_entries, List.mem_append] at hn
    exact process_keptNodes (hn.imp_left (hi.kept n))

end Deps
