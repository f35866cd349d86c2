/-
What the expansions of a summary show.

# The argument

The calls for one summary go through the list of matching nodes in steps of
ten, from the sixth on, and end with it (`expandAll_eq`). So what they show
is that list without its first five, and the children of its batches; and
what the summary stands for is the hidden part of its group. The two lists
are in different orders, and not of the same nodes: a group is ordered like
the nodes, with those that connect kinds first, the matching nodes like the
edges. A summary is expanded in full if and only if each hidden node is a
matching node behind the first five, or a child of what is shown with one
(`expand_iff`).
-/
import Mathlib.Data.List.TakeWhile
import Kubikles.Deps.Proofs.Lossless

namespace Deps

variable {graph : DependencyGraph} {summaryNodeID parentID kind : String}

-- ======== the IDs of summaries

theorem summaryID_toList (key : GroupKey) :
    key.summaryID.toList = "summary:".toList
      ++ (key.parentID.toList ++ ':' :: key.kind.toList) := by
  unfold GroupKey.summaryID
  simp [String.toList_append]

theorem splitSummaryID_rest (key : GroupKey) :
    splitSummaryID key.summaryID
      = let rest := key.parentID.toList ++ ':' :: key.kind.toList
        let kind := (rest.reverse.takeWhile (· ≠ ':')).reverse
        if kind.length < rest.length then
          some (String.ofList (rest.take (rest.length - kind.length - 1)),
            String.ofList kind)
        else none := by
  have hdrop : ("summary:".toList
      ++ (key.parentID.toList ++ ':' :: key.kind.toList)).drop 8
        = key.parentID.toList ++ ':' :: key.kind.toList :=
    List.drop_left' (by decide)
  unfold splitSummaryID
  rw [summaryID_toList, if_pos (List.isPrefixOf_iff_prefix.mpr
    (List.prefix_append _ _)), hdrop]

theorem splitSummaryID_isSome (key : GroupKey) :
    ∃ parentID kind, splitSummaryID key.summaryID
      = some (parentID, kind) := by
  rw [splitSummaryID_rest]
  generalize hrest : key.parentID.toList ++ ':' :: key.kind.toList = rest
  have hcolon : ':' ∈ rest := by
    rw [← hrest]
    simp
  have hlt : ((rest.reverse.takeWhile (· ≠ ':')).reverse).length
      < rest.length := by
    have hrest : rest.length = rest.reverse.length :=
      List.length_reverse.symm
    rw [List.length_reverse, hrest]
    refine lt_of_le_of_ne (List.takeWhile_prefix _).length_le fun heq => ?_
    have hall := List.takeWhile_eq_self_iff.mp
      ((List.takeWhile_prefix _).eq_of_length heq) ':'
      (List.mem_reverse.mpr hcolon)
    simp at hall
  dsimp only
  rw [if_pos hlt]
  exact ⟨_, _, rfl⟩

theorem splitSummaryID_eq (key : GroupKey) (h : ':' ∉ key.kind.toList) :
    splitSummaryID key.summaryID = some (key.parentID, key.kind) := by
  have hkind : (key.parentID.toList
      ++ ':' :: key.kind.toList).reverse.takeWhile (· ≠ ':')
        = key.kind.toList.reverse := by
    rw [List.reverse_append, List.reverse_cons, List.append_assoc,
      List.takeWhile_append_of_pos]
    · simp
    · intro c hc
      have hne : c ≠ ':' := fun heq => h (heq ▸ List.mem_reverse.mp hc)
      simpa using hne
  rw [splitSummaryID_rest]
  dsimp only
  rw [hkind, List.reverse_reverse, if_pos (by simp; omega)]
  have hlength : (key.parentID.toList ++ ':' :: key.kind.toList).length
      - key.kind.toList.length - 1 = key.parentID.toList.length := by
    rw [List.length_append, List.length_cons]
    omega
  rw [hlength, List.take_left, String.ofList_toList, String.ofList_toList]

/-- The ID of a summary is split into what it is made of exactly if the kind
holds no colon; the ID of the parent may hold any. -/
theorem splitSummaryID_iff (key : GroupKey) :
    splitSummaryID key.summaryID = some (key.parentID, key.kind)
      ↔ ':' ∉ key.kind.toList := by
  refine ⟨fun h hcolon => ?_, splitSummaryID_eq key⟩
  rw [splitSummaryID_rest] at h
  dsimp only at h
  split at h
  next =>
    have hkind := (Prod.mk.inj (Option.some.inj h)).2
    rw [← hkind, String.toList_ofList, List.mem_reverse] at hcolon
    simpa using List.mem_takeWhile_imp hcolon
  next => cases h

-- ======== the calls

theorem withChildren_nil : graph.withChildren [] = [] := by
  unfold DependencyGraph.withChildren
  refine List.foldlRecOn (motive := (· = [])) graph.edges _ rfl ?_
  rintro _ rfl e -
  have hnone : e.childOf (fun _ => false) = "" := by
    unfold DependencyEdge.childOf
    split <;> rfl
  simp [hnone]

theorem batch_nil {offset : Nat}
    (h : (graph.matchingNodes parentID kind).length ≤ offset) :
    graph.batch parentID kind offset = [] := by
  unfold DependencyGraph.batch
  rw [List.drop_eq_nil_of_le h, List.take_nil]

theorem expand_eq (graph : DependencyGraph)
    (hsplit : splitSummaryID summaryNodeID = some (parentID, kind))
    (offset : Nat) :
    ∃ g, graph.expandDependencyNode summaryNodeID offset = some g
      ∧ (∀ n, .node n ∈ g.nodes
        ↔ n ∈ graph.withChildren (graph.batch parentID kind offset))
      ∧ (g.nodes.any Entry.isSummary = true
        ↔ offset + expansionLimit
          < (graph.matchingNodes parentID kind).length) := by
  unfold DependencyGraph.expandDependencyNode
  rw [hsplit]
  refine ⟨_, rfl, fun n => ?_, ?_⟩
  · simp
  · have hnodes : ∀ nodes : List DependencyNode,
        (nodes.map Entry.node).any Entry.isSummary = false := by
      intro nodes
      simp [Entry.isSummary]
    dsimp only
    generalize (graph.matchingNodes parentID kind).length = length
    rw [List.any_append, hnodes, Bool.false_or]
    split
    · simp [Entry.isSummary]
      omega
    · simp
      omega

theorem last_batch {g : NewGraph} {offset : Nat}
    (hnodes : ∀ n, .node n ∈ g.nodes
      ↔ n ∈ graph.withChildren (graph.batch parentID kind offset))
    (hend : (graph.matchingNodes parentID kind).length
      ≤ offset + expansionLimit) (n : DependencyNode) :
    (∃ g' ∈ [g], .node n ∈ g'.nodes)
      ↔ ∃ i, n ∈ graph.withChildren
        (graph.batch parentID kind (offset + expansionLimit * i)) := by
  rw [List.exists_mem_cons_iff, hnodes]
  constructor
  · rintro (h | ⟨g', hg', -⟩)
    · exact ⟨0, h⟩
    · cases hg'
  · rintro ⟨i, h⟩
    cases i with
    | zero => exact .inl h
    | succ i =>
      have hnil : graph.batch parentID kind
          (offset + expansionLimit * (i + 1)) = [] := by
        apply batch_nil
        rw [Nat.mul_succ]
        omega
      rw [hnil, withChildren_nil] at h
      cases h

/-- The calls from an offset on end, and show the batches from there on,
with their children. -/
theorem expandAll_eq (graph : DependencyGraph)
    (hsplit : splitSummaryID summaryNodeID = some (parentID, kind))
    (fuel offset : Nat)
    (hfuel : (graph.matchingNodes parentID kind).length
      ≤ offset + expansionLimit * (fuel + 1)) :
    ∃ g rest, graph.expandAll summaryNodeID (fuel + 1) offset
        = some (g :: rest)
      ∧ (∀ n, .node n ∈ g.nodes
        ↔ n ∈ graph.withChildren (graph.batch parentID kind offset))
      ∧ ∀ n, (∃ g' ∈ g :: rest, .node n ∈ g'.nodes)
        ↔ ∃ i, n ∈ graph.withChildren
          (graph.batch parentID kind (offset + expansionLimit * i)) := by
  induction fuel generalizing offset with
  | zero =>
    obtain ⟨g, hg, hnodes, hsummary⟩ := expand_eq graph hsplit offset
    have hlast : ¬ g.nodes.any Entry.isSummary = true := by
      rw [hsummary]
      omega
    refine ⟨g, [], ?_, hnodes, last_batch hnodes (by omega)⟩
    unfold DependencyGraph.expandAll
    rw [hg]
    exact if_neg hlast
  | succ fuel ih =>
    obtain ⟨g, hg, hnodes, hsummary⟩ := expand_eq graph hsplit offset
    by_cases hmore : offset + expansionLimit
        < (graph.matchingNodes parentID kind).length
    · rw [Nat.mul_succ] at hfuel
      obtain ⟨g', rest, hrest, -, hall⟩ := ih (offset + expansionLimit)
        (by omega)
      refine ⟨g, g' :: rest, ?_, hnodes, fun n => ?_⟩
      · rw [DependencyGraph.expandAll, hg]
        dsimp only
        rw [if_pos (hsummary.mpr hmore), hrest]
        rfl
      · rw [List.exists_mem_cons_iff, hnodes, hall]
        constructor
        · rintro (h | ⟨i, h⟩)
          · exact ⟨0, h⟩
          · refine ⟨i + 1, ?_⟩
            rw [Nat.mul_succ, Nat.add_comm _ expansionLimit,
              ← Nat.add_assoc]
            exact h
        · rintro ⟨i, h⟩
          cases i with
          | zero => exact .inl h
          | succ i =>
            refine .inr ⟨i, ?_⟩
            rw [Nat.mul_succ, Nat.add_comm _ expansionLimit,
              ← Nat.add_assoc] at h
            exact h
    · have hlast : ¬ g.nodes.any Entry.isSummary = true :=
        fun h => hmore (hsummary.mp h)
      refine ⟨g, [], ?_, hnodes, last_batch hnodes (by omega)⟩
      rw [DependencyGraph.expandAll, hg]
      exact if_neg hlast

-- ======== the children

/-- A node is another, or a child of it, or a child of one that an earlier
edge makes a child of it, and so on. -/
inductive Descends (graph : DependencyGraph) :
    List DependencyEdge → DependencyNode → DependencyNode → Prop
  | self (edges : List DependencyEdge) (n : DependencyNode) :
      Descends graph edges n n
  | skip {edges : List DependencyEdge} {n m : DependencyNode}
      (e : DependencyEdge) (h : Descends graph edges n m) :
      Descends graph (e :: edges) n m
  | child {edges : List DependencyEdge} {n m child : DependencyNode}
      {e : DependencyEdge} (he : e.childOf (· = n.id) = child.id)
      (hchild : child ∈ graph.nodes) (h : Descends graph edges child m) :
      Descends graph (e :: edges) n m

theorem childOf_eq_iff {e : DependencyEdge} {isParent : String → Bool}
    {id : String} (hid : id ≠ "") :
    e.childOf isParent = id
      ↔ if childToParentRelations.contains e.relation then
          isParent e.target = true ∧ e.source = id
        else isParent e.source = true ∧ e.target = id := by
  unfold DependencyEdge.childOf
  by_cases hrelation : childToParentRelations.contains e.relation = true
  · rw [if_pos hrelation, if_pos hrelation]
    split
    next h => simp [h]
    next h => simp [h, hid.symm]
  · rw [if_neg hrelation, if_neg hrelation]
    split
    next h => simp [h]
    next h => simp [h, hid.symm]

theorem childOf_contains_iff {e : DependencyEdge}
    {nodes : List DependencyNode} {id : String} (hid : id ≠ "") :
    e.childOf ((nodes.map (·.id)).contains ·) = id
      ↔ ∃ n ∈ nodes, e.childOf (· = n.id) = id := by
  simp only [childOf_eq_iff hid]
  split
  · simp [eq_comm, ← exists_and_right, and_assoc]
  · simp [eq_comm, ← exists_and_right, and_assoc]

/-- What an edge adds to some nodes: the child that it names of one of
them. -/
theorem mem_addChild_iff (hunique : Unique graph)
    (hids : ∀ n ∈ graph.nodes, n.id ≠ "") {nodes : List DependencyNode}
    (hnodes : nodes ⊆ graph.nodes) (e : DependencyEdge)
    {n : DependencyNode} :
    (n ∈ let childID := e.childOf ((nodes.map (·.id)).contains ·)
      if childID ≠ "" ∧ childID ∉ nodes.map (·.id) then
        match graph.nodeByID childID with
        | some childNode => nodes ++ [childNode]
        | none => nodes
      else nodes)
      ↔ n ∈ nodes ∨ n ∈ graph.nodes
        ∧ ∃ m ∈ nodes, e.childOf (· = m.id) = n.id := by
  have hchild : n ∈ graph.nodes
        ∧ (∃ m ∈ nodes, e.childOf (· = m.id) = n.id)
      ↔ graph.nodeByID (e.childOf ((nodes.map (·.id)).contains ·))
        = some n := by
    rw [nodeByID_eq_some hunique]
    apply and_congr_right
    intro hn
    rw [← childOf_contains_iff (hids n hn), eq_comm]
  rw [hchild]
  dsimp only
  generalize e.childOf ((nodes.map (·.id)).contains ·) = childID
  split
  next h =>
    cases hfind : graph.nodeByID childID with
    | none => simp
    | some childNode =>
      rw [List.mem_append, List.mem_singleton, Option.some.injEq,
        eq_comm (a := n)]
  next h =>
    refine ⟨.inl, fun hn => hn.elim id fun hfind => ?_⟩
    obtain ⟨hmem, rfl⟩ := (nodeByID_eq_some hunique).mp hfind
    -- It is among the nodes, as its ID is.
    by_cases hid : n.id ∈ nodes.map (·.id)
    · obtain ⟨m, hm, hmid⟩ := List.mem_map.mp hid
      rwa [← hunique.eq (hnodes hm) hmem hmid]
    · exact absurd ⟨hids n hmem, hid⟩ h

/-- Some nodes and what the edges add to them: what descends from them. -/
theorem mem_foldl_iff
    {step : List DependencyNode → DependencyEdge → List DependencyNode}
    (hstep : ∀ nodes, nodes ⊆ graph.nodes → ∀ e n, n ∈ step nodes e
      ↔ n ∈ nodes ∨ n ∈ graph.nodes
        ∧ ∃ m ∈ nodes, e.childOf (· = m.id) = n.id)
    {n : DependencyNode} (edges : List DependencyEdge) :
    ∀ {nodes}, nodes ⊆ graph.nodes →
      (n ∈ edges.foldl step nodes
        ↔ ∃ m ∈ nodes, Descends graph edges m n) := by
  induction edges with
  | nil =>
    intro nodes _
    constructor
    · intro h
      exact ⟨n, h, .self _ _⟩
    · rintro ⟨m, hm, hdescends⟩
      cases hdescends
      exact hm
  | cons e edges ih =>
    intro nodes hnodes
    have hsubset : step nodes e ⊆ graph.nodes := by
      intro m hm
      exact ((hstep nodes hnodes e m).mp hm).elim (hnodes ·) And.left
    rw [List.foldl_cons, ih hsubset]
    constructor
    · rintro ⟨m, hm, hdescends⟩
      rcases (hstep nodes hnodes e m).mp hm with h | ⟨hmem, p, hp, he⟩
      · exact ⟨m, h, .skip e hdescends⟩
      · exact ⟨p, hp, .child he hmem hdescends⟩
    · rintro ⟨m, hm, hdescends⟩
      cases hdescends with
      | self => exact ⟨n, (hstep nodes hnodes e n).mpr (.inl hm), .self _ _⟩
      | skip _ h => exact ⟨m, (hstep nodes hnodes e m).mpr (.inl hm), h⟩
      | child he hmem h =>
        exact ⟨_, (hstep nodes hnodes e _).mpr
          (.inr ⟨hmem, m, hm, he⟩), h⟩

theorem matchingNodes_subset (hunique : Unique graph) :
    graph.matchingNodes parentID kind ⊆ graph.nodes := by
  unfold DependencyGraph.matchingNodes
  refine List.foldlRecOn (motive := (· ⊆ graph.nodes)) graph.edges _
    (List.nil_subset _) ?_
  intro matching hsubset e _
  dsimp only
  split
  · split
    next node hfind =>
      split
      · intro n hn
        rcases List.mem_append.mp hn with h | h
        · exact hsubset h
        · rw [List.mem_singleton.mp h]
          exact ((nodeByID_eq_some hunique).mp hfind).1
      · exact hsubset
    next => exact hsubset
  · exact hsubset

theorem mem_withChildren_iff (hunique : Unique graph)
    (hids : ∀ n ∈ graph.nodes, n.id ≠ "") {offset : Nat}
    {n : DependencyNode} :
    n ∈ graph.withChildren (graph.batch parentID kind offset)
      ↔ ∃ m ∈ graph.batch parentID kind offset,
        Descends graph graph.edges m n := by
  apply mem_foldl_iff
  · intro nodes hnodes e n
    exact mem_addChild_iff hunique hids hnodes e
  · intro m hm
    exact matchingNodes_subset hunique
      (List.drop_subset _ _ (List.take_subset _ _ hm))

theorem exists_batch_iff {offset : Nat} {n : DependencyNode} :
    (∃ i, n ∈ graph.batch parentID kind (offset + expansionLimit * i))
      ↔ n ∈ (graph.matchingNodes parentID kind).drop offset := by
  unfold DependencyGraph.batch
  generalize graph.matchingNodes parentID kind = nodes
  constructor
  · rintro ⟨i, h⟩
    rw [← List.drop_drop] at h
    exact List.drop_subset _ _ (List.take_subset _ _ h)
  · intro h
    obtain ⟨j, hj, rfl⟩ := List.getElem_of_mem h
    have hdiv := Nat.div_add_mod j expansionLimit
    have hmod : j % expansionLimit < expansionLimit :=
      Nat.mod_lt _ (by decide)
    refine ⟨j / expansionLimit, List.mem_iff_getElem.mpr
      ⟨j % expansionLimit, ?_, ?_⟩⟩
    · rw [List.length_take, List.length_drop]
      rw [List.length_drop] at hj
      omega
    · rw [List.getElem_take, List.getElem_drop, List.getElem_drop]
      congr 1
      omega

-- ======== the result

/-- The nodes that a summary stands for are shown by the expansions, or were
from the first; and the first expansion shows one of them. -/
structure ShowsAll (a : Aggregation) (new : NewGraph) (key : GroupKey)
    (batches : List NewGraph) : Prop where
  all : ∀ n ∈ standsFor a new key,
    Kept new n ∨ ∃ g ∈ batches, .node n ∈ g.nodes
  first : ∃ g ∈ batches.head?, ∃ n ∈ standsFor a new key,
    .node n ∈ g.nodes

theorem not_kept_of_standsFor {a : Aggregation} {new : NewGraph}
    {key : GroupKey} {n : DependencyNode} (h : n ∈ standsFor a new key) :
    ¬ Kept new n := by
  unfold standsFor at h
  unfold Kept
  simp at h
  exact h.2.2

/-- When the expansions show all of a group: each of its hidden nodes is a
matching node behind the first five, or descends from one, and one of them
from one of the ten behind those. -/
structure Expands (graph : DependencyGraph) (parentID kind : String)
    (hidden : List DependencyNode) : Prop where
  all : ∀ n ∈ hidden,
    ∃ m ∈ (graph.matchingNodes parentID kind).drop defaultNodeLimit,
      Descends graph graph.edges m n
  first : ∃ n ∈ hidden,
    ∃ m ∈ graph.batch parentID kind defaultNodeLimit,
      Descends graph graph.edges m n

/-- The full graph of a resource, aggregated: what a summary stands for is
shown by its expansions, and the first shows some of it, if and only if the
hidden nodes of its group descend from the matching nodes behind the first
five, and one of them from the next ten. The expansions end. -/
theorem expand_iff (graph : DependencyGraph) (rootID : String)
    (nodeOrder : List String)
    (order : Nat → List GroupKey → List GroupKey)
    (hunique : Unique graph) (hids : ∀ n ∈ graph.nodes, n.id ≠ "")
    (horder : ∀ r keys, (order r keys).Perm keys) :
    ∃ new, aggregate graph defaultNodeLimit rootID nodeOrder order
        = some new
      ∧ ∀ key remaining, .summary key remaining ∈ new.nodes →
        ∃ parentID kind batches,
          splitSummaryID key.summaryID = some (parentID, kind)
          ∧ graph.expandAll key.summaryID
              ((graph.matchingNodes parentID kind).length + 1)
              defaultNodeLimit = some batches
          ∧ (ShowsAll (aggregation graph defaultNodeLimit rootID nodeOrder)
              new key batches
            ↔ Expands graph parentID kind
              ((aggregation graph defaultNodeLimit rootID nodeOrder).split
                ((aggregation graph defaultNodeLimit rootID
                  nodeOrder).children key)).2) := by
  obtain ⟨done, s, hnew, hi, -, -⟩ := exists_aggregate graph
    defaultNodeLimit rootID nodeOrder order hunique
    (fun n hn hid => hid ▸ hids n hn) horder
  refine ⟨_, hnew, fun key remaining hsummary => ?_⟩
  obtain ⟨parentID, kind, hsplit⟩ := splitSummaryID_isSome key
  obtain ⟨g, rest, hall, hfirst, hbatches⟩ := expandAll_eq graph hsplit
    (graph.matchingNodes parentID kind).length defaultNodeLimit
    (by unfold expansionLimit; omega)
  refine ⟨parentID, kind, g :: rest, hsplit, hall, ?_⟩
  have hstands := fun n => hi.mem_standsFor hunique hsummary (n := n)
  have hshown : ∀ n, (∃ g' ∈ g :: rest, .node n ∈ g'.nodes)
      ↔ ∃ m ∈ (graph.matchingNodes parentID kind).drop defaultNodeLimit,
        Descends graph graph.edges m n := by
    intro n
    rw [hbatches]
    constructor
    · rintro ⟨i, h⟩
      obtain ⟨m, hm, hdescends⟩ :=
        (mem_withChildren_iff hunique hids).mp h
      exact ⟨m, exists_batch_iff.mp ⟨i, hm⟩, hdescends⟩
    · rintro ⟨m, hm, hdescends⟩
      obtain ⟨i, hi⟩ := exists_batch_iff.mpr hm
      exact ⟨i, (mem_withChildren_iff hunique hids).mpr
        ⟨m, hi, hdescends⟩⟩
  constructor
  · intro h
    refine ⟨fun n hn => ?_, ?_⟩
    · have hn' := (hstands n).mpr hn
      rcases h.all n hn' with hkept | hbatch
      · exact absurd hkept (not_kept_of_standsFor hn')
      · exact (hshown n).mp hbatch
    · obtain ⟨g', hg', n, hn, hnode⟩ := h.first
      cases hg'
      exact ⟨n, (hstands n).mp hn,
        (mem_withChildren_iff hunique hids).mp ((hfirst n).mp hnode)⟩
  · intro h
    refine ⟨fun n hn => ?_, ?_⟩
    · exact .inr ((hshown n).mpr (h.all n ((hstands n).mp hn)))
    · obtain ⟨n, hn, hdescends⟩ := h.first
      exact ⟨g, rfl, n, (hstands n).mpr hn, (hfirst n).mpr
        ((mem_withChildren_iff hunique hids).mpr hdescends)⟩

-- ======== six pods

def pod (name : String) : DependencyNode where
  id := "Pod/default/" ++ name
  kind := "Pod"
  name := name
  ns := "default"

def podNames : List String := ["p-1", "p-2", "p-3", "p-4", "p-5", "p-6"]

/-- A replica set and its six pods, and a service that selects the last of
them. -/
def replicaSet : DependencyGraph where
  nodes :=
    { id := "ReplicaSet/default/r", kind := "ReplicaSet", name := "r"
      ns := "default" } :: podNames.map pod
      ++ [{ id := "Service/default/s", kind := "Service", name := "s"
            ns := "default" }]
  edges :=
    podNames.map (fun name =>
      ⟨"ReplicaSet/default/r", "Pod/default/" ++ name, "owns"⟩)
      ++ [⟨"Service/default/s", "Pod/default/p-6", "selects"⟩]

def pods : GroupKey := ⟨"ReplicaSet/default/r", "Pod"⟩

/-- What the replica set becomes: the last pod connects kinds, and is kept
before the others. -/
def replicaSetView : NewGraph where
  nodes :=
    [.node replicaSet.nodes[0], .node (pod "p-6")]
      ++ ((podNames.take 4).map fun name => .node (pod name))
      ++ [.summary pods 1, .node replicaSet.nodes[7]]
  edges :=
    (replicaSet.edges.take 4)
      ++ [⟨"ReplicaSet/default/r", pods.summaryID, "owns"⟩]
      ++ replicaSet.edges.drop 5

def replicaSetBatch : NewGraph where
  nodes := [.node (pod "p-6")]
  edges := [⟨"ReplicaSet/default/r", "Pod/default/p-6", "owns"⟩]

/-- The equivalence, of them. -/
theorem expand_iff_replicaSet :
    ∃ new, aggregate replicaSet defaultNodeLimit "ReplicaSet/default/r"
        (replicaSet.nodes.map (·.id)) (fun _ keys => keys) = some new
      ∧ ∀ key remaining, .summary key remaining ∈ new.nodes →
        ∃ parentID kind,
          splitSummaryID key.summaryID = some (parentID, kind) := by
  obtain ⟨new, hnew, hiff⟩ := expand_iff replicaSet
    "ReplicaSet/default/r" (replicaSet.nodes.map (·.id))
    (fun _ keys => keys) (by decide) (by decide)
    (fun _ keys => .refl keys)
  refine ⟨new, hnew, fun key remaining h => ?_⟩
  obtain ⟨parentID, kind, -, hsplit, -⟩ := hiff key remaining h
  exact ⟨parentID, kind, hsplit⟩

/-- The fifth pod is hidden, and the only expansion shows the sixth. -/
theorem pod_never_shown :
    ∃ graph rootID nodeOrder order new key remaining batches,
      Unique graph ∧ (∀ n ∈ graph.nodes, n.id ≠ "")
        ∧ nodeOrder.Perm (graph.nodes.map (·.id))
        ∧ (∀ r keys, (order r keys).Perm keys)
        ∧ aggregate graph defaultNodeLimit rootID nodeOrder order = some new
        ∧ .summary key remaining ∈ new.nodes
        ∧ graph.expandAll key.summaryID 1 defaultNodeLimit = some batches
        ∧ ¬ (∀ n ∈ standsFor (aggregation graph defaultNodeLimit rootID
            nodeOrder) new key,
          Kept new n ∨ ∃ g ∈ batches, .node n ∈ g.nodes)
        ∧ ¬ ShowsAll (aggregation graph defaultNodeLimit rootID nodeOrder)
          new key batches := by
  have hnot : pod "p-5" ∈ standsFor (aggregation replicaSet
        defaultNodeLimit "ReplicaSet/default/r"
        (replicaSet.nodes.map (·.id))) replicaSetView pods := by
    decide
  have hkept : ¬ Kept replicaSetView (pod "p-5") := by
    unfold Kept
    decide
  have hbatch : ¬ ∃ g ∈ [replicaSetBatch], .node (pod "p-5") ∈ g.nodes := by
    decide
  refine ⟨replicaSet, "ReplicaSet/default/r",
    replicaSet.nodes.map (·.id), fun _ keys => keys, replicaSetView, pods,
    1, [replicaSetBatch], by decide, by decide, .refl _,
    fun _ keys => .refl keys, ?_, by decide, ?_, fun h => ?_, fun h => ?_⟩
  · decide +kernel
  · decide +kernel
  · exact (h _ hnot).elim hkept hbatch
  · exact (h.all _ hnot).elim hkept hbatch

end Deps
