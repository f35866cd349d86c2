/-
Whether the aggregated graph is connected.

# The argument

What is shown can be read off the graph without the loop: the nodes that are
rooted and not hidden, and a summary for each group that is cut. An edge of
the new graph is what an edge of the graph becomes (`Image`), and one
between a node and its primary parent stays as it is if both are shown. So
every node that is shown is joined to the root, or to a node without a
primary parent, and what is left to ask is whether those are joined to the
root, and the summaries to their parents (`connected_iff`).

# What goes wrong

An edge is led to a summary from its source only. Where children name their
parents, as volumes do their storage class, the hidden end is the source,
the edge is dropped, and the summary of the volumes is joined to nothing
(`volumes_cut_off`). And an edge to a hidden node without a primary parent
is led to a summary that there is not.
-/
import Kubikles.Deps.Proofs.Lossless

namespace Deps

open Relation (EqvGen)

variable {a : Aggregation} {done : List GroupKey} {s : State}

-- ======== the statement

def Adjacent (graph : DependencyGraph) (x y : String) : Prop :=
  ∃ e ∈ graph.edges, e.source = x ∧ e.target = y

/-- Any two nodes of a graph are joined by edges, in any direction. -/
def WeaklyConnected (graph : DependencyGraph) : Prop :=
  ∀ n ∈ graph.nodes, ∀ m ∈ graph.nodes,
    EqvGen (Adjacent graph) n.id m.id

def DependencyEdge.Joins (e : DependencyEdge) (x y : String) : Prop :=
  e.source = x ∧ e.target = y ∨ e.source = y ∧ e.target = x

/-- A new graph is connected, and has an edge between each summary and its
parent. -/
structure StaysConnected (new : NewGraph) : Prop where
  connected : WeaklyConnected new.toGraph
  summaries : ∀ key remaining, .summary key remaining ∈ new.nodes →
    ∃ e ∈ new.edges, e.Joins key.summaryID key.parentID

-- ======== the condition

/-- A node is one of the hidden part of its group, or a child of one that
is hidden. -/
inductive Hidden (a : Aggregation) : DependencyNode → Prop
  | cut {n : DependencyNode} (hn : n ∈ (a.split (a.children (a.keyOf n))).2) :
      Hidden a n
  | child {n m : DependencyNode} (hchild : Child a n m)
      (hm : Hidden a m) : Hidden a n

def Visible (a : Aggregation) (n : DependencyNode) : Prop :=
  n ∈ a.graph.nodes ∧ Rooted a n.id ∧ ¬ Hidden a n

def Cut (a : Aggregation) (key : GroupKey) : Prop :=
  (a.split (a.children key)).2 ≠ [] ∧ Rooted a key.parentID
    ∧ ∀ p ∈ a.graph.nodes, p.id = key.parentID → ¬ Hidden a p

def Shown (a : Aggregation) (id : String) : Prop :=
  (∃ n, Visible a n ∧ n.id = id) ∨ ∃ key, Cut a key ∧ key.summaryID = id

/-- The ID of the summary that an edge to a hidden node is led to. -/
def Aggregation.summaryFor (a : Aggregation) (n : DependencyNode) :
    String :=
  let parentID := DependencyGraph.parentIn a.primaryParent n.id
  GroupKey.summaryID ⟨if parentID = "" then "_root_" else parentID, n.kind⟩

/-- An edge is led to an ID: it is its target, or the summary for it, if
it is not shown. -/
def LedTo (a : Aggregation) (e : DependencyEdge) (y : String) : Prop :=
  e.target = y ∨ ¬ Shown a e.target
    ∧ ∃ n ∈ a.graph.nodes, n.id = e.target ∧ a.summaryFor n = y

/-- There is an edge from one ID that is led to another, and both are
shown. -/
def Image (a : Aggregation) (x y : String) : Prop :=
  ∃ e ∈ a.graph.edges, e.source = x ∧ Shown a x ∧ Shown a y ∧ LedTo a e y

/-- When the new graph is connected: the parent of a group that is cut has
an edge that is led to its summary (or the other way, where the ID of the
summary is that of a node as well); and a node that is shown and has no
primary parent is joined to the root. -/
structure Linked (a : Aggregation) : Prop where
  cut : ∀ key, Cut a key → ∃ e ∈ a.graph.edges,
    e.source = key.parentID ∧ LedTo a e key.summaryID
      ∨ e.source = key.summaryID ∧ LedTo a e key.parentID
  parentless : ∀ n, Visible a n → n.id ≠ a.rootID →
    DependencyGraph.parentIn a.primaryParent n.id = "" →
      EqvGen (Image a) n.id a.rootID

-- ======== what is shown

theorem Hidden.mem {n : DependencyNode} (h : Hidden a n) :
    n ∈ a.graph.nodes ∧ n.id ≠ a.rootID := by
  cases h with
  | cut hn =>
    obtain ⟨hmem, hroot, -⟩ := mem_children.mp (mem_split.mp (.inr hn))
    exact ⟨hmem, hroot⟩
  | child hchild => exact ⟨hchild.1, hchild.2.2.1⟩

theorem Rooted.parent {n : DependencyNode} (h : Rooted a n.id)
    (hunique : Unique a.graph) (hn : n ∈ a.graph.nodes)
    (hroot : n.id ≠ a.rootID) : Rooted a (a.parentID n) := by
  generalize hid : n.id = id at h
  cases h with
  | root => exact absurd hid hroot
  | @node m hm hparent =>
    obtain rfl := hunique.eq hn hm hid
    exact hparent

theorem Inv.done_of_rooted (hi : Inv a done s) (hend : a.keys s = [])
    (hunique : Unique a.graph) {n : DependencyNode}
    (hn : n ∈ a.graph.nodes) (hroot : n.id ≠ a.rootID)
    (hrooted : Rooted a n.id) : a.keyOf n ∈ done := by
  rcases (hi.processed n.id).mp ((hi.processed_iff hend).mpr hrooted) with
    h | ⟨m, hm, hid, -, hdone⟩
  · exact absurd h hroot
  · obtain rfl := hunique.eq hm hn hid
    exact hdone

/-- At the end the hidden IDs are those of rooted hidden nodes. -/
theorem Inv.hidden_iff (hi : Inv a done s) (hend : a.keys s = [])
    (hunique : Unique a.graph) {n : DependencyNode}
    (hrooted : Rooted a n.id) (hn : n ∈ a.graph.nodes) :
    n.id ∈ s.hiddenNodes ↔ Hidden a n := by
  constructor
  · intro h
    have hind : ∀ id, Rooted a id → ∀ n ∈ a.graph.nodes, n.id = id →
        n.id ∈ s.hiddenNodes → Hidden a n := by
      intro id hid
      induction hid with
      | root =>
        intro n hn hroot hmem
        obtain ⟨m, hm, hmid, hmroot, -⟩ := (hi.hidden n.id).mp hmem
        exact absurd (hmid.trans hroot) hmroot
      | @node n' hn' hparent ih =>
        intro n hn hid hmem
        obtain rfl := hunique.eq hn' hn hid.symm
        obtain ⟨m, hm, hmid, hmroot, hdone, hwhy⟩ :=
          (hi.hidden n'.id).mp hmem
        obtain rfl := hunique.eq hm hn hmid
        rcases hwhy with hwhy | hwhy
        · obtain ⟨p, hp, hpid, -⟩ := (hi.hidden _).mp hwhy
          exact .child ⟨hn, hp, hmroot, hpid.symm⟩
            (ih p hp hpid (hpid.symm ▸ hwhy))
        · exact .cut hwhy
    exact hind n.id hrooted n hn rfl h
  · intro h
    induction h with
    | @cut n hsplit =>
      obtain ⟨hmem, hroot⟩ := (Hidden.cut hsplit).mem
      exact (hi.hidden n.id).mpr ⟨n, hmem, rfl, hroot,
        hi.done_of_rooted hend hunique hmem hroot hrooted, .inr hsplit⟩
    | @child n m hchild _ ih =>
      obtain ⟨hmem, hm, hroot, hparent⟩ := hchild
      have hprooted : Rooted a m.id :=
        hparent ▸ hrooted.parent hunique hmem hroot
      exact (hi.hidden n.id).mpr ⟨n, hmem, rfl, hroot,
        hi.done_of_rooted hend hunique hmem hroot hrooted,
        .inl (hparent ▸ ih hprooted hm)⟩

theorem Inv.visible_parent_iff (hi : Inv a done s) (hend : a.keys s = [])
    (hunique : Unique a.graph) {id : String} (hrooted : Rooted a id) :
    id ∉ s.hiddenNodes ↔ ∀ p ∈ a.graph.nodes, p.id = id → ¬ Hidden a p := by
  constructor
  · rintro h p hp rfl hhidden
    exact h ((hi.hidden_iff hend hunique hrooted hp).mpr hhidden)
  · intro h hmem
    obtain ⟨p, hp, rfl, -⟩ := (hi.hidden id).mp hmem
    exact h p hp rfl ((hi.hidden_iff hend hunique hrooted hp).mp hmem)

theorem Inv.node_iff (hi : Inv a done s) (hend : a.keys s = [])
    (hunique : Unique a.graph) {n : DependencyNode} :
    .node n ∈ s.entries ↔ Visible a n := by
  rw [hi.node n]
  constructor
  · rintro ⟨hn, hroot | ⟨hdone, hvisible, hsplit⟩⟩
    · exact ⟨hn, hroot ▸ .root, fun h => h.mem.2 hroot⟩
    · have hprooted := hi.rooted _ (hi.parent_processed hdone)
      have hrooted : Rooted a n.id := .node hn hprooted
      refine ⟨hn, hrooted, fun h => ?_⟩
      obtain ⟨m, hm, hid, -, -, hwhy⟩ := (hi.hidden n.id).mp
        ((hi.hidden_iff hend hunique hrooted hn).mpr h)
      obtain rfl := hunique.eq hm hn hid
      rcases hwhy with hwhy | hwhy
      · exact hvisible hwhy
      · exact split_disjoint (hunique.of_map.filter _) hsplit hwhy
  · rintro ⟨hn, hrooted, hvisible⟩
    refine ⟨hn, ?_⟩
    by_cases hroot : n.id = a.rootID
    · exact .inl hroot
    · have hdone := hi.done_of_rooted hend hunique hn hroot hrooted
      have hnot : n.id ∉ s.hiddenNodes := fun h =>
        hvisible ((hi.hidden_iff hend hunique hrooted hn).mp h)
      have hwhy := fun h => hnot ((hi.hidden n.id).mpr
        ⟨n, hn, rfl, hroot, hdone, h⟩)
      refine .inr ⟨hdone, fun h => hwhy (.inl h), ?_⟩
      exact (mem_split.mpr (mem_children.mpr ⟨hn, hroot, rfl⟩)).resolve_right
        fun h => hwhy (.inr h)

theorem Inv.summary_iff (hi : Inv a done s) (hend : a.keys s = [])
    (hunique : Unique a.graph) {key : GroupKey} :
    (∃ remaining, .summary key remaining ∈ s.entries) ↔ Cut a key := by
  constructor
  · rintro ⟨remaining, h⟩
    obtain ⟨hdone, hvisible, hne, -⟩ := (hi.summary _ _).mp h
    have hrooted := hi.rooted _ (hi.parents key hdone)
    exact ⟨hne, hrooted,
      (hi.visible_parent_iff hend hunique hrooted).mp hvisible⟩
  · rintro ⟨hne, hrooted, hvisible⟩
    obtain ⟨n, hn⟩ := List.exists_mem_of_ne_nil _ hne
    obtain ⟨hmem, hroot, rfl⟩ := mem_children.mp (mem_split.mp (.inr hn))
    have hdone := hi.done_of_rooted hend hunique hmem hroot
      (.node hmem hrooted)
    exact ⟨_, (hi.summary _ _).mpr ⟨hdone,
      (hi.visible_parent_iff hend hunique hrooted).mpr hvisible, hne, rfl⟩⟩

theorem Inv.shown_iff (hi : Inv a done s) (hend : a.keys s = [])
    (hunique : Unique a.graph) {id : String} :
    id ∈ s.entries.map (·.toNode.id) ↔ Shown a id := by
  rw [List.mem_map]
  unfold Shown
  constructor
  · rintro ⟨entry, hentry, rfl⟩
    cases entry with
    | node n => exact .inl ⟨n, (hi.node_iff hend hunique).mp hentry, rfl⟩
    | summary key remaining =>
      exact .inr ⟨key, (hi.summary_iff hend hunique).mp
        ⟨remaining, hentry⟩, rfl⟩
  · rintro (⟨n, hn, rfl⟩ | ⟨key, hkey, rfl⟩)
    · exact ⟨.node n, (hi.node_iff hend hunique).mpr hn, rfl⟩
    · obtain ⟨remaining, h⟩ := (hi.summary_iff hend hunique).mpr hkey
      exact ⟨.summary key remaining, h, rfl⟩

-- ======== the edges

theorem mem_foldl_cases {α β : Type} {f : List β → α → List β}
    {b : β} {added : α → Prop}
    (hadds : ∀ acc x, b ∈ f acc x → b ∈ acc ∨ added x) :
    ∀ {l : List α} {acc}, b ∈ l.foldl f acc → b ∈ acc ∨ ∃ x ∈ l, added x := by
  intro l
  induction l with
  | nil => exact fun h => .inl h
  | cons x l ih =>
    intro acc h
    rw [List.foldl_cons] at h
    rcases ih h with h | ⟨y, hy, hadded⟩
    · rcases hadds acc x h with h | hadded
      · exact .inl h
      · exact .inr ⟨x, List.mem_cons_self, hadded⟩
    · exact .inr ⟨y, List.mem_cons_of_mem x hy, hadded⟩

theorem mem_rebuild_iff {keptNodes : List String} {e' : DependencyEdge} :
    e' ∈ a.rebuild keptNodes
      ↔ ∃ e ∈ a.graph.edges, a.redirect keptNodes e = some e' := by
  constructor
  · intro h
    refine (mem_foldl_cases (fun acc x h => ?_) h).resolve_left
      List.not_mem_nil
    split at h
    next e'' hx =>
      split at h
      · exact .inl h
      · rcases List.mem_append.mp h with h | h
        · exact .inl h
        · rw [List.mem_singleton.mp h]
          exact .inr hx
    next => exact .inl h
  · rintro ⟨e, he, h⟩
    exact mem_rebuild he h

/-- What an edge becomes joins the ID it starts from to the one that it is
led to. -/
theorem exists_redirect_iff (hunique : Unique a.graph)
    {keptNodes : List String} (hkept : ∀ id, id ∈ keptNodes ↔ Shown a id)
    {e : DependencyEdge} {x y : String} :
    (∃ e', a.redirect keptNodes e = some e' ∧ e'.source = x ∧ e'.target = y)
      ↔ e.source = x ∧ Shown a x ∧ Shown a y ∧ LedTo a e y := by
  unfold Aggregation.redirect LedTo
  by_cases hsource : e.source ∈ keptNodes
  · have hsource' := (hkept _).mp hsource
    rw [if_pos (by simpa using hsource)]
    by_cases htarget : e.target ∈ keptNodes
    · have htarget' := (hkept _).mp htarget
      rw [if_pos (by simpa using htarget)]
      constructor
      · rintro ⟨e', ⟨⟩, rfl, rfl⟩
        exact ⟨rfl, hsource', htarget', .inl rfl⟩
      · rintro ⟨rfl, -, -, rfl | ⟨hnot, -⟩⟩
        · exact ⟨e, rfl, rfl, rfl⟩
        · exact absurd htarget' hnot
    · have htarget' : ¬ Shown a e.target := fun h =>
        htarget ((hkept _).mpr h)
      rw [if_neg (by simpa using htarget)]
      constructor
      · rintro ⟨e', h, rfl, rfl⟩
        obtain ⟨n, hn, h⟩ := Option.bind_eq_some_iff.mp h
        obtain ⟨hmem, hid⟩ := (nodeByID_eq_some hunique).mp hn
        rw [← hid] at h
        change (if keptNodes.contains (a.summaryFor n) = true then some _
          else none) = some e' at h
        by_cases hsummary : a.summaryFor n ∈ keptNodes
        · rw [if_pos (by simpa using hsummary)] at h
          cases h
          exact ⟨rfl, hsource', (hkept _).mp hsummary,
            .inr ⟨htarget', n, hmem, hid, rfl⟩⟩
        · rw [if_neg (by simpa using hsummary)] at h
          cases h
      · rintro ⟨rfl, -, hy, rfl | ⟨-, n, hn, hid, rfl⟩⟩
        · exact absurd hy htarget'
        · have hsummary : a.summaryFor n ∈ keptNodes := (hkept _).mpr hy
          refine ⟨{ e with target := a.summaryFor n }, ?_, rfl, rfl⟩
          rw [Option.bind_eq_some_iff]
          refine ⟨n, (nodeByID_eq_some hunique).mpr ⟨hn, hid⟩, ?_⟩
          rw [← hid]
          show (if keptNodes.contains (a.summaryFor n) = true then some _
            else none) = _
          rw [if_pos (by simpa using hsummary)]
          rfl
  · rw [if_neg (by simpa using hsource)]
    constructor
    · rintro ⟨e', ⟨⟩, -⟩
    · rintro ⟨rfl, hx, -⟩
      exact absurd ((hkept _).mpr hx) hsource

/-- So two IDs of the new graph are adjacent where the one is an image of
the other. -/
theorem Inv.adjacent_iff (hi : Inv a done s) (hend : a.keys s = [])
    (hids : s.KeepsIDs) (hunique : Unique a.graph) {x y : String} :
    Adjacent (a.result s).toGraph x y ↔ Image a x y := by
  have hkept : ∀ id, id ∈ s.keptNodes ↔ Shown a id := by
    intro id
    rw [show s.keptNodes = _ from hids]
    exact hi.shown_iff hend hunique
  constructor
  · rintro ⟨e', he', hsource, htarget⟩
    obtain ⟨e, he, h⟩ := mem_rebuild_iff.mp he'
    exact ⟨e, he, (exists_redirect_iff hunique hkept).mp
      ⟨e', h, hsource, htarget⟩⟩
  · rintro ⟨e, he, h⟩
    obtain ⟨e', h, hsource, htarget⟩ :=
      (exists_redirect_iff hunique hkept).mpr h
    exact ⟨e', mem_rebuild_iff.mpr ⟨e, he, h⟩, hsource, htarget⟩

-- ======== primary parents

theorem exists_of_find {edges : List DependencyEdge}
    {p : DependencyEdge → Bool} {f : DependencyEdge → String}
    (h : (edges.find? p).elim "" f ≠ "") :
    ∃ e ∈ edges, f e = (edges.find? p).elim "" f := by
  cases hfind : edges.find? p with
  | none =>
    rw [hfind] at h
    exact absurd rfl h
  | some e => exact ⟨e, List.mem_of_find?_eq_some hfind, rfl⟩

theorem mem_outgoing {graph : DependencyGraph} {id : String}
    {e : DependencyEdge} :
    e ∈ graph.outgoing id ↔ e ∈ graph.edges ∧ e.source = id := by
  unfold DependencyGraph.outgoing
  simp

theorem mem_incoming {graph : DependencyGraph} {id : String}
    {e : DependencyEdge} :
    e ∈ graph.incoming id ↔ e ∈ graph.edges ∧ e.target = id := by
  unfold DependencyGraph.incoming
  simp

/-- A parent is at the other end of an edge. -/
theorem parentOf_joins {graph : DependencyGraph}
    {primaryParent : FinMap String String} {id : String}
    (h : graph.parentOf primaryParent id ≠ "") :
    ∃ e ∈ graph.edges, e.Joins id (graph.parentOf primaryParent id) := by
  unfold DependencyGraph.parentOf at h ⊢
  dsimp only at h ⊢
  split at h
  next huses =>
    rw [if_pos huses]
    obtain ⟨e, he, htarget⟩ := exists_of_find huses
    obtain ⟨hmem, hsource⟩ := mem_outgoing.mp he
    exact ⟨e, hmem, .inl ⟨hsource, htarget⟩⟩
  next huses =>
    rw [if_neg huses]
    split at h
    next howner =>
      rw [if_pos howner]
      obtain ⟨e, he, hsource⟩ := exists_of_find howner
      obtain ⟨hmem, htarget⟩ := mem_incoming.mp he
      exact ⟨e, hmem, .inr ⟨hsource, htarget⟩⟩
    next howner =>
      rw [if_neg howner]
      cases hhead : (graph.incoming id).head? with
      | none =>
        rw [hhead] at h
        exact absurd rfl h
      | some e =>
        rw [hhead] at h
        dsimp only at h ⊢
        split at h
        next hguard =>
          rw [if_pos hguard]
          obtain ⟨hmem, htarget⟩ :=
            mem_incoming.mp (List.mem_of_head? hhead)
          exact ⟨e, hmem, .inr ⟨rfl, htarget⟩⟩
        next => exact absurd rfl h

/-- Each primary parent is at the other end of an edge. -/
def Parented (graph : DependencyGraph)
    (primaryParent : FinMap String String) : Prop :=
  ∀ id, DependencyGraph.parentIn primaryParent id ≠ "" →
    ∃ e ∈ graph.edges,
      e.Joins id (DependencyGraph.parentIn primaryParent id)

theorem primaryParents_parented (graph : DependencyGraph)
    (rootID : String) (nodeOrder : List String) :
    Parented graph (graph.primaryParents rootID nodeOrder) := by
  unfold DependencyGraph.primaryParents
  refine List.foldlRecOn nodeOrder _ (fun id h => absurd rfl h) ?_
  intro primaryParent hi x _ id h
  by_cases hroot : x = rootID
  · rw [if_pos hroot] at h ⊢
    exact hi id h
  · rw [if_neg hroot] at h ⊢
    unfold DependencyGraph.parentIn at h ⊢
    rw [FinMap.lookup_insert] at h ⊢
    by_cases hx : id = x
    · rw [if_pos hx, Option.getD_some] at h ⊢
      rw [hx]
      exact parentOf_joins h
    · rw [if_neg hx] at h ⊢
      exact hi id h

-- ======== the result

theorem Visible.parent {n : DependencyNode} (h : Visible a n)
    (hunique : Unique a.graph) (hroot : n.id ≠ a.rootID) :
    Rooted a (a.parentID n)
      ∧ ∀ p ∈ a.graph.nodes, p.id = a.parentID n → ¬ Hidden a p := by
  obtain ⟨hn, hrooted, hvisible⟩ := h
  exact ⟨hrooted.parent hunique hn hroot, fun p hp hid hhidden =>
    hvisible (.child ⟨hn, hp, hroot, hid.symm⟩ hhidden)⟩

theorem Rooted.exists_node {id : String} (h : Rooted a id)
    (hroot : ∃ n ∈ a.graph.nodes, n.id = a.rootID) :
    ∃ n ∈ a.graph.nodes, n.id = id := by
  cases h with
  | root => exact hroot
  | node hn => exact ⟨_, hn, rfl⟩

theorem image_of_joins {e : DependencyEdge} {x y : String}
    (he : e ∈ a.graph.edges) (hjoins : e.Joins x y) (hx : Shown a x)
    (hy : Shown a y) : EqvGen (Image a) x y := by
  rcases hjoins with ⟨rfl, rfl⟩ | ⟨rfl, rfl⟩
  · exact .rel _ _ ⟨e, he, rfl, hx, hy, .inl rfl⟩
  · exact .symm _ _ (.rel _ _ ⟨e, he, rfl, hy, hx, .inl rfl⟩)

/-- A node that is shown is joined to the root, if those without a primary
parent are. -/
theorem Linked.joined (hlinked : Linked a) (hunique : Unique a.graph)
    (hroot : ∃ n ∈ a.graph.nodes, n.id = a.rootID)
    (hparents : Parented a.graph a.primaryParent) {id : String}
    (hrooted : Rooted a id) :
    ∀ n, Visible a n → n.id = id → EqvGen (Image a) n.id a.rootID := by
  induction hrooted with
  | root =>
    rintro n - hid
    rw [hid]
    exact .refl _
  | @node m hm hparent ih =>
    intro n hn hid
    obtain rfl := hunique.eq hm hn.1 hid.symm
    by_cases hisRoot : m.id = a.rootID
    · rw [hisRoot]
      exact .refl _
    · by_cases hnone : DependencyGraph.parentIn a.primaryParent m.id = ""
      · exact hlinked.parentless m hn hisRoot hnone
      · have hid : a.parentID m
            = DependencyGraph.parentIn a.primaryParent m.id :=
          if_neg hnone
        obtain ⟨hprooted, hpvisible⟩ := hn.parent hunique hisRoot
        obtain ⟨p, hp, hpid⟩ := hprooted.exists_node hroot
        have hvisible : Visible a p :=
          ⟨hp, hpid ▸ hprooted, hpvisible p hp hpid⟩
        obtain ⟨e, he, hjoins⟩ := hparents m.id hnone
        rw [← hid, ← hpid] at hjoins
        exact .trans _ _ _ (image_of_joins he hjoins
          (.inl ⟨m, hn, rfl⟩) (.inl ⟨p, hvisible, rfl⟩))
          (ih p hvisible hpid)

theorem Cut.parent {key : GroupKey} (h : Cut a key)
    (hroot : ∃ n ∈ a.graph.nodes, n.id = a.rootID) :
    ∃ p, Visible a p ∧ p.id = key.parentID := by
  obtain ⟨-, hrooted, hvisible⟩ := h
  obtain ⟨p, hp, hid⟩ := hrooted.exists_node hroot
  exact ⟨p, ⟨hp, hid ▸ hrooted, hvisible p hp hid⟩, hid⟩

theorem exists_joins_iff (graph : DependencyGraph) {x y : String} :
    (∃ e ∈ graph.edges, e.Joins x y)
      ↔ Adjacent graph x y ∨ Adjacent graph y x := by
  unfold Adjacent DependencyEdge.Joins
  constructor
  · rintro ⟨e, he, h | h⟩
    · exact .inl ⟨e, he, h⟩
    · exact .inr ⟨e, he, h⟩
  · rintro (⟨e, he, h⟩ | ⟨e, he, h⟩)
    · exact ⟨e, he, .inl h⟩
    · exact ⟨e, he, .inr h⟩

theorem Cut.joined_iff {key : GroupKey} (h : Cut a key)
    (hroot : ∃ n ∈ a.graph.nodes, n.id = a.rootID) :
    Image a key.summaryID key.parentID ∨ Image a key.parentID key.summaryID
      ↔ ∃ e ∈ a.graph.edges,
        e.source = key.parentID ∧ LedTo a e key.summaryID
          ∨ e.source = key.summaryID ∧ LedTo a e key.parentID := by
  obtain ⟨p, hp, hid⟩ := h.parent hroot
  have hparent : Shown a key.parentID := .inl ⟨p, hp, hid⟩
  have hsummary : Shown a key.summaryID := .inr ⟨key, h, rfl⟩
  constructor
  · rintro (⟨e, he, hsource, -, -, hled⟩ | ⟨e, he, hsource, -, -, hled⟩)
    · exact ⟨e, he, .inr ⟨hsource, hled⟩⟩
    · exact ⟨e, he, .inl ⟨hsource, hled⟩⟩
  · rintro ⟨e, he, ⟨hsource, hled⟩ | ⟨hsource, hled⟩⟩
    · exact .inr ⟨e, he, hsource, hparent, hsummary, hled⟩
    · exact .inl ⟨e, he, hsource, hsummary, hparent, hled⟩

/-- What the condition says of the new graph. -/
theorem Inv.staysConnected_iff (hi : Inv a done s) (hend : a.keys s = [])
    (hids : s.KeepsIDs) (hunique : Unique a.graph)
    (hparents : Parented a.graph a.primaryParent)
    (hroot : ∃ n ∈ a.graph.nodes, n.id = a.rootID) :
    StaysConnected (a.result s) ↔ Linked a := by
  have hadjacent : Adjacent (a.result s).toGraph = Image a := by
    funext x y
    exact propext (hi.adjacent_iff hend hids hunique)
  have hnode : ∀ n, Visible a n → n ∈ (a.result s).toGraph.nodes :=
    fun n hn => List.mem_map.mpr
      ⟨.node n, (hi.node_iff hend hunique).mpr hn, rfl⟩
  constructor
  · rintro ⟨hconnected, hsummaries⟩
    refine ⟨fun key hcut => ?_, fun n hn _ _ => ?_⟩
    · obtain ⟨remaining, hsummary⟩ := (hi.summary_iff hend hunique).mpr hcut
      have hjoins := (exists_joins_iff (a.result s).toGraph).mp
        (hsummaries key remaining hsummary)
      rw [hadjacent] at hjoins
      exact (hcut.joined_iff hroot).mp hjoins
    · obtain ⟨root, hmem, hid⟩ := hroot
      have hvisible : Visible a root :=
        ⟨hmem, hid ▸ .root, fun h => h.mem.2 hid⟩
      have hjoined := hconnected n (hnode n hn) root (hnode root hvisible)
      rw [hadjacent, hid] at hjoined
      exact hjoined
  · intro hlinked
    have hvisible : ∀ n, Visible a n → EqvGen (Image a) n.id a.rootID :=
      fun n hn => hlinked.joined hunique hroot hparents hn.2.1 n hn rfl
    have hall : ∀ n ∈ (a.result s).toGraph.nodes,
        EqvGen (Image a) n.id a.rootID := by
      intro n hn
      obtain ⟨entry, hentry, rfl⟩ := List.mem_map.mp hn
      cases entry with
      | node n => exact hvisible n ((hi.node_iff hend hunique).mp hentry)
      | summary key remaining =>
        have hcut := (hi.summary_iff hend hunique).mp ⟨_, hentry⟩
        obtain ⟨p, hp, hid⟩ := hcut.parent hroot
        have hparent := hvisible p hp
        rw [hid] at hparent
        refine .trans _ _ _ ?_ hparent
        rcases (hcut.joined_iff hroot).mpr (hlinked.cut key hcut) with
          h | h
        · exact .rel _ _ h
        · exact .symm _ _ (.rel _ _ h)
    refine ⟨fun n hn m hm => ?_, fun key remaining hsummary => ?_⟩
    · rw [hadjacent]
      exact .trans _ _ _ (hall n hn) (.symm _ _ (hall m hm))
    · have hcut := (hi.summary_iff hend hunique).mp ⟨remaining, hsummary⟩
      have hjoined := (hcut.joined_iff hroot).mpr (hlinked.cut key hcut)
      rw [← hadjacent] at hjoined
      exact (exists_joins_iff (a.result s).toGraph).mpr hjoined

/-- The aggregation of a graph with unique IDs from a root of it is
connected, with an edge between each summary and its parent, if and only if
each group that is cut has an edge from its parent that is led to its
summary, and the nodes without a primary parent that are shown are joined to
the root. -/
theorem aggregate_connected_iff (graph : DependencyGraph) (limit : Int)
    (explicitRootID : String) (nodeOrder : List String)
    (order : Nat → List GroupKey → List GroupKey)
    (hunique : Unique graph) (hne : explicitRootID ≠ "")
    (hroot : ∃ n ∈ graph.nodes, n.id = explicitRootID)
    (horder : ∀ r keys, (order r keys).Perm keys) :
    ∃ new, aggregate graph limit explicitRootID nodeOrder order = some new
      ∧ aggregateGraph graph limit explicitRootID nodeOrder order
        = some new.toGraph
      ∧ (StaysConnected new
        ↔ Linked (aggregation graph limit explicitRootID nodeOrder)) := by
  have hrootOf : graph.rootOf explicitRootID = explicitRootID :=
    if_neg hne
  obtain ⟨done, s, hnew, hi, hend, hids⟩ := exists_aggregate graph limit
    explicitRootID nodeOrder order hunique
    (fun _ _ _ => hrootOf.symm ▸ hne) horder
  refine ⟨_, hnew, ?_, ?_⟩
  · unfold aggregateGraph
    rw [hnew]
    rfl
  · apply hi.staysConnected_iff hend hids hunique
      (primaryParents_parented _ _ _)
    rw [show (aggregation graph limit explicitRootID nodeOrder).rootID
      = explicitRootID from hrootOf]
    exact hroot

-- ======== volumes

def volume (name : String) : DependencyNode where
  id := "PersistentVolume/" ++ name
  kind := "PersistentVolume"
  name := name

def volumeNames : List String :=
  ["pv-1", "pv-2", "pv-3", "pv-4", "pv-5", "pv-6"]

def storageClass : DependencyGraph where
  nodes :=
    { id := "StorageClass/standard", kind := "StorageClass"
      name := "standard" } :: volumeNames.map volume
  edges := volumeNames.map fun name =>
    ⟨"PersistentVolume/" ++ name, "StorageClass/standard", "uses"⟩

/-- The equivalence, of them. -/
theorem aggregate_connected_iff_storageClass :
    ∃ new, aggregate storageClass 5 "StorageClass/standard"
        (storageClass.nodes.map (·.id)) (fun _ keys => keys) = some new
      ∧ (StaysConnected new ↔ Linked (aggregation storageClass 5
        "StorageClass/standard" (storageClass.nodes.map (·.id)))) := by
  obtain ⟨new, hnew, -, hiff⟩ := aggregate_connected_iff storageClass 5
    "StorageClass/standard" (storageClass.nodes.map (·.id))
    (fun _ keys => keys) (by decide) (by decide) (by decide)
    (fun _ keys => .refl keys)
  exact ⟨new, hnew, hiff⟩

theorem weaklyConnected_of_center {graph : DependencyGraph} (id : String)
    (h : ∀ n ∈ graph.nodes, EqvGen (Adjacent graph) n.id id) :
    WeaklyConnected graph :=
  fun n hn m hm => .trans _ _ _ (h n hn) (.symm _ _ (h m hm))

theorem eq_iff_of_joined {graph : DependencyGraph} (id : String)
    (hnone : ∀ e ∈ graph.edges, e.source ≠ id ∧ e.target ≠ id)
    {x y : String} (h : EqvGen (Adjacent graph) x y) :
    x = id ↔ y = id := by
  induction h with
  | rel x y hrel =>
    obtain ⟨e, he, rfl, rfl⟩ := hrel
    exact iff_of_false (hnone e he).1 (hnone e he).2
  | refl => exact Iff.rfl
  | symm _ _ _ ih => exact ih.symm
  | trans _ _ _ _ _ ih ih' => exact ih.trans ih'

def volumes : GroupKey := ⟨"StorageClass/standard", "PersistentVolume"⟩

def storageClassView : NewGraph where
  nodes := (storageClass.nodes.take 6).map .node ++ [.summary volumes 1]
  edges := storageClass.edges.take 5

/-- The summary of the sixth volume is joined to nothing. -/
theorem volumes_cut_off :
    ∃ graph limit explicitRootID nodeOrder order new,
      Unique graph ∧ WeaklyConnected graph
        ∧ (∀ e ∈ graph.edges, (∃ n ∈ graph.nodes, n.id = e.source)
          ∧ (∃ n ∈ graph.nodes, n.id = e.target)
          ∧ e.relation ∈ childToParentRelations ++ parentToChildRelations)
        ∧ 1 ≤ limit ∧ explicitRootID ≠ ""
        ∧ (∃ n ∈ graph.nodes, n.id = explicitRootID)
        ∧ nodeOrder.Perm (graph.nodes.map (·.id))
        ∧ (∀ r keys, (order r keys).Perm keys)
        ∧ aggregate graph limit explicitRootID nodeOrder order = some new
        ∧ ¬ WeaklyConnected new.toGraph ∧ ¬ StaysConnected new := by
  have hcut : ¬ WeaklyConnected storageClassView.toGraph := by
    intro h
    have hjoined := h (Entry.summary volumes 1).toNode (by decide)
      storageClass.nodes[0] (by decide)
    have hiff := eq_iff_of_joined volumes.summaryID (by decide) hjoined
    exact absurd (hiff.mp rfl) (by decide)
  refine ⟨storageClass, 5, "StorageClass/standard",
    storageClass.nodes.map (·.id), fun _ keys => keys, storageClassView,
    by decide, weaklyConnected_of_center "StorageClass/standard" ?_,
    by decide, by decide, by decide, by decide, .refl _,
    fun _ keys => .refl keys, by decide, hcut, fun h => hcut h.connected⟩
  intro n hn
  rcases List.mem_cons.mp hn with rfl | hn
  · exact .refl _
  · obtain ⟨name, hname, rfl⟩ := List.mem_map.mp hn
    exact .rel _ _ ⟨_, List.mem_map.mpr ⟨name, hname, rfl⟩, rfl, rfl⟩

end Deps
