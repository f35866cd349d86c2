/-
The aggregation of a dependency graph (pkg/k8s/deps_graph.go, and the types
of dependencies.go).

# Maps

The order in which a loop meets the keys of a map is a parameter: one for
the nodes whose primary parents are determined, and one for the groups of
each round. Sets of IDs are kept as lists; the kinds of a node's neighbours
are counted in any order.

# The new graph

A node that is added to it is one of the graph or a summary, and an entry
says which (`Entry`); `toGraph` is the graph that is returned. A node is
looked up by its ID among all nodes, and the last one of an ID is found.

# Expansion

The expansion of a summary (ExpandDependencyNode in
pkg/k8s/dependencies.go), and how often the UI asks for it (handleExpandNode
in DependencyGraph.tsx).

# The IDs

A colon is one byte, and so an ID is split at the same place whether it is
read by bytes or by characters. The set of the nodes that were seen holds
the IDs of those that match.
-/
import Kubikles.Lib.FinMap

namespace Deps

-- ======== graphs

structure DependencyNode where
  id : String
  kind : String
  name : String := ""
  ns : String := ""
  status : String := ""
  isSummary : Bool := false
  remainingCount : Nat := 0
  parentID : String := ""
  metadata : List (String × String) := []
deriving DecidableEq

structure DependencyEdge where
  source : String
  target : String
  relation : String
deriving DecidableEq

structure DependencyGraph where
  nodes : List DependencyNode
  edges : List DependencyEdge
deriving DecidableEq

def childToParentRelations : List String := ["uses", "binds", "references"]

def parentToChildRelations : List String :=
  ["owns", "selects", "routes-to", "scales", "protects", "applies-to"]

namespace DependencyGraph

variable (graph : DependencyGraph)

def nodeByID (id : String) : Option DependencyNode :=
  graph.nodes.reverse.find? (·.id = id)

/-- The edges under `incomingEdgeIdx[id]`. -/
def incoming (id : String) : List DependencyEdge :=
  graph.edges.filter (·.target = id)

/-- The edges under `outgoingEdgeIdx[id]`. -/
def outgoing (id : String) : List DependencyEdge :=
  graph.edges.filter (·.source = id)

/-- The kinds of some nodes, each once. -/
def kinds (ids : List String) : List String :=
  (ids.filterMap fun id => (graph.nodeByID id).map (·.kind)).dedup

/-- `connectorNodes[id]`. -/
def connector (id : String) : Bool :=
  2 ≤ (graph.kinds ((graph.incoming id).map (·.source))).length
    || 2 ≤ (graph.kinds ((graph.outgoing id).map (·.target))).length

/-- `rootID`. -/
def rootOf (explicitRootID : String) : String :=
  if explicitRootID = "" then
    (graph.nodes.find? fun n => (graph.incoming n.id).isEmpty).elim ""
      (·.id)
  else explicitRootID

-- ======== primary parents

/-- `primaryParent[id]`, where it is read: the empty ID if there is none. -/
def parentIn (primaryParent : FinMap String String) (id : String) :
    String :=
  (primaryParent.lookup id).getD ""

/-- The parent of a node, where some others are determined already. -/
def parentOf (primaryParent : FinMap String String) (id : String) :
    String :=
  let uses := ((graph.outgoing id).find? fun e =>
    childToParentRelations.contains e.relation).elim "" (·.target)
  if uses ≠ "" then uses
  else
    let owner := ((graph.incoming id).find? fun e =>
      parentToChildRelations.contains e.relation).elim "" (·.source)
    if owner ≠ "" then owner
    else
      -- Any incoming edge, but not from a child.
      match (graph.incoming id).head? with
      | none => ""
      | some e =>
        if parentIn primaryParent e.source ≠ id then e.source else ""

/-- `primaryParent`, with the IDs in the order the loop meets them. -/
def primaryParents (rootID : String) (nodeOrder : List String) :
    FinMap String String :=
  nodeOrder.foldl (fun primaryParent id =>
    if id = rootID then primaryParent
    else primaryParent.insert id (graph.parentOf primaryParent id)) ∅

end DependencyGraph

-- ======== groups

structure GroupKey where
  parentID : String
  kind : String
deriving DecidableEq

def GroupKey.summaryID (key : GroupKey) : String :=
  "summary:" ++ key.parentID ++ ":" ++ key.kind

/-- A node of the new graph. -/
inductive Entry where
  | node (n : DependencyNode)
  | summary (key : GroupKey) (remaining : Nat)
deriving DecidableEq

/-- What it is in the graph that is returned. -/
def Entry.toNode : Entry → DependencyNode
  | .node n => n
  | .summary key remaining =>
    { id := key.summaryID
      kind := key.kind
      name := "+" ++ toString remaining ++ " more " ++ key.kind ++ "s"
      isSummary := true
      remainingCount := remaining
      parentID := key.parentID }

structure State where
  entries : List Entry := []
  keptNodes : List String := []
  hiddenNodes : List String := []
  processedNodes : List String := []
deriving DecidableEq

/-- What the loop reads of the rest. -/
structure Aggregation where
  graph : DependencyGraph
  limit : Int
  rootID : String
  primaryParent : FinMap String String

namespace Aggregation

variable (a : Aggregation)

/-- The `parentID` of a node: its primary parent, or the root. -/
def parentID (n : DependencyNode) : String :=
  let parentID := DependencyGraph.parentIn a.primaryParent n.id
  if parentID = "" then a.rootID else parentID

def keyOf (n : DependencyNode) : GroupKey := ⟨a.parentID n, n.kind⟩

/-- Which nodes of a group with a visible parent are kept, and which are
not. -/
def split (nodes : List DependencyNode) :
    List DependencyNode × List DependencyNode :=
  if (nodes.length : Int) ≤ a.limit then (nodes, [])
  else
    let connectors := nodes.filter (a.graph.connector ·.id)
    let regular := nodes.filter (!a.graph.connector ·.id)
    let remainingSlots := (a.limit - connectors.length).toNat
    (connectors ++ regular.take remainingSlots, regular.drop remainingSlots)

def process (key : GroupKey) (nodes : List DependencyNode) (s : State) :
    State :=
  let processedNodes := s.processedNodes ++ nodes.map (·.id)
  if s.hiddenNodes.contains key.parentID then
    { s with
      hiddenNodes := s.hiddenNodes ++ nodes.map (·.id), processedNodes }
  else
    let (kept, hidden) := a.split nodes
    { entries := s.entries ++ kept.map .node
        ++ if hidden.isEmpty then [] else [.summary key hidden.length]
      keptNodes := s.keptNodes ++ kept.map (·.id)
        ++ if hidden.isEmpty then [] else [key.summaryID]
      hiddenNodes := s.hiddenNodes ++ hidden.map (·.id)
      processedNodes }

/-- The nodes whose parent has been processed, and they have not. -/
def available (s : State) : List DependencyNode :=
  a.graph.nodes.filter fun n =>
    !s.processedNodes.contains n.id
      && (s.processedNodes.contains (a.parentID n)
        || a.parentID n = a.rootID)

/-- The keys of `nodeIdxByGroup`. -/
def keys (s : State) : List GroupKey :=
  ((a.available s).map a.keyOf).dedup

def round (order : List GroupKey) (s : State) : State :=
  let available := a.available s
  order.foldl (fun s key =>
    a.process key (available.filter (a.keyOf · = key)) s) s

/-- The loop, for so many rounds at most. -/
def loop (order : Nat → List GroupKey → List GroupKey) :
    Nat → State → Option State
  | 0, _ => none
  | fuel + 1, s =>
    if (a.keys s).isEmpty then some s
    else loop order fuel (a.round (order fuel (a.keys s)) s)

/-- The variables before the loop. -/
def start : State :=
  let root := if a.rootID = "" then none else a.graph.nodeByID a.rootID
  { entries := root.toList.map .node
    keptNodes := root.toList.map fun _ => a.rootID
    processedNodes := [a.rootID] }

-- ======== edges

/-- The edge of the new graph for an edge of the graph. -/
def redirect (keptNodes : List String) (e : DependencyEdge) :
    Option DependencyEdge :=
  if keptNodes.contains e.source then
    if keptNodes.contains e.target then some e
    else
      (a.graph.nodeByID e.target).bind fun target =>
        let parentID := DependencyGraph.parentIn a.primaryParent e.target
        let key : GroupKey :=
          ⟨if parentID = "" then "_root_" else parentID, target.kind⟩
        if keptNodes.contains key.summaryID then
          some { e with target := key.summaryID }
        else none
  else none

/-- The edges of the new graph, each once. -/
def rebuild (keptNodes : List String) : List DependencyEdge :=
  a.graph.edges.foldl (fun edges e =>
    match a.redirect keptNodes e with
    | some e' => if edges.contains e' then edges else edges ++ [e']
    | none => edges) []

end Aggregation

-- ======== the result

structure NewGraph where
  nodes : List Entry
  edges : List DependencyEdge
deriving DecidableEq

def NewGraph.toGraph (new : NewGraph) : DependencyGraph where
  nodes := new.nodes.map Entry.toNode
  edges := new.edges

/-- What the loop of `aggregateGraph` reads. -/
def aggregation (graph : DependencyGraph) (limit : Int)
    (explicitRootID : String) (nodeOrder : List String) : Aggregation :=
  let rootID := graph.rootOf explicitRootID
  { graph, limit, rootID
    primaryParent := graph.primaryParents rootID nodeOrder }

/-- `aggregateGraph` of a graph that is not nil: the new graph. -/
def aggregate (graph : DependencyGraph) (limit : Int)
    (explicitRootID : String) (nodeOrder : List String)
    (order : Nat → List GroupKey → List GroupKey) : Option NewGraph :=
  let a := aggregation graph limit explicitRootID nodeOrder
  (a.loop order (graph.nodes.length + 1) a.start).map fun s =>
    { nodes := s.entries, edges := a.rebuild s.keptNodes }

def aggregateGraph (graph : DependencyGraph) (limit : Int)
    (explicitRootID : String) (nodeOrder : List String)
    (order : Nat → List GroupKey → List GroupKey) :
    Option DependencyGraph :=
  (aggregate graph limit explicitRootID nodeOrder order).map
    NewGraph.toGraph

end Deps

namespace Deps

def expansionLimit : Nat := 10

def defaultNodeLimit : Nat := 5

/-- `splitSummaryID`: the parent's ID and the kind. -/
def splitSummaryID (id : String) : Option (String × String) :=
  if "summary:".toList.isPrefixOf id.toList then
    let rest := id.toList.drop 8
    let kind := (rest.reverse.takeWhile (· ≠ ':')).reverse
    if kind.length < rest.length then
      some (String.ofList (rest.take (rest.length - kind.length - 1)),
        String.ofList kind)
    else none
  else none

/-- The child that an edge names, if its parent is one of these. -/
def DependencyEdge.childOf (isParent : String → Bool)
    (e : DependencyEdge) : String :=
  if childToParentRelations.contains e.relation then
    if isParent e.target then e.source else ""
  else if isParent e.source then e.target else ""

def Entry.isSummary : Entry → Bool
  | .node _ => false
  | .summary _ _ => true

namespace DependencyGraph

variable (graph : DependencyGraph)

/-- `matchingNodes`: the children of the parent of a kind, in the order of
the edges. -/
def matchingNodes (parentID targetKind : String) : List DependencyNode :=
  graph.edges.foldl (fun matching e =>
    let childID := e.childOf (· = parentID)
    if childID ≠ "" ∧ childID ∉ matching.map (·.id) then
      match graph.nodeByID childID with
      | some node =>
        if node.kind = targetKind then matching ++ [node] else matching
      | none => matching
    else matching) []

/-- The loop that adds the children of the nodes of a batch, and theirs
where the edges come in that order. -/
def withChildren (batch : List DependencyNode) : List DependencyNode :=
  graph.edges.foldl (fun nodes e =>
    let childID := e.childOf ((nodes.map (·.id)).contains ·)
    if childID ≠ "" ∧ childID ∉ nodes.map (·.id) then
      match graph.nodeByID childID with
      | some childNode => nodes ++ [childNode]
      | none => nodes
    else nodes) batch

def batch (parentID targetKind : String) (offset : Nat) :
    List DependencyNode :=
  ((graph.matchingNodes parentID targetKind).drop offset).take
    expansionLimit

/-- `ExpandDependencyNode`, of a full graph. -/
def expandDependencyNode (summaryNodeID : String) (offset : Nat) :
    Option NewGraph :=
  (splitSummaryID summaryNodeID).map fun (parentID, targetKind) =>
    let nodes := graph.withChildren (graph.batch parentID targetKind offset)
    let included := fun id =>
      (nodes.map (·.id)).contains id || id = parentID
    let length := (graph.matchingNodes parentID targetKind).length
    let remaining := length - min (offset + expansionLimit) length
    { nodes := nodes.map .node ++
        if 0 < remaining then [.summary ⟨parentID, targetKind⟩ remaining]
        else []
      edges := graph.edges.filter fun e =>
        included e.source && included e.target }

/-- The calls of the UI for one summary, from an offset on: until no summary
is returned, so many at most. -/
def expandAll (summaryNodeID : String) : Nat → Nat → Option (List NewGraph)
  | 0, _ => none
  | fuel + 1, offset =>
    match graph.expandDependencyNode summaryNodeID offset with
    | none => none
    | some g =>
      if g.nodes.any Entry.isSummary then
        (expandAll summaryNodeID fuel (offset + expansionLimit)).map
          (g :: ·)
      else some [g]

end DependencyGraph

end Deps
