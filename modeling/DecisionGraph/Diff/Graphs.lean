import DecisionGraph.Graph.Document
import DecisionGraph.Registry

/-!
# Comparing two graphs

Nodes and edges are aligned by their ids. A pair of nodes of one kind has its contents compared as
the kind asks; contents of an unknown kind, contents that do not fit and contents of different
kinds are compared as a whole. The result is the current graph with what changed, and with the
removed nodes and edges where they used to be.
-/

namespace DecisionGraph

/-- A node with its changes. A removed node stands with what it was. -/
structure ComparedNode where
  node : Node
  change : Option Change
  /-- The rows of the lists in its content of which some row changed or moved. -/
  lists : Keyed (List ComparedRow)

/-- An edge with its changes. -/
structure ComparedEdge where
  edge : Edge
  change : Option Change

/-- A graph with its changes. -/
structure ComparedGraph where
  nodes : List ComparedNode
  edges : List ComparedEdge
  issues : List Issue

/-- How two graphs are compared. -/
structure Comparison where
  registry : Registry
  /-- A node counts as moved if its place on the canvas is farther off than this. -/
  threshold : Option Float

namespace Comparison

/-- Compares the contents of two nodes of the same kind. -/
def compareContents (registry : Registry) (previous current : Node) :
    ComparedContent × List Issue :=
  match registry.get? current.kind with
  | none => (Behavior.compareWhole previous current, [.unknownKind current.id current.kind])
  | some behavior =>
    match behavior.compare previous current with
    | .ok diff => (diff, [])
    | .error error =>
      (Behavior.compareWhole previous current,
        [.malformedContent current.id current.kind error.message])

/-- Whether a node is farther off its previous place than the threshold allows. -/
def isRepositioned (threshold : Option Float) (previous current : Node) : Bool :=
  threshold.any fun threshold => threshold < previous.position.distance current.position

def compareNodes (comparison : Comparison) (previous current : Node) (moved : Bool) :
    ComparedNode × List Issue :=
  let sameKind := comparison.registry.equates previous.kind current.kind
  let name := ("name", FieldChange.ofTexts? (some previous.name) (some current.name))
  let type := ("type", FieldChange.ofTexts? (some previous.kind) (some current.kind))
  let fields := changedFields (if sameKind then [name] else [name, type])
  let (content, issues) :=
    if sameKind then compareContents comparison.registry previous current
    else (Behavior.compareWhole previous current, [])
  let moved := moved || isRepositioned comparison.threshold previous current
  ({ node := current
     change := Change.ofPair? (Keyed.union fields content.fields) moved
     lists := content.lists }, issues)

def node (comparison : Comparison) : Slot Node → ComparedNode × List Issue
  | .paired previous current moved => comparison.compareNodes previous.item current.item moved
  | .added current => (⟨current.item, some .added, []⟩, [])
  | .removed previous => (⟨previous.item, some .removed, []⟩, [])

def compareEdges (previous current : Edge) : FieldChanges :=
  changedFields [
    ("sourceId", FieldChange.ofTexts? (some previous.source) (some current.source)),
    ("targetId", FieldChange.ofTexts? (some previous.target) (some current.target)),
    ("sourceHandle", FieldChange.ofTexts? previous.sourceHandle current.sourceHandle),
    ("targetHandle", FieldChange.ofTexts? previous.targetHandle current.targetHandle)]

def edge : Slot Edge → ComparedEdge
  | .paired previous current moved =>
    ⟨current.item, Change.ofPair? (compareEdges previous.item current.item) moved⟩
  | .added current => ⟨current.item, some .added⟩
  | .removed previous => ⟨previous.item, some .removed⟩

def diff (comparison : Comparison) (previous current : Graph) : ComparedGraph :=
  let nodes := (align (fun node => .named node.id) previous.nodes current.nodes).map comparison.node
  let edges := (align (fun edge => .named edge.id) previous.edges current.edges).map edge
  { nodes := nodes.map (·.1), edges, issues := Issue.report (nodes.flatMap (·.2)) }

end Comparison

/-- How many nodes and edges changed in which way. -/
structure ChangeCounts where
  added : Nat
  removed : Nat
  modified : Nat
  moved : Nat
  unchanged : Nat
deriving DecidableEq

namespace ChangeCounts

def hasChanges (counts : ChangeCounts) : Bool :=
  0 < counts.added + counts.removed + counts.modified + counts.moved

/-- The counts of a list of changes. -/
def ofChanges (changes : List (Option Change)) : ChangeCounts :=
  let count (status : String) := changes.countP fun change =>
    change.any fun change => change.status == status
  { added := count "added", removed := count "removed", modified := count "modified"
    moved := count "moved", unchanged := changes.countP Option.isNone }

def toJson (counts : ChangeCounts) : Json := .object [
  ("added", .ofNat counts.added), ("removed", .ofNat counts.removed),
  ("modified", .ofNat counts.modified), ("moved", .ofNat counts.moved),
  ("unchanged", .ofNat counts.unchanged)]

end ChangeCounts

def isGone (change : Option Change) : Bool := change.any Change.isRemoved

def ComparedNode.toJson (node : ComparedNode) : Json :=
  .object (node.node.toMembers ++ changeMember node.change ++ listsMember node.lists)

def ComparedEdge.toJson (edge : ComparedEdge) : Json :=
  .object (edge.edge.toMembers ++ changeMember edge.change)

namespace ComparedGraph

def changes (graph : ComparedGraph) : List (Option Change) :=
  graph.nodes.map (·.change) ++ graph.edges.map (·.change)

def counts (graph : ComparedGraph) : ChangeCounts := .ofChanges graph.changes

/-- The graph without its changes: the current one of the two that were compared. -/
def current (graph : ComparedGraph) : Graph where
  nodes := (graph.nodes.filter fun node => !isGone node.change).map (·.node)
  edges := (graph.edges.filter fun edge => !isGone edge.change).map (·.edge)

/-- The first node with an id. -/
def node? (graph : ComparedGraph) (id : String) : Option ComparedNode :=
  graph.nodes.find? fun node => node.node.id = id

/-- The first edge with an id. -/
def edge? (graph : ComparedGraph) (id : String) : Option ComparedEdge :=
  graph.edges.find? fun edge => edge.edge.id = id

/-- The graph with its changes as a JSON value. Issues are left out if there are none. -/
def toJson (graph : ComparedGraph) : Json :=
  .object <| [
    ("nodes", .array (graph.nodes.map ComparedNode.toJson)),
    ("edges", .array (graph.edges.map ComparedEdge.toJson))] ++
    if graph.issues.isEmpty then [] else [("issues", .array (graph.issues.map Issue.toJson))]

end ComparedGraph

end DecisionGraph
