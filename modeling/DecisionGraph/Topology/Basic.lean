import DecisionGraph.Graph.Basic

/-!
# The topology of a graph

The nodes and links along which data flows. Of several nodes with one id the first takes part; an
edge with a missing end is no link. Nodes are named by their ids, which are distinct here.
-/

namespace DecisionGraph

structure Link where
  source : String
  target : String
deriving DecidableEq

/-- The nodes that take part, in the order of the graph, and the links in the order of the edges. -/
structure Topology where
  nodes : List Node
  links : List Link

/-- The first node of each id. -/
def firstNodes (seen : List String) : List Node → List Node
  | [] => []
  | node :: rest =>
    if node.id ∈ seen then firstNodes seen rest else node :: firstNodes (node.id :: seen) rest

namespace Topology

def ofGraph (graph : Graph) : Topology where
  nodes := firstNodes [] graph.nodes
  links := graph.edges.filterMap fun edge =>
    if edge.source ∈ graph.nodeIds ∧ edge.target ∈ graph.nodeIds then
      some ⟨edge.source, edge.target⟩
    else none

def ids (topology : Topology) : List String := topology.nodes.map Node.id

def node? (topology : Topology) (id : String) : Option Node :=
  topology.nodes.find? fun node => node.id = id

/-- The sources of the links into a node, in the order of the links. Outputs are merged in this
order. -/
def predecessors (topology : Topology) (id : String) : List String :=
  (topology.links.filter fun link => link.target = id).map (·.source)

/-- The targets of the links out of a node, in the order of the links. -/
def successors (topology : Topology) (id : String) : List String :=
  (topology.links.filter fun link => link.source = id).map (·.target)

end Topology

end DecisionGraph
