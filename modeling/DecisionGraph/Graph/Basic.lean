import DecisionGraph.Json.Basic

/-!
# Decision graphs

Nodes with free-form content, and directed edges along which data flows. Nothing keeps a graph from
having two nodes of one id or edges that lead nowhere; `Graph.validate` finds the first such flaw.
-/

namespace DecisionGraph

structure Position where
  x : Double
  y : Double
deriving DecidableEq

def Position.origin : Position := ⟨.zero, .zero⟩

/-- How far two places are apart. -/
def Position.distance (a b : Position) : Float :=
  let dx := a.x.toFloat - b.x.toFloat
  let dy := a.y.toFloat - b.y.toFloat
  (dx * dx + dy * dy).sqrt

/-- A unit of a decision graph. Its kind says how its content is to be read. -/
structure Node where
  id : String
  kind : String
  name : String
  content : Json
  position : Position

/-- A connection along which the output of one node becomes input of another. -/
structure Edge where
  id : String
  source : String
  target : String
  sourceHandle : Option String
  targetHandle : Option String
deriving DecidableEq

structure Graph where
  nodes : List Node
  edges : List Edge

inductive GraphFlaw
  /-- More than one node has the id. -/
  | duplicateNode (id : String)
  /-- The edge starts or ends at a node that is not there. -/
  | danglingEdge (edge missing : String)
deriving DecidableEq

def GraphFlaw.message : GraphFlaw → String
  | .duplicateNode id => "Node id '" ++ id ++ "' is used by more than one node"
  | .danglingEdge edge missing =>
    "Edge '" ++ edge ++ "' references node '" ++ missing ++ "', which is not part of the graph"

/-- The first of the strings that has occurred before. -/
def firstRepeated? (seen : List String) : List String → Option String
  | [] => none
  | text :: rest => if text ∈ seen then some text else firstRepeated? (text :: seen) rest

namespace Graph

/-- The first node with an id. -/
def node? (id : String) (graph : Graph) : Option Node := graph.nodes.find? fun node => node.id = id

/-- The ids of the nodes, repetitions included. -/
def nodeIds (graph : Graph) : List String := graph.nodes.map Node.id

/-- The end of an edge that is not among the ids, the source before the target. -/
def missingEnd? (ids : List String) (edge : Edge) : Option String :=
  if edge.source ∉ ids then some edge.source
  else if edge.target ∉ ids then some edge.target
  else none

/-- The first flaw of a graph: a repeated node id, or else an edge with a missing end. -/
def flaw? (graph : Graph) : Option GraphFlaw :=
  match firstRepeated? [] graph.nodeIds with
  | some id => some (.duplicateNode id)
  | none =>
    graph.edges.findSome? fun edge =>
      (missingEnd? graph.nodeIds edge).map (.danglingEdge edge.id)

/-- Checks that node ids are distinct and that every edge has both ends. -/
def validate (graph : Graph) : Except GraphFlaw Unit :=
  match graph.flaw? with
  | some flaw => .error flaw
  | none => .ok ()

end Graph

end DecisionGraph
