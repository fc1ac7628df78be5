import DecisionGraph.Graph.Basic
import DecisionGraph.Json.Outline
import DecisionGraph.Json.Printer

/-!
# Graphs as JSON documents

`Graph.toJson` writes a graph with its members in their usual order, `Graph.ofJson?` reads it
back, and `Graph.parse?` reads a graph from text along an outline that knows the older names of
some members.
-/

namespace DecisionGraph

/-! ## Writing -/

/-- A double as a value. There is no number for infinity, and `null` stands in its place. -/
def Json.ofDouble (value : Double) : Json :=
  if value.isFinite then .number (.double value) else .null

def Position.toJson (position : Position) : Json := .object [
  ("x", .ofDouble position.x), ("y", .ofDouble position.y)]

namespace Node

def toMembers (node : Node) : List (String × Json) := [
  ("id", .text node.id), ("type", .text node.kind), ("name", .text node.name),
  ("content", node.content), ("position", node.position.toJson)]

def toJson (node : Node) : Json := .object node.toMembers

end Node

namespace Edge

/-- The members of an edge in their usual order. Handles that are not set are left out. -/
def toMembers (edge : Edge) : List (String × Json) :=
  [("id", .text edge.id), ("sourceId", .text edge.source), ("targetId", .text edge.target)] ++
    (edge.sourceHandle.map fun handle => ("sourceHandle", Json.text handle)).toList ++
    (edge.targetHandle.map fun handle => ("targetHandle", Json.text handle)).toList

def toJson (edge : Edge) : Json := .object edge.toMembers

end Edge

def Graph.toJson (graph : Graph) : Json := .object [
  ("nodes", .array (graph.nodes.map Node.toJson)), ("edges", .array (graph.edges.map Edge.toJson))]

/-! ## Reading -/

namespace Record

/-- The member of a record with a name, or the one at a position of a record that is a list. -/
def part? (name : String) (position : Nat) : Json → Option Json
  | .object members => Keyed.get? name members
  | .array items => items[position]?
  | _ => none

/-- Whether a value can be a record at all. -/
def isRecord : Json → Bool
  | .object _ => true
  | .array _ => true
  | _ => false

/-- A text that has to be there. -/
def text? (name : String) (position : Nat) (value : Json) : Option String :=
  (part? name position value).bind Json.text?

/-- A text that may be missing or `null`. Nothing if something else stands there. -/
def optionalText? (name : String) (position : Nat) (value : Json) : Option (Option String) :=
  match part? name position value with
  | none => some none
  | some .null => some none
  | some (.text text) => some (some text)
  | some _ => none

/-- Items that may be missing, each read in turn. -/
def items? {α : Type} (name : String) (position : Nat) (read : Json → Option α) (value : Json) :
    Option (List α) :=
  match part? name position value with
  | none => some []
  | some (.array items) => items.mapM read
  | some _ => none

end Record

/-- Reads a number as a double. -/
def Json.double? : Json → Option Double
  | .number value => some value.toDouble
  | _ => none

/-- Reads a place, both of whose coordinates have to be there. -/
def Position.ofJson? (value : Json) : Option Position := do
  let x ← (Record.part? "x" 0 value).bind Json.double?
  let y ← (Record.part? "y" 1 value).bind Json.double?
  return ⟨x, y⟩

/-- Reads a node. Its name, content and place may be missing. -/
def Node.ofJson? (value : Json) : Option Node := do
  let id ← Record.text? "id" 0 value
  let kind ← Record.text? "type" 1 value
  let name ← ((Record.part? "name" 2 value).getD (.text "")).text?
  let content := (Record.part? "content" 3 value).getD .null
  let position ← match Record.part? "position" 4 value with
    | none => some Position.origin
    | some place => Position.ofJson? place
  return { id, kind, name, content, position }

/-- Reads an edge. Its handles may be missing or `null`. -/
def Edge.ofJson? (value : Json) : Option Edge := do
  let id ← Record.text? "id" 0 value
  let source ← Record.text? "sourceId" 1 value
  let target ← Record.text? "targetId" 2 value
  let sourceHandle ← Record.optionalText? "sourceHandle" 3 value
  let targetHandle ← Record.optionalText? "targetHandle" 4 value
  return { id, source, target, sourceHandle, targetHandle }

namespace Graph

/-- Reads a graph. Its nodes and edges may be missing. -/
def ofJson? (value : Json) : Option Graph :=
  if Record.isRecord value then do
    let nodes ← Record.items? "nodes" 0 Node.ofJson? value
    let edges ← Record.items? "edges" 1 Edge.ofJson? value
    return { nodes, edges }
  else none

/-- The parts of a document that belong to a graph. -/
def outline : Outline :=
  .record [
    ("nodes", [], .list <| .record [
      ("id", [], .whole), ("type", ["kind"], .whole), ("name", [], .whole), ("content", [], .whole),
      ("position", [], .record [("x", [], .whole), ("y", [], .whole)])]),
    ("edges", [], .list <| .record [
      ("id", [], .whole), ("sourceId", ["sourceNodeId"], .whole),
      ("targetId", ["targetNodeId"], .whole), ("sourceHandle", [], .whole),
      ("targetHandle", [], .whole)])]

/-- Reads a graph from the text of a JSON document. -/
def parse? (source : String) : Option Graph := do
  let document ← Written.parse? source
  let value ← outline.read? Written.maxNesting document
  ofJson? value

end Graph

end DecisionGraph
