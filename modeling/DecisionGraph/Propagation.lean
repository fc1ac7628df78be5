import DecisionGraph.Registry
import DecisionGraph.Shape.Encoding
import DecisionGraph.Topology.Order
import DecisionGraph.Topology.Reach

/-!
# Propagating shapes through a graph

Nodes are computed in dependency order. The input of a node is what the outputs of its
predecessors merge to, and its output is what its kind makes of that. Nothing is known about the
nodes of a cycle.

A propagation can start from the result of an earlier one. A node then keeps its shapes if it is not
among the changed ones and its kind finds that nothing it was computed from has changed.
-/

namespace DecisionGraph

/-- The shapes that flow into a node and out of it. -/
structure NodeShapes where
  input : Shape
  output : Shape
  /-- The problems met at the node; a node that is kept still reports them. -/
  issues : List Issue

/-- The shapes of a node that nothing is known about. -/
def NodeShapes.unknown : NodeShapes := ⟨.any, .any, []⟩

/-- The result of a propagation. -/
structure Propagation where
  nodes : Keyed NodeShapes
  /-- The changed nodes and all nodes downstream of them, in order of their ids. -/
  dirty : List String
  /-- The nodes whose output was worked out anew, in order of their ids. -/
  recomputed : List String
  issues : List Issue
  /-- What each node was computed from. -/
  bases : Keyed NodeBasis

namespace Propagation

def node? (result : Propagation) (id : String) : Option NodeShapes := Keyed.get? id result.nodes

def hasCycle (result : Propagation) : Bool := result.issues.any Issue.isCycle

/-- The nodes that lie on a cycle, in order of their ids. -/
def onCycles (result : Propagation) : List String :=
  sortedDistinct ((result.issues.filter Issue.isCycle).flatMap Issue.nodes)

end Propagation

/-- What shapes are propagated with. -/
structure Environment where
  registry : Registry
  /-- The shape of the data from outside. -/
  external : Option Shape

/-- The part of a propagation that grows with every node. -/
structure Progress where
  nodes : Keyed NodeShapes
  bases : Keyed NodeBasis
  recomputed : List String

namespace Progress

def start : Progress := ⟨[], [], []⟩

/-- The output of a node, `any` if it has not been computed. -/
def output (progress : Progress) (id : String) : Shape :=
  ((Keyed.get? id progress.nodes).map NodeShapes.output).getD .any

/-- The merged outputs of a node's predecessors; the empty object if there are none. -/
def inputOf (progress : Progress) (topology : Topology) (id : String) : Shape :=
  (Shape.mergeAll? ((topology.predecessors id).map progress.output)).getD .empty

/-- Records the nodes of a cycle, about which nothing is known. -/
def addCycle (progress : Progress) (cycle : List String) : Progress :=
  -- no basis is recorded, so that a later propagation keeps nothing for these nodes
  { progress with
    nodes := cycle.foldl (fun nodes id => Keyed.insert id .unknown nodes) progress.nodes
    recomputed := cycle ++ progress.recomputed }

end Progress

namespace Environment

/-- What a node is computed from. -/
def basisOf (environment : Environment) (node : Node) (input : Shape) : NodeBasis where
  kind := node.kind
  input := input
  content := node.content
  -- other data from outside do not make a node stale that does not read them
  external :=
    if (environment.registry.get? node.kind).any Behavior.readsExternal then environment.external
    else none

/-- Whether a node has to be computed again, given its previous and its current basis. -/
def isStale (environment : Environment) (kind : String) (previous current : NodeBasis) : Bool :=
  match environment.registry.get? kind with
  | some behavior => behavior.isStale previous current
  | none => !previous.same current

/-- The shapes that a node keeps from an earlier result, if it may. -/
def kept? (environment : Environment) (changed : List String) (previous : Option Propagation)
    (node : Node) (basis : NodeBasis) : Option NodeShapes := do
  let previous ← previous
  if node.id ∈ changed then none
  else
    let before ← Keyed.get? node.id previous.bases
    if environment.isStale node.kind before basis then none else previous.node? node.id

/-- The output that a node's kind makes of an input. Nothing is known about the output of a kind
that is not registered or of content that does not fit. -/
def infer (environment : Environment) (node : Node) (input : Shape) : Inferred :=
  match environment.registry.get? node.kind with
  | none => ⟨.any, [.unknownKind node.id node.kind]⟩
  | some behavior =>
    match behavior.infer node input environment.external with
    | .ok inferred => inferred
    | .error error => ⟨.any, [.malformedContent node.id node.kind error.message]⟩

def compute (environment : Environment) (node : Node) (input : Shape) : NodeShapes :=
  let inferred := environment.infer node input
  ⟨input, inferred.output.truncate Shape.maxDepth, inferred.issues⟩

/-- Computes a node all of whose predecessors have been computed, or keeps its shapes. -/
def addNode (environment : Environment) (topology : Topology) (changed : List String)
    (previous : Option Propagation) (progress : Progress) (id : String) : Progress :=
  match topology.node? id with
  | none => progress
  | some node =>
    let input := progress.inputOf topology id
    let basis := environment.basisOf node input
    let bases := Keyed.insert id basis progress.bases
    match environment.kept? changed previous node basis with
    | some shapes => { progress with nodes := Keyed.insert id shapes progress.nodes, bases }
    | none =>
      { nodes := Keyed.insert id (environment.compute node input) progress.nodes
        bases
        recomputed := id :: progress.recomputed }

/-- Propagates shapes through a graph, keeping what it can of an earlier result. -/
def propagate (environment : Environment) (graph : Graph) (changed : List String)
    (previous : Option Propagation) : Propagation :=
  let topology := Topology.ofGraph graph
  let schedule := topology.schedule
  let addNode := environment.addNode topology changed previous
  -- the outputs of a cycle have to be there before anything below it is computed
  let before := schedule.before.foldl addNode Progress.start
  let resumed := schedule.cycles.foldl Progress.addCycle before
  let final := schedule.after.foldl addNode resumed
  { nodes := final.nodes
    dirty := sortedDistinct (topology.downstream changed)
    recomputed := sortedDistinct final.recomputed
    issues := Issue.report (schedule.cycles.map Issue.cyclicDependency ++
      (Keyed.values final.nodes).flatMap NodeShapes.issues)
    bases := final.bases }

end Environment

/-- The shapes of a node as a JSON value. Issues are left out if there are none. -/
def NodeShapes.toJson (shapes : NodeShapes) : Json :=
  .object <| [("input", shapes.input.toJson), ("output", shapes.output.toJson)] ++
    if shapes.issues.isEmpty then [] else [("issues", .array (shapes.issues.map Issue.toJson))]

/-- The result of a propagation as a JSON value, without what the nodes were computed from. -/
def Propagation.toJson (result : Propagation) : Json := .object [
  ("nodes", .object (Keyed.mapValues NodeShapes.toJson result.nodes)),
  ("dirty", .array (result.dirty.map .text)),
  ("recomputed", .array (result.recomputed.map .text)),
  ("issues", .array (result.issues.map Issue.toJson))]

end DecisionGraph
