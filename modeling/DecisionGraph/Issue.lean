import DecisionGraph.Json.Basic

/-!
# Issues

A problem that does not stop a comparison or a propagation: the node, the expression or the cycle it
is about is treated as unknown, and the issue is reported beside the result. Issues are reported in
the order of `Issue.key`, each once.
-/

namespace DecisionGraph

/-- A recoverable problem with a graph. -/
inductive Issue
  | malformedContent (node kind message : String)
  | unknownKind (node kind : String)
  | cyclicDependency (nodes : List String)
  | invalidExpression (node expression message : String)
deriving DecidableEq

namespace Issue

def nodes : Issue → List String
  | .malformedContent node _ _ => [node]
  | .unknownKind node _ => [node]
  | .cyclicDependency nodes => nodes
  | .invalidExpression node _ _ => [node]

def isCycle : Issue → Bool
  | .cyclicDependency _ => true
  | _ => false

def message : Issue → String
  | .malformedContent node kind message =>
    "Node '" ++ node ++ "' has content that does not match its '" ++ kind ++ "' kind: " ++ message
  | .unknownKind node kind => "Node '" ++ node ++ "' has an unregistered kind '" ++ kind ++ "'"
  | .cyclicDependency nodes =>
    "Nodes [" ++ ", ".intercalate nodes ++ "] form a cyclic dependency"
  | .invalidExpression node expression message =>
    "Expression '" ++ expression ++ "' in node '" ++ node ++ "' is invalid: " ++ message

/-- What issues are sorted by: the form of the issue, then its parts. -/
def key : Issue → Nat × List String
  | .malformedContent node kind message => (0, [node, kind, message])
  | .unknownKind node kind => (1, [node, kind])
  | .cyclicDependency nodes => (2, nodes)
  | .invalidExpression node expression message => (3, [node, expression, message])

def compare (a b : Issue) : Ordering :=
  (Ord.compare a.key.1 b.key.1).then (Ord.compare a.key.2 b.key.2)

/-- Adds an issue to a list in order, unless it is there already. -/
def insert (issue : Issue) : List Issue → List Issue
  | [] => [issue]
  | other :: rest =>
    match compare issue other with
    | .lt => issue :: other :: rest
    | .eq => other :: rest
    | .gt => other :: insert issue rest

/-- The distinct issues of a list in order. -/
def report (issues : List Issue) : List Issue :=
  issues.foldl (fun reported issue => insert issue reported) []

def toJson : Issue → Json
  | .malformedContent node kind message => .object [
    ("issue", .text "malformedContent"), ("nodeId", .text node), ("kind", .text kind),
    ("message", .text message)]
  | .unknownKind node kind => .object [
    ("issue", .text "unknownKind"), ("nodeId", .text node), ("kind", .text kind)]
  | .cyclicDependency nodes => .object [
    ("issue", .text "cyclicDependency"), ("nodeIds", .array (nodes.map .text))]
  | .invalidExpression node expression message => .object [
    ("issue", .text "invalidExpression"), ("nodeId", .text node), ("expression", .text expression),
    ("message", .text message)]

end Issue

end DecisionGraph
