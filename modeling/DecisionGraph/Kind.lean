/-!
# The kinds of nodes

Each known kind has a tag, which a node's `type` holds, and some shorter names for it.
-/

namespace DecisionGraph

inductive Kind
  | input
  | output
  | expression
  | decisionTable
  | switch
  | function
  | decision
  | custom
deriving DecidableEq

namespace Kind

def all : List Kind :=
  [.input, .output, .expression, .decisionTable, .switch, .function, .decision, .custom]

def tag : Kind → String
  | .input => "inputNode"
  | .output => "outputNode"
  | .expression => "expressionNode"
  | .decisionTable => "decisionTableNode"
  | .switch => "switchNode"
  | .function => "functionNode"
  | .decision => "decisionNode"
  | .custom => "customNode"

def aliases : Kind → List String
  | .input => ["input", "request"]
  | .output => ["output", "response"]
  | .expression => ["expression", "expr"]
  | .decisionTable => ["decisionTable", "table"]
  | .switch => ["switch"]
  | .function => ["function"]
  | .decision => ["decision"]
  | .custom => ["custom"]

/-- All names of a kind, the tag first. -/
def names (kind : Kind) : List String := kind.tag :: kind.aliases

def ofName? (name : String) : Option Kind := all.find? fun kind => name ∈ kind.names

end Kind

end DecisionGraph
