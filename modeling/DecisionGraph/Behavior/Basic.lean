import DecisionGraph.Content.Views
import DecisionGraph.Diff.Compare
import DecisionGraph.Expression.Typing
import DecisionGraph.Graph.Basic
import DecisionGraph.Issue
import DecisionGraph.Kind

/-!
# What a kind of node contributes

A `Behavior` says of the nodes of one kind how two contents are compared, what shape comes
out for the shape that goes in, and when a result that was kept has to be worked out again.
-/

namespace DecisionGraph

/-- The output shape of a node and the problems met on the way to it. -/
structure Inferred where
  output : Shape
  issues : List Issue

/-- An output without problems. -/
def Inferred.of (output : Shape) : Inferred := ⟨output, []⟩

/-- What the output shape of a node was worked out from. -/
structure NodeBasis where
  kind : String
  input : Shape
  content : Json
  /-- The shape of the data from outside, for kinds that read it. -/
  external : Option Shape

/-- Whether two bases are equal, contents by deep equality. -/
def NodeBasis.same (a b : NodeBasis) : Bool :=
  a.kind == b.kind && a.input == b.input && a.content.same b.content && a.external == b.external

/-- What a kind of node contributes to comparison and propagation. -/
structure Behavior where
  /-- The tag that the kind is registered under. -/
  kind : String
  compare : Node → Node → Except ContentMismatch ComparedContent
  /-- The output of a node for an input shape and the shape of the data from outside. -/
  infer : Node → Shape → Option Shape → Except ContentMismatch Inferred
  /-- Whether a node has to be worked out again, given its previous and its current basis. -/
  isStale : NodeBasis → NodeBasis → Bool := fun previous current => !previous.same current
  /-- Whether the output depends on the data from outside. -/
  readsExternal : Bool := false
  defaultContent : Json

def decodeBoth {α : Type} (kind : String) (decode : Decoder α) (previous current : Node) :
    Except ContentMismatch (α × α) := do
  let before ← decodeContent kind decode previous.content
  let after ← decodeContent kind decode current.content
  return (before, after)

/-- The shape of a written expression for an input, `any` with an issue if it has none. -/
def typeOrReport (node : String) (input : Shape) (source : String) : Shape × List Issue :=
  match typeOf input source with
  | .ok shape => (shape, [])
  | .error error => (.any, [.invalidExpression node source error.message])

end DecisionGraph
