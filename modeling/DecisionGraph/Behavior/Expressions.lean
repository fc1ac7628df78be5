import DecisionGraph.Behavior.Routing

/-!
# Expression nodes

A list of rows, each an expression and the key of its result. The rows are worked out in order; the
results of the rows before a row are found under `$`.
-/

namespace DecisionGraph

namespace ExpressionRow

/-- Rows are known by their id, or else by their key. -/
def label (row : ExpressionRow) : Label := .of row.id (row.key.map Text.trim)

def compare (previous current : ExpressionRow) : FieldChanges :=
  changedFields [
    ("key", FieldChange.ofTexts? previous.key current.key),
    ("value", FieldChange.ofTexts? previous.value current.value)]

def rule : RowRule ExpressionRow := ⟨label, toJson, compare⟩

/-- The key and the expression of a row that has both. -/
def parts? (row : ExpressionRow) : Option (String × String) := do
  let key ← Text.trimmed? row.key
  let value ← Text.trimmed? row.value
  return (key, value)

/-- The shape that the rows determine, given what they see and what has been determined before. -/
def inferAll (node : String) : List ExpressionRow → Shape → Shape → Shape × List Issue
  | [], _, determined => (determined, [])
  | row :: rest, working, determined =>
    match row.parts? with
    | none => inferAll node rest working determined
    | some (key, source) =>
      let (shape, issues) := typeOrReport node working source
      let (result, more) :=
        inferAll node rest (working.set ("$." ++ key) shape) (determined.set key shape)
      (result, issues ++ more)

end ExpressionRow

namespace ExpressionContent

def compare (previous current : ExpressionContent) : ComparedContent :=
  ComparedContent.of (previous.routing.compared current.routing)
    [("expressions", ExpressionRow.rule.rows previous.expressions current.expressions)]

def infer (content : ExpressionContent) (node : String) (input : Shape) : Inferred :=
  let (working, issues) := content.routing.workingInput node input
  let (determined, more) := ExpressionRow.inferAll node content.expressions working .empty
  ⟨content.routing.workingOutput input determined, issues ++ more⟩

end ExpressionContent

def Behavior.expression : Behavior where
  kind := Kind.expression.tag
  compare previous current := do
    let (before, after) ← decodeBoth Kind.expression.tag ExpressionContent.decode previous current
    return before.compare after
  infer node input _ := do
    let content ← decodeContent Kind.expression.tag ExpressionContent.decode node.content
    return content.infer node.id input
  defaultContent := .object [("expressions", .array [])]

end DecisionGraph
