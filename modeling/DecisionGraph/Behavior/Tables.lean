import DecisionGraph.Json.Printer
import DecisionGraph.Behavior.Routing

/-!
# Decision table nodes

Every output column contributes one of the shapes of its cells, at the field of the column. Rules
are known by their id, or else by all their cells together.
-/

namespace DecisionGraph

namespace TableColumn

/-- Columns are known by their id, or else by their field. -/
def label (column : TableColumn) : Label := .of (some column.id) (column.field.map Text.trim)

def compare (previous current : TableColumn) : FieldChanges :=
  changedFields [
    ("name", FieldChange.ofTexts? previous.name current.name),
    ("field", FieldChange.ofTexts? previous.field current.field)]

def rule : RowRule TableColumn := ⟨label, toJson, compare⟩

end TableColumn

namespace Rule

/-- The cells of a rule, without its id. -/
def cells (rule : Rule) : Keyed Json := Keyed.erase idKey rule

/-- Rules are known by their id, or else by the text of their cells. -/
def label (rule : Rule) : Label :=
  .of ((Keyed.get? idKey rule).bind Json.text?) (some (Json.object rule.cells).compact)

/-- Whether a cell holds text or nothing at all. -/
def isTextual : Option Json → Bool
  | none => true
  | some (.text _) => true
  | some _ => false

/-- Compares two cells: as texts if neither holds anything else, and by deep equality otherwise. -/
def compareCells (previous current : Option Json) : Option FieldChange :=
  if isTextual previous && isTextual current then
    FieldChange.ofTexts? (previous.bind Json.text?) (current.bind Json.text?)
  else FieldChange.ofValues? (previous.getD .null) (current.getD .null)

/-- The changes between two rules, cell by cell. -/
def compare (previous current : Rule) : FieldChanges :=
  let columns := sortedDistinct (Keyed.names previous.cells ++ Keyed.names current.cells)
  changedFields <| columns.map fun column =>
    (column, compareCells (Keyed.get? column previous) (Keyed.get? column current))

def rowRule : RowRule Rule := ⟨label, Json.object, compare⟩

end Rule

namespace DecisionTableContent

def compare (previous current : DecisionTableContent) : ComparedContent :=
  let policy (content : DecisionTableContent) := some (HitPolicy.tagOrDefault content.hitPolicy)
  ComparedContent.of
    (("hitPolicy", FieldChange.ofTexts? (policy previous) (policy current)) ::
      previous.routing.compared current.routing)
    [("inputs", TableColumn.rule.rows previous.inputs current.inputs),
      ("outputs", TableColumn.rule.rows previous.outputs current.outputs),
      ("rules", Rule.rowRule.rows previous.rules current.rules)]

/-- The shape of a column: one of the shapes of its cells. -/
def inferColumn (node : String) (working : Shape) (rules : List Rule) (column : String) :
    Shape × List Issue :=
  let cells := (rules.filterMap fun rule => rule.cell? column).map (typeOrReport node working)
  (.oneOf (cells.map (·.1)), cells.flatMap (·.2))

/-- The shape that the output columns determine, given what has been determined before. -/
def inferColumns (node : String) (working : Shape) (rules : List Rule) :
    List TableColumn → Shape → Shape × List Issue
  | [], determined => (determined, [])
  | column :: rest, determined =>
    match Text.trimmed? column.field with
    | none => inferColumns node working rules rest determined
    | some field =>
      let (shape, issues) := inferColumn node working rules column.id
      let (result, more) := inferColumns node working rules rest (determined.set field shape)
      (result, issues ++ more)

def infer (content : DecisionTableContent) (node : String) (input : Shape) : Inferred :=
  let (working, issues) := content.routing.workingInput node input
  let (determined, more) := inferColumns node working content.rules content.outputs .empty
  let result := if content.hitPolicy = some .collect then .array determined else determined
  ⟨content.routing.workingOutput input result, issues ++ more⟩

end DecisionTableContent

def Behavior.decisionTable : Behavior where
  kind := Kind.decisionTable.tag
  compare previous current := do
    let (before, after) ←
      decodeBoth Kind.decisionTable.tag DecisionTableContent.decode previous current
    return before.compare after
  infer node input _ := do
    let content ← decodeContent Kind.decisionTable.tag DecisionTableContent.decode node.content
    return content.infer node.id input
  defaultContent := .object [
    ("hitPolicy", .text "first"), ("inputs", .array []), ("outputs", .array []),
    ("rules", .array [])]

end DecisionGraph
