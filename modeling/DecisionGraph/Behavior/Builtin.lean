import DecisionGraph.Shape.Schema
import DecisionGraph.Behavior.Expressions
import DecisionGraph.Behavior.Tables

/-!
# The behaviors of the known kinds

Input nodes put out the data from outside or what their schema describes; output nodes, switches and
custom nodes pass their input on; nothing is known about what functions and other decisions put out.
`Behavior.unregistered` stands in for kinds that nobody knows.
-/

namespace DecisionGraph

/-- Compares the schemas of two input or output nodes. -/
def compareSchemas (kind : String) (previous current : Node) :
    Except ContentMismatch ComparedContent := do
  let (before, after) ← decodeBoth kind SchemaContent.decode previous current
  return ComparedContent.of [("schema", FieldChange.ofTexts? before.schema after.schema)] []

namespace SwitchStatement

/-- Branches are known by their id, or else by their condition. -/
def label (statement : SwitchStatement) : Label :=
  .of (some statement.id) (statement.condition.map Text.trim)

def compare (previous current : SwitchStatement) : FieldChanges :=
  changedFields [("condition", FieldChange.ofTexts? previous.condition current.condition)]

def rule : RowRule SwitchStatement := ⟨label, toJson, compare⟩

end SwitchStatement

def SwitchContent.compare (previous current : SwitchContent) : ComparedContent :=
  let policy (content : SwitchContent) := some (HitPolicy.tagOrDefault content.hitPolicy)
  ComparedContent.of [("hitPolicy", FieldChange.ofTexts? (policy previous) (policy current))]
    [("statements", SwitchStatement.rule.rows previous.statements current.statements)]

namespace Behavior

/-- What input nodes contribute. The data from outside counts before the schema. -/
def input : Behavior where
  kind := Kind.input.tag
  compare := compareSchemas Kind.input.tag
  infer node input external :=
    match external with
    | some shape => .ok (.of shape)
    | none => do
      let content ← decodeContent Kind.input.tag SchemaContent.decode node.content
      match content.document? with
      | some document => return .of (.ofSchema document)
      | none => return .of input
  readsExternal := true
  defaultContent := .object []

def output : Behavior where
  kind := Kind.output.tag
  compare := compareSchemas Kind.output.tag
  infer _ input _ := .ok (.of input)
  defaultContent := .object []

def switch : Behavior where
  kind := Kind.switch.tag
  compare previous current := do
    let (before, after) ← decodeBoth Kind.switch.tag SwitchContent.decode previous current
    return before.compare after
  infer _ input _ := .ok (.of input)
  defaultContent := .object [("hitPolicy", .text "first"), ("statements", .array [])]

def function : Behavior where
  kind := Kind.function.tag
  compare previous current := do
    let (before, after) ← decodeBoth Kind.function.tag FunctionContent.decode previous current
    let source := FieldChange.ofTexts? (some before.source) (some after.source)
    return ComparedContent.of [("source", source)] []
  infer node _ _ := do
    let _ ← decodeContent Kind.function.tag FunctionContent.decode node.content
    return .of .any
  defaultContent := .object [("source", .text "")]

/-- What calls of other decisions contribute. Only input that passes through is known. -/
def decision : Behavior where
  kind := Kind.decision.tag
  compare previous current := do
    let (before, after) ← decodeBoth Kind.decision.tag DecisionContent.decode previous current
    let key := FieldChange.ofTexts? before.key after.key
    return ComparedContent.of (("key", key) :: before.routing.compared after.routing) []
  infer node input _ := do
    let content ← decodeContent Kind.decision.tag DecisionContent.decode node.content
    return .of (if content.routing.passesThrough then input else .any)
  defaultContent := .object [("key", .text "")]

def custom : Behavior where
  kind := Kind.custom.tag
  compare previous current := do
    let (before, after) ← decodeBoth Kind.custom.tag CustomContent.decode previous current
    return ComparedContent.of
      [("kind", FieldChange.ofTexts? before.kind after.kind),
        ("config", FieldChange.ofValues? (before.config.getD .null) (after.config.getD .null))] []
  infer _ input _ := .ok (.of input)
  defaultContent := .object [("config", .object [])]

/-- The whole contents of two nodes, compared by deep equality. -/
def compareWhole (previous current : Node) : ComparedContent :=
  ComparedContent.of [("content", FieldChange.ofValues? previous.content current.content)] []

def unregistered : Behavior where
  kind := "opaque"
  compare previous current := .ok (compareWhole previous current)
  infer _ _ _ := .ok (.of .any)
  defaultContent := .null

def ofKind : Kind → Behavior
  | .input => input
  | .output => output
  | .expression => expression
  | .decisionTable => decisionTable
  | .switch => switch
  | .function => function
  | .decision => decision
  | .custom => custom

end Behavior

end DecisionGraph
