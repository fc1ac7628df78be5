import DecisionGraph.Content.Decode
import DecisionGraph.Json.Written

/-!
# What nodes of the known kinds hold

A node's content is free-form JSON; here are the typed views of it. Editors save content that is
filled in only in part, so nearly every member may be missing or `null`, and `null` content is
read as an empty object. Each view has a reader `decode` and a writer `toJson`, whose output has
all members, in the order of their names and with `null` for those that are not set.
-/

namespace DecisionGraph

/-- Content that does not fit the kind of its node. -/
structure ContentMismatch where
  /-- The kind that the content should have fit. -/
  kind : String
  mismatch : Mismatch

def ContentMismatch.message (error : ContentMismatch) : String :=
  "Content does not match the '" ++ error.kind ++ "' schema: " ++ error.mismatch.message

/-- Reads content of a kind. -/
def decodeContent {α : Type} (kind : String) (decode : Decoder α) (content : Json) :
    Except ContentMismatch α :=
  let content := match content with
    | .null => .object []
    | other => other
  (decode content).mapError (⟨kind, ·⟩)

/-! ## Choices -/

/-- Whether a node works on its input as a whole or on each of its items. -/
inductive ExecutionMode
  | single
  | loop
deriving DecidableEq

namespace ExecutionMode

def tag : ExecutionMode → String
  | .single => "single"
  | .loop => "loop"

def decode : Decoder ExecutionMode := Decode.choice true ("single", .single) ("loop", .loop)

end ExecutionMode

/-- Whether the first rule that hits decides or all results are collected. -/
inductive HitPolicy
  | first
  | collect
deriving DecidableEq

namespace HitPolicy

def tag : HitPolicy → String
  | .first => "first"
  | .collect => "collect"

def decode : Decoder HitPolicy := Decode.choice false ("first", .first) ("collect", .collect)

/-- The name of the policy that holds when none or the given one is set. -/
def tagOrDefault (policy : Option HitPolicy) : String := (policy.getD .first).tag

end HitPolicy

/-! ## Mapping options -/

/-- How a node selects its input and where it puts its output. -/
structure Routing where
  inputField : Option String
  outputPath : Option String
  passThrough : Option Bool
  executionMode : Option ExecutionMode
deriving DecidableEq

namespace Routing

/-- Reads the options from the members of a node's content. -/
def decode (members : Keyed Json) : Except Mismatch Routing := do
  let mode := Decode.optional ExecutionMode.decode
  let text := Decode.optional Decode.text
  let executionMode ← Decode.member members "executionMode" none mode
  let inputField ← Decode.member members "inputField" none text
  let outputPath ← Decode.member members "outputPath" none text
  let passThrough ← Decode.member members "passThrough" none (Decode.optional Decode.flag)
  return { inputField, outputPath, passThrough, executionMode }

/-- The options as members of a node's content. -/
def toMembers (options : Routing) : List (String × Json) := [
  ("executionMode", Json.ofText? (options.executionMode.map ExecutionMode.tag)),
  ("inputField", Json.ofText? options.inputField),
  ("outputPath", Json.ofText? options.outputPath),
  ("passThrough", Json.ofBoolean? options.passThrough)]

/-- The expression that selects the input, if there is one. -/
def selection? (options : Routing) : Option String := Text.trimmed? options.inputField

/-- The path that the output is put under, if there is one. -/
def target? (options : Routing) : Option String := Text.trimmed? options.outputPath

/-- Whether the input is part of the output. -/
def passesThrough (options : Routing) : Bool := options.passThrough.getD false

/-- Whether the node works on each item of its input. -/
def loops (options : Routing) : Bool := options.executionMode == some .loop

end Routing

/-! ## Expressions -/

/-- A row of an expression node: an expression and the key of its result. -/
structure ExpressionRow where
  id : Option String
  key : Option String
  value : Option String
deriving DecidableEq

namespace ExpressionRow

def decode : Decoder ExpressionRow :=
  let text := Decode.optional Decode.text
  Decode.record "ExpressionRow" 3
    (fun members => do
      let id ← Decode.member members "id" none text
      let key ← Decode.member members "key" none text
      let value ← Decode.member members "value" none text
      return { id, key, value })
    (fun items => do
      let id ← Decode.item items 0 none text
      let key ← Decode.item items 1 none text
      let value ← Decode.item items 2 none text
      return { id, key, value })

def toJson (row : ExpressionRow) : Json := .object [
  ("id", Json.ofText? row.id), ("key", Json.ofText? row.key), ("value", Json.ofText? row.value)]

end ExpressionRow

structure ExpressionContent where
  expressions : List ExpressionRow
  routing : Routing
deriving DecidableEq

namespace ExpressionContent

def decode : Decoder ExpressionContent :=
  Decode.objectRecord "ExpressionContent" fun members => do
    let expressions ← Decode.member members "expressions" [] (Decode.list ExpressionRow.decode)
    let routing ← Routing.decode members
    return { expressions, routing }

def toJson (content : ExpressionContent) : Json :=
  let rows := content.expressions.map ExpressionRow.toJson
  .object (Keyed.ofList (("expressions", .array rows) :: content.routing.toMembers))

end ExpressionContent

/-! ## Decision tables -/

structure TableColumn where
  id : String
  name : Option String
  field : Option String
deriving DecidableEq

namespace TableColumn

/-- Reads a column, which has to have an id. -/
def decode : Decoder TableColumn :=
  let text := Decode.optional Decode.text
  Decode.record "TableColumn" 3
    (fun members => do
      let field ← Decode.member members "field" none text
      let id ← Decode.member members "id" none fun value => (Decode.text value).map some
      let name ← Decode.member members "name" none text
      match id with
      | some id => return { id, name, field }
      | none => .error (.missingField "id"))
    (fun items => do
      match items with
      | [] => .error (.tooShort 0 "TableColumn" 3)
      | first :: _ =>
        let id ← Decode.text first
        let name ← Decode.item items 1 none text
        let field ← Decode.item items 2 none text
        return { id, name, field })

def toJson (column : TableColumn) : Json := .object [
  ("field", Json.ofText? column.field), ("id", .text column.id), ("name", Json.ofText? column.name)]

end TableColumn

/-- A rule of a decision table: cells under the ids of their columns. -/
abbrev Rule := Keyed Json

/-- The name that a rule's own id stands under, beside its cells. -/
def Rule.idKey : String := "_id"

/-- The text of a rule's cell under a column, if it is not blank. -/
def Rule.cell? (rule : Rule) (column : String) : Option String :=
  Text.trimmed? ((Keyed.get? column rule).bind Json.text?)

structure DecisionTableContent where
  hitPolicy : Option HitPolicy
  inputs : List TableColumn
  outputs : List TableColumn
  rules : List Rule
  routing : Routing

namespace DecisionTableContent

def decode : Decoder DecisionTableContent :=
  Decode.objectRecord "DecisionTableContent" fun members => do
    let hitPolicy ← Decode.member members "hitPolicy" none (Decode.optional HitPolicy.decode)
    let inputs ← Decode.member members "inputs" [] (Decode.list TableColumn.decode)
    let outputs ← Decode.member members "outputs" [] (Decode.list TableColumn.decode)
    let rules ← Decode.member members "rules" [] (Decode.list Decode.map)
    let routing ← Routing.decode members
    return { hitPolicy, inputs, outputs, rules, routing }

def toJson (content : DecisionTableContent) : Json :=
  .object <| Keyed.ofList <| [
    ("hitPolicy", Json.ofText? (content.hitPolicy.map HitPolicy.tag)),
    ("inputs", .array (content.inputs.map TableColumn.toJson)),
    ("outputs", .array (content.outputs.map TableColumn.toJson)),
    ("rules", .array (content.rules.map Json.object))] ++ content.routing.toMembers

end DecisionTableContent

/-! ## Switches -/

structure SwitchStatement where
  id : String
  condition : Option String
deriving DecidableEq

namespace SwitchStatement

/-- Reads a branch, which has to have an id. -/
def decode : Decoder SwitchStatement :=
  let text := Decode.optional Decode.text
  Decode.record "SwitchStatement" 2
    (fun members => do
      let condition ← Decode.member members "condition" none text
      let id ← Decode.member members "id" none fun value => (Decode.text value).map some
      match id with
      | some id => return { id, condition }
      | none => .error (.missingField "id"))
    (fun items => do
      match items with
      | [] => .error (.tooShort 0 "SwitchStatement" 2)
      | first :: _ =>
        let id ← Decode.text first
        let condition ← Decode.item items 1 none text
        return { id, condition })

def toJson (statement : SwitchStatement) : Json := .object [
  ("condition", Json.ofText? statement.condition), ("id", .text statement.id)]

end SwitchStatement

structure SwitchContent where
  hitPolicy : Option HitPolicy
  statements : List SwitchStatement
deriving DecidableEq

namespace SwitchContent

def decode : Decoder SwitchContent :=
  let policy := Decode.optional HitPolicy.decode
  let statements := Decode.list SwitchStatement.decode
  Decode.record "SwitchContent" 2
    (fun members => do
      let hitPolicy ← Decode.member members "hitPolicy" none policy
      let statements ← Decode.member members "statements" [] statements
      return { hitPolicy, statements })
    (fun items => do
      let hitPolicy ← Decode.item items 0 none policy
      let statements ← Decode.item items 1 [] statements
      return { hitPolicy, statements })

def toJson (content : SwitchContent) : Json := .object [
  ("hitPolicy", Json.ofText? (content.hitPolicy.map HitPolicy.tag)),
  ("statements", .array (content.statements.map SwitchStatement.toJson))]

end SwitchContent

/-! ## Functions, decisions, schemas and custom nodes -/

/-- The content of a function node: its source, bare or as a member of an object. -/
inductive FunctionContent
  | bare (source : String)
  | wrapped (source : String)
deriving DecidableEq

namespace FunctionContent

def decode : Decoder FunctionContent
  | .text source => .ok (.bare source)
  | .object members =>
    match Keyed.get? "source" members with
    | none => .ok (.wrapped "")
    | some (.text source) => .ok (.wrapped source)
    | some _ => .error .noForm
  | _ => .error .noForm

def toJson : FunctionContent → Json
  | .bare source => .text source
  | .wrapped source => .object [("source", .text source)]

def source : FunctionContent → String
  | .bare source => source
  | .wrapped source => source

end FunctionContent

/-- The content of a decision node, which calls another decision. -/
structure DecisionContent where
  key : Option String
  routing : Routing
deriving DecidableEq

namespace DecisionContent

def decode : Decoder DecisionContent :=
  Decode.objectRecord "DecisionContent" fun members => do
    let key ← Decode.member members "key" none (Decode.optional Decode.text)
    let routing ← Routing.decode members
    return { key, routing }

def toJson (content : DecisionContent) : Json :=
  .object <| Keyed.ofList <| ("key", Json.ofText? content.key) :: content.routing.toMembers

end DecisionContent

structure SchemaContent where
  schema : Option String
deriving DecidableEq

namespace SchemaContent

def decode : Decoder SchemaContent :=
  let text := Decode.optional Decode.text
  Decode.record "SchemaContent" 1
    (fun members => return { schema := ← Decode.member members "schema" none text })
    (fun items => return { schema := ← Decode.item items 0 none text })

def toJson (content : SchemaContent) : Json := .object [("schema", Json.ofText? content.schema)]

/-- The schema, if there is one and it is valid JSON. -/
def document? (content : SchemaContent) : Option Json :=
  (Text.trimmed? content.schema).bind Json.parse?

end SchemaContent

/-- The content of a custom node: the kind of its component and a configuration of any form. -/
structure CustomContent where
  kind : Option String
  config : Option Json

namespace CustomContent

def decode : Decoder CustomContent :=
  let kind := Decode.optional Decode.text
  let config := Decode.optional Decode.anything
  Decode.record "CustomContent" 2
    (fun members => do
      let config ← Decode.member members "config" none config
      let kind ← Decode.member members "kind" none kind
      return { kind, config })
    (fun items => do
      let kind ← Decode.item items 0 none kind
      let config ← Decode.item items 1 none config
      return { kind, config })

def toJson (content : CustomContent) : Json := .object [
  ("config", content.config.getD .null), ("kind", Json.ofText? content.kind)]

end CustomContent

end DecisionGraph
