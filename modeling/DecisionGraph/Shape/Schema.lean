import DecisionGraph.Json.Basic
import DecisionGraph.Shape.Depth

/-!
# The shape that a JSON Schema describes

`anyOf`, `oneOf`, `type`, `properties`, `items` and the date formats are understood; nothing is
known about values described by other means.
-/

namespace DecisionGraph.Shape

/-- The shape that a type name stands for in a schema with the given members. `describe` gives the
shape of a schema inside it. -/
def ofTypeName (describe : Json → Shape) (schema : Keyed Json) (name : String) : Shape :=
  if name = "object" then
    .object <| Keyed.ofList <| Keyed.mapValues describe <|
      ((Keyed.get? "properties" schema).bind Json.members?).getD []
  else if name = "array" then .array (((Keyed.get? "items" schema).map describe).getD .any)
  else if name = "string" then
    match (Keyed.get? "format" schema).bind Json.text? with
    | some format => if format = "date" ∨ format = "date-time" then .date else .text
    | none => .text
  else if name = "number" ∨ name = "integer" then .number
  else if name = "boolean" then .boolean
  else if name = "null" then .null
  else .any

/-- The schemas of which one holds, if the members list them. -/
def variants? (schema : Keyed Json) : Option (List Json) :=
  ((Keyed.get? "anyOf" schema).bind Json.items?).or ((Keyed.get? "oneOf" schema).bind Json.items?)

/-- The shape of the values that a schema describes, down to `room` levels. Alternatives count
before a type; without a type, properties make an object and items an array. -/
def schema : Nat → Json → Shape
  | 0, _ => .any
  | room + 1, document =>
    match document.members? with
    | none => .any
    | some members =>
      match variants? members, Keyed.get? "type" members with
      | some variants, _ => oneOf (variants.map (schema room))
      | none, some (.text name) => ofTypeName (schema room) members name
      | none, some (.array names) =>
        oneOf ((names.filterMap Json.text?).map (ofTypeName (schema room) members))
      | none, _ =>
        if Keyed.contains "properties" members then ofTypeName (schema room) members "object"
        else if Keyed.contains "items" members then ofTypeName (schema room) members "array"
        else .any

/-- The shape of the values that a schema describes. -/
def ofSchema (document : Json) : Shape := schema maxDepth document

end DecisionGraph.Shape
