import DecisionGraph.Json.Basic
import DecisionGraph.Shape.Basic

/-!
# Shapes as JSON

`"Any"` for the shape that says nothing, and an object with one member that names the form for every
other shape.
-/

namespace DecisionGraph

def Scalar.tag : Scalar → String
  | .null => "Null"
  | .boolean => "Bool"
  | .number => "Number"
  | .text => "String"
  | .date => "Date"

def Scalar.ofTag? (tag : String) : Option Scalar :=
  [Scalar.null, .boolean, .number, .text, .date].find? fun kind => kind.tag = tag

namespace Shape

mutual

def toJson : Shape → Json
  | .any => .text "Any"
  | .scalar kind => .object [("Primitive", .text kind.tag)]
  | .array item => .object [("Array", toJson item)]
  | .object fields => .object [("Object", .object (fieldsToJson fields))]
  | .union members => .object [("Union", .array (membersToJson members))]

def fieldsToJson : List (String × Shape) → List (String × Json)
  | [] => []
  | (name, shape) :: rest => (name, toJson shape) :: fieldsToJson rest

def membersToJson : List Shape → List Json
  | [] => []
  | member :: rest => toJson member :: membersToJson rest

end

mutual

/-- The shape that a JSON value stands for. The members of a union are put in order, and nothing
else is done to them. -/
def ofJson? : Json → Option Shape
  | .text name => if name = "Any" then some .any else none
  | .object [(form, value)] =>
    if form = "Primitive" then (value.text?.bind Scalar.ofTag?).map .scalar
    else if form = "Array" then (ofJson? value).map .array
    else match form, value with
      | "Object", .object members =>
        (fieldsOfJson? members).map fun fields => .object (Keyed.ofList fields)
      | "Union", .array items => (membersOfJson? items).map fun members => .union (setOf members)
      | _, _ => none
  | _ => none

/-- The fields that the members of an object stand for. -/
def fieldsOfJson? : List (String × Json) → Option (List (String × Shape))
  | [] => some []
  | (name, value) :: rest =>
    match ofJson? value, fieldsOfJson? rest with
    | some shape, some fields => some ((name, shape) :: fields)
    | _, _ => none

/-- The members that the items of an array stand for. -/
def membersOfJson? : List Json → Option (List Shape)
  | [] => some []
  | value :: rest =>
    match ofJson? value, membersOfJson? rest with
    | some shape, some members => some (shape :: members)
    | _, _ => none

end

end Shape

end DecisionGraph
