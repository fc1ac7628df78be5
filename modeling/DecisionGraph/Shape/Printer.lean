import DecisionGraph.Shape.Basic

/-!
# The text of a shape

Shapes are written the way type annotations are: `number`, `string[]`, `{ id: number; tags:
string[] }` and `number | null`.
-/

namespace DecisionGraph

def Scalar.print : Scalar → String
  | .null => "null"
  | .boolean => "boolean"
  | .number => "number"
  | .text => "string"
  | .date => "date"

namespace Shape

/-- Whether a shape is a union, which needs parentheses in front of brackets. -/
def isUnion : Shape → Bool
  | .union _ => true
  | _ => false

mutual

def print : Shape → String
  | .any => "any"
  | .scalar kind => kind.print
  | .array item => if item.isUnion then "(" ++ print item ++ ")[]" else print item ++ "[]"
  | .object [] => "\x7b\x7d"
  | .object fields => "\x7b " ++ printFields fields ++ " \x7d"
  | .union members => printMembers members

def printFields : List (String × Shape) → String
  | [] => ""
  | [(name, shape)] => name ++ ": " ++ print shape
  | (name, shape) :: rest => name ++ ": " ++ print shape ++ "; " ++ printFields rest

def printMembers : List Shape → String
  | [] => ""
  | [member] => print member
  | member :: rest => print member ++ " | " ++ printMembers rest

end

end Shape

end DecisionGraph
