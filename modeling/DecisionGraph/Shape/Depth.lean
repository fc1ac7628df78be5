import DecisionGraph.Shape.Basic

/-!
# How deep a shape is nested

Arrays and objects nest; the members of a union stand at the depth of the union itself.
`Shape.truncate` cuts a shape off at a depth by forgetting what lies deeper.
-/

namespace DecisionGraph.Shape

/-- Shapes made from documents and passed along a graph are not nested deeper than this. -/
def maxDepth : Nat := 64

mutual

/-- The number of arrays and objects around the innermost part. -/
def depth : Shape → Nat
  | .array item => 1 + depth item
  | .object fields => 1 + depthOfFields fields
  | .union members => depthOfMembers members
  | _ => 0

/-- The depth of the deepest field. -/
def depthOfFields : List (String × Shape) → Nat
  | [] => 0
  | (_, shape) :: rest => max (depth shape) (depthOfFields rest)

/-- The depth of the deepest member. -/
def depthOfMembers : List Shape → Nat
  | [] => 0
  | member :: rest => max (depth member) (depthOfMembers rest)

end

mutual

/-- The shape with everything nested deeper than `limit` replaced by `any`. -/
def truncate (limit : Nat) : Shape → Shape
  | .array item => if limit = 0 then .any else .array (truncate (limit - 1) item)
  | .object fields => if limit = 0 then .any else .object (truncateFields (limit - 1) fields)
  | .union members => if limit = 0 then .any else oneOf (truncateMembers limit members)
  | shape => if limit = 0 then .any else shape

def truncateFields (limit : Nat) : List (String × Shape) → List (String × Shape)
  | [] => []
  | (name, shape) :: rest => (name, truncate limit shape) :: truncateFields limit rest

def truncateMembers (limit : Nat) : List Shape → List Shape
  | [] => []
  | member :: rest => truncate limit member :: truncateMembers limit rest

end

end DecisionGraph.Shape
