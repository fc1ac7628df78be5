import DecisionGraph.Json.Basic
import DecisionGraph.Shape.Depth
import DecisionGraph.Shape.Merge

/-!
# The shape of a sample value

`Shape.ofSample` describes a concrete value. The items of an array are merged into one shape, so
objects with different keys become one object with all of them.
-/

namespace DecisionGraph.Shape

mutual

/-- The shape of a value, down to `room` levels. -/
def sample (room : Nat) : Json → Shape
  | .null => if room = 0 then .any else .null
  | .boolean _ => if room = 0 then .any else .boolean
  | .number _ => if room = 0 then .any else .number
  | .text _ => if room = 0 then .any else .text
  | .array items =>
    if room = 0 then .any else .array ((mergeAll? (sampleItems (room - 1) items)).getD .any)
  | .object members =>
    if room = 0 then .any else .object (Keyed.ofList (sampleMembers (room - 1) members))

def sampleItems (room : Nat) : List Json → List Shape
  | [] => []
  | item :: rest => sample room item :: sampleItems room rest

def sampleMembers (room : Nat) : List (String × Json) → List (String × Shape)
  | [] => []
  | (name, value) :: rest => (name, sample room value) :: sampleMembers room rest

end

/-- The shape of a sample value. -/
def ofSample (value : Json) : Shape := sample maxDepth value

end DecisionGraph.Shape
