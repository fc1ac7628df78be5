import DecisionGraph.Shape.Basic

/-!
# Merging two shapes of one value

Two descriptions of the same value are merged into one that allows for both. Objects are merged
field by field; a field of both whose shapes differ gets one of the two. A description that says
nothing adds nothing.
-/

namespace DecisionGraph.Shape

/-- One of two shapes, or the shape itself if they are equal. -/
def either (first second : Shape) : Shape := if first = second then first else oneOf [first, second]

mutual

/-- The shape of a value of which both shapes are known. -/
def merge : Shape → Shape → Shape
  | .object fields, .object fields' => .object (mergeFields fields fields')
  | .any, shape => shape
  | shape, .any => shape
  | first, second => either first second

/-- The fields of both objects. Where both have a field, objects under it are merged in turn, and
any other two shapes are alternatives. -/
def mergeFields : List (String × Shape) → Keyed Shape → Keyed Shape
  | [], others => others
  | (name, shape) :: rest, others =>
    let merged := match Keyed.get? name others with
      | none => shape
      | some other =>
        if shape.isObject && other.isObject then merge shape other else either shape other
    Keyed.insert name merged (mergeFields rest others)

end

/-- The shapes merged from left to right, if there is one at all. -/
def mergeAll? : List Shape → Option Shape
  | [] => none
  | first :: rest => some (rest.foldl merge first)

end DecisionGraph.Shape
