import DecisionGraph.Path
import DecisionGraph.Shape.Basic

/-!
# Reading and writing along a path

`Shape.get` and `Shape.set` follow the steps of a path into a shape. Reading what is not there gives
`any`; writing makes the objects and arrays that are missing on the way and replaces whatever stands
in the way. All items of an array have one shape, so all indexes are alike.
-/

namespace DecisionGraph.Shape

mutual

/-- The shape one step inside. The step goes into each member of a union; the characters of a text
are texts. -/
def step (segment : Segment) : Shape → Shape
  | .object fields =>
    match segment with
    | .key name => (Keyed.get? name fields).getD .any
    | .index _ => .any
  | .array item =>
    match segment with
    | .key _ => .any
    | .index _ => item
  | .scalar .text =>
    match segment with
    | .key _ => .any
    | .index _ => .text
  | .union members => oneOf (stepEach segment members)
  | _ => .any

/-- The shapes one step inside each member. -/
def stepEach (segment : Segment) : List Shape → List Shape
  | [] => []
  | member :: rest => step segment member :: stepEach segment rest

end

/-- The shape at the end of a path. -/
def getAt (path : Path) (shape : Shape) : Shape :=
  path.foldl (fun shape segment => shape.step segment) shape

/-- The shape at the end of a written path, `any` if it is none. -/
def get (path : String) (shape : Shape) : Shape :=
  match Path.parse path with
  | .ok path => shape.getAt path
  | .error _ => .any

/-- The fields of an object; none for any other shape. -/
def fieldsOrNone : Shape → Keyed Shape
  | .object fields => fields
  | _ => []

/-- The item of an array; `any` for any other shape. -/
def itemOrAny : Shape → Shape
  | .array item => item
  | _ => .any

/-- The shape with `value` at the end of the path. -/
def setAt : Path → Shape → Shape → Shape
  | [], _, value => value
  | .key name :: rest, shape, value =>
    let fields := shape.fieldsOrNone
    .object (Keyed.insert name (setAt rest ((Keyed.get? name fields).getD .any) value) fields)
  | .index _ :: rest, shape, value => .array (setAt rest shape.itemOrAny value)

/-- The shape with `value` at the end of a written path. If it is none the shape stays as it is. -/
def set (path : String) (shape value : Shape) : Shape :=
  match Path.parse path with
  | .ok path => setAt path shape value
  | .error _ => shape

mutual

/-- The shape of the items of an array; nothing is known about those of anything else. -/
def element : Shape → Shape
  | .array item => item
  | .union members => oneOf (elements members)
  | _ => .any

def elements : List Shape → List Shape
  | [] => []
  | member :: rest => element member :: elements rest

end

end DecisionGraph.Shape
