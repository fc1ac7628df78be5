import DecisionGraph.Expression.Parser
import DecisionGraph.Shape.Access

/-!
# The shape of an expression's result

Identifiers stand for the fields of a root shape, and `#` for the items of the collection that the
innermost closure runs over. Nothing is evaluated: `Expr.typeIn` only follows shapes, and refuses an
arithmetic operator only where an operand is certainly wrong.
-/

namespace DecisionGraph

/-- What a call makes of running its second argument for the items of its first. -/
inductive Closure
  | map
  | filter
  | count
  | test
deriving DecidableEq

/-- The shape that a function returns. -/
inductive Returns
  | always (shape : Shape)
  | values
  /-- The items of an array of arrays. -/
  | flattened
  | closure (kind : Closure)

/-- A function of the language. -/
structure Builtin where
  name : String
  /-- The least number of arguments. -/
  least : Nat
  /-- The largest number of arguments. -/
  most : Nat
  returns : Returns

namespace Builtin

def all : List Builtin := [
  ⟨"len", 1, 1, .always .number⟩,
  ⟨"sum", 1, 1, .always .number⟩,
  ⟨"avg", 1, 1, .always .number⟩,
  ⟨"min", 1, 1, .always .number⟩,
  ⟨"max", 1, 1, .always .number⟩,
  ⟨"median", 1, 1, .always .number⟩,
  ⟨"mode", 1, 1, .always .number⟩,
  ⟨"abs", 1, 1, .always .number⟩,
  ⟨"floor", 1, 1, .always .number⟩,
  ⟨"ceil", 1, 1, .always .number⟩,
  ⟨"round", 1, 2, .always .number⟩,
  ⟨"rand", 1, 1, .always .number⟩,
  ⟨"number", 1, 1, .always .number⟩,
  ⟨"string", 1, 1, .always .text⟩,
  ⟨"bool", 1, 1, .always .boolean⟩,
  ⟨"upper", 1, 1, .always .text⟩,
  ⟨"lower", 1, 1, .always .text⟩,
  ⟨"trim", 1, 1, .always .text⟩,
  ⟨"contains", 2, 2, .always .boolean⟩,
  ⟨"startsWith", 2, 2, .always .boolean⟩,
  ⟨"endsWith", 2, 2, .always .boolean⟩,
  ⟨"matches", 2, 2, .always .boolean⟩,
  ⟨"isNumeric", 1, 1, .always .boolean⟩,
  ⟨"keys", 1, 1, .always (.array .text)⟩,
  ⟨"values", 1, 1, .values⟩,
  ⟨"flatten", 1, 1, .flattened⟩,
  ⟨"map", 2, 2, .closure .map⟩,
  ⟨"filter", 2, 2, .closure .filter⟩,
  ⟨"some", 2, 2, .closure .test⟩,
  ⟨"all", 2, 2, .closure .test⟩,
  ⟨"none", 2, 2, .closure .test⟩,
  ⟨"one", 2, 2, .closure .test⟩,
  ⟨"count", 2, 2, .closure .count⟩,
  ⟨"date", 0, 1, .always .date⟩,
  ⟨"time", 0, 1, .always .number⟩,
  ⟨"duration", 1, 1, .always .number⟩]

def find? (name : String) : Option Builtin := all.find? fun function => function.name = name

/-- Whether a call with so many arguments has neither too few nor too many. -/
def accepts (function : Builtin) (count : Nat) : Bool :=
  function.least ≤ count && count ≤ function.most

/-- The number of arguments that a call with a wrong number of them should have had. -/
def expectedCount (function : Builtin) (count : Nat) : Nat :=
  if count < function.least then function.least else function.most

end Builtin

/-- The shape of the items of an array of arrays in one array. -/
def Shape.flatten (shape : Shape) : Shape :=
  match shape.element with
  | .array item => .array item
  | item => .array item

/-- The shape of the array of an object's values. -/
def Shape.valuesOf : Shape → Shape
  | .object fields => .array (.oneOf (Keyed.values fields))
  | _ => .array .any

/-- The shape that a function returns for arguments of the given shapes. -/
def Returns.shape (returns : Returns) (args : List Shape) : Shape :=
  match returns with
  | .always shape => shape
  | .values => (args.headD .any).valuesOf
  | .flattened => (args.headD .any).flatten
  | .closure _ => .any

/-- The shape that a closure returns, given those of the collection and of a result. -/
def Closure.shape : Closure → Shape → Shape → Shape
  | .map, _, body => .array body
  | .filter, .array item, _ => .array item
  | .filter, _, _ => .array .any
  | .count, _, _ => .number
  | .test, _, _ => .boolean

def Literal.shape : Literal → Shape
  | .number _ => .number
  | .text _ => .text
  | .boolean _ => .boolean
  | .null => .null

def Shape.nonNull : Shape → Shape
  | .union members => oneOf (members.filter (· ≠ .null))
  | shape => shape

def BinaryOp.isArithmetic : BinaryOp → Bool
  | .add | .subtract | .multiply | .divide | .modulo | .power => true
  | _ => false

/-- The shape of an arithmetic operator's result. -/
def BinaryOp.arithmeticResult (op : BinaryOp) (left right : Shape) : Except ExprError Shape :=
  if left.isAny || right.isAny then .ok .any
  else if !left.isArithmetic then .error (.invalidOperand op.symbol left)
  else if !right.isArithmetic then .error (.invalidOperand op.symbol right)
  else .ok .number

/-- The shape of a binary operator's result. A sum with a text in it is a text. -/
def BinaryOp.result (op : BinaryOp) (left right : Shape) : Except ExprError Shape :=
  if op = .add ∧ (left.isText ∨ right.isText) then .ok .text
  else if op.isArithmetic then op.arithmeticResult left right
  else if op = .coalesce then .ok (.oneOf [left.nonNull, right])
  else .ok .boolean

def UnaryOp.result (op : UnaryOp) (operand : Shape) : Except ExprError Shape :=
  match op with
  | .not => .ok .boolean
  | .negate =>
    if operand.isAny then .ok .any
    else if operand.isArithmetic then .ok .number
    else .error (.invalidOperand "-" operand)

namespace Expr

/-- The step that an index written out stands for. All positions in an array are alike. -/
def writtenStep? : Expr → Option Segment
  | .literal (.text key) => some (.key key)
  | .literal (.number value) =>
    if value.negative ∧ value.magnitude ≠ 0 then none else some (.index 0)
  | _ => none

/-- The shape one step inside, where the step is only known by its shape. A text finds one of the
fields of an object. -/
def indexShape (target position : Shape) : Shape :=
  match target with
  | .object fields => if position.isText then .oneOf (Keyed.values fields) else .any
  | target => target.step (.index 0)

mutual

/-- The shape of an expression under a root shape, with `#` standing for `item`. -/
def typeIn (root item : Shape) : Expr → Except ExprError Shape
  | .literal value => .ok value.shape
  | .identifier name => .ok (root.step (.key name))
  | .pointer => .ok item
  | .member target name => (typeIn root item target).map (Shape.step (.key name))
  | .index target position => do
    let target ← typeIn root item target
    match writtenStep? position with
    | some segment => .ok (target.step segment)
    | none => (typeIn root item position).map (indexShape target)
  | .array items => (typesIn root item items).map fun shapes => .array (.oneOf shapes)
  | .object fields =>
    (fieldTypesIn root item fields).map fun fields => .object (Keyed.ofList fields)
  | .unary op operand => do op.result (← typeIn root item operand)
  | .binary op left right => do
    let left ← typeIn root item left
    let right ← typeIn root item right
    op.result left right
  | .conditional condition yes no => do
    let _ ← typeIn root item condition
    let yes ← typeIn root item yes
    let no ← typeIn root item no
    return .oneOf [yes, no]
  | .call name args =>
    match Builtin.find? name with
    | none => .error (.unknownFunction name)
    | some function =>
      if function.accepts args.length then
        match function.returns, args with
        | .closure kind, [collection, body] => do
          let collection ← typeIn root item collection
          let body ← typeIn root collection.element body
          return kind.shape collection body
        | returns, args => (typesIn root item args).map returns.shape
      else .error (.argumentCount name (function.expectedCount args.length) args.length)

def typesIn (root item : Shape) : List Expr → Except ExprError (List Shape)
  | [] => .ok []
  | expr :: rest => do
    let shape ← typeIn root item expr
    let shapes ← typesIn root item rest
    return shape :: shapes

def fieldTypesIn (root item : Shape) :
    List (String × Expr) → Except ExprError (List (String × Shape))
  | [] => .ok []
  | (key, value) :: rest => do
    let shape ← typeIn root item value
    let shapes ← fieldTypesIn root item rest
    return (key, shape) :: shapes

end

end Expr

/-- The shape of a written expression under a root shape. -/
def typeOf (root : Shape) (source : String) : Except ExprError Shape := do
  (← parse source).typeIn root .any

/-- The shape of a written expression under a root shape, `any` if it has none. -/
def typeOrAny (root : Shape) (source : String) : Shape :=
  match typeOf root source with
  | .ok shape => shape
  | .error _ => .any

end DecisionGraph
