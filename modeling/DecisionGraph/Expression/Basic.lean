import DecisionGraph.Double.Basic

/-!
# Expressions

The trees of the expression language of decision graphs: what expression rows, table cells and
switch conditions hold. How tightly an operator binds is part of the language; reading and
printing both go by `Expr.precedence`.
-/

namespace DecisionGraph

inductive Literal
  | number (value : Double)
  | text (value : String)
  | boolean (value : Bool)
  | null
deriving DecidableEq, Inhabited

/-- An operator in front of its operand. -/
inductive UnaryOp
  | negate
  | not
deriving DecidableEq, Inhabited

/-- An operator between its operands. -/
inductive BinaryOp
  | add
  | subtract
  | multiply
  | divide
  | modulo
  | power
  | equal
  | notEqual
  | less
  | lessOrEqual
  | greater
  | greaterOrEqual
  | isIn
  | notIn
  | and
  | or
  | coalesce
deriving DecidableEq, Inhabited

namespace BinaryOp

def symbol : BinaryOp → String
  | .add => "+"
  | .subtract => "-"
  | .multiply => "*"
  | .divide => "/"
  | .modulo => "%"
  | .power => "^"
  | .equal => "=="
  | .notEqual => "!="
  | .less => "<"
  | .lessOrEqual => "<="
  | .greater => ">"
  | .greaterOrEqual => ">="
  | .isIn => "in"
  | .notIn => "not in"
  | .and => "and"
  | .or => "or"
  | .coalesce => "??"

def precedence : BinaryOp → Nat
  | .coalesce => 2
  | .or => 3
  | .and => 4
  | .equal | .notEqual => 5
  | .less | .lessOrEqual | .greater | .greaterOrEqual | .isIn | .notIn => 6
  | .add | .subtract => 7
  | .multiply | .divide | .modulo => 8
  | .power => 9

/-- Whether a chain of the operator groups to the right: powers do, all others group to the left. -/
def groupsRight : BinaryOp → Bool
  | .power => true
  | _ => false

/-- The least precedence of a left operand without parentheses. -/
def leftPrecedence (op : BinaryOp) : Nat :=
  if op.groupsRight then op.precedence + 1 else op.precedence

/-- The least precedence of a right operand without parentheses. -/
def rightPrecedence (op : BinaryOp) : Nat :=
  if op.groupsRight then op.precedence else op.precedence + 1

end BinaryOp

inductive Expr
  | literal (value : Literal)
  | identifier (name : String)
  /-- The current item inside a closure argument, as in `map(xs, #.a)`. -/
  | pointer
  | member (target : Expr) (name : String)
  | index (target position : Expr)
  | array (items : List Expr)
  | object (fields : List (String × Expr))
  | unary (op : UnaryOp) (operand : Expr)
  | binary (op : BinaryOp) (left right : Expr)
  | conditional (condition yes no : Expr)
  | call (name : String) (args : List Expr)
deriving Inhabited

namespace Expr

def precedence : Expr → Nat
  | .conditional .. => 1
  | .binary op .. => op.precedence
  | .unary .. => 10
  | .member .. | .index .. | .call .. => 11
  | .literal _ | .identifier _ | .pointer | .array _ | .object _ => 12

mutual

/-- Whether two expressions are the same tree. -/
def same : Expr → Expr → Bool
  | .literal a, .literal b => a == b
  | .identifier a, .identifier b => a == b
  | .pointer, .pointer => true
  | .member target name, .member target' name' => same target target' && name == name'
  | .index target position, .index target' position' =>
    same target target' && same position position'
  | .array items, .array items' => sameItems items items'
  | .object fields, .object fields' => sameFields fields fields'
  | .unary op operand, .unary op' operand' => op == op' && same operand operand'
  | .binary op left right, .binary op' left' right' =>
    op == op' && same left left' && same right right'
  | .conditional condition yes no, .conditional condition' yes' no' =>
    same condition condition' && same yes yes' && same no no'
  | .call name args, .call name' args' => name == name' && sameItems args args'
  | _, _ => false

def sameItems : List Expr → List Expr → Bool
  | [], [] => true
  | a :: as, b :: bs => same a b && sameItems as bs
  | _, _ => false

def sameFields : List (String × Expr) → List (String × Expr) → Bool
  | [], [] => true
  | (key, a) :: as, (key', b) :: bs => key == key' && same a b && sameFields as bs
  | _, _ => false

end

end Expr

end DecisionGraph
