import DecisionGraph.Double.Decimal
import DecisionGraph.Expression.Basic
import DecisionGraph.Text.Quoted

/-!
# Writing an expression

Parentheses stand exactly where a part binds less tightly than its place asks for.
-/

namespace DecisionGraph

/-- The text of a literal. -/
def Literal.print : Literal → String
  | .number value => value.positional
  | .text value => Text.quote value
  | .boolean true => "true"
  | .boolean false => "false"
  | .null => "null"

namespace Expr

/-- Puts parentheses around the text of a part, if it needs them. -/
def enclose (needed : Bool) (text : String) : String := if needed then "(" ++ text ++ ")" else text

mutual

/-- The text of an expression at a place that asks for a precedence. -/
def printAt (least : Nat) : Expr → String
  | .literal value => enclose (12 < least) value.print
  | .identifier name => enclose (12 < least) name
  | .pointer => enclose (12 < least) "#"
  | .member target name => enclose (11 < least) (printAt 11 target ++ "." ++ name)
  | .index target position =>
    enclose (11 < least) (printAt 11 target ++ "[" ++ printAt 0 position ++ "]")
  | .array items => enclose (12 < least) ("[" ++ printItems items ++ "]")
  | .object fields => enclose (12 < least) ("\x7b" ++ printFields fields ++ "\x7d")
  | .unary .negate operand => enclose (10 < least) ("-" ++ printAt 10 operand)
  | .unary .not operand => enclose (10 < least) ("not " ++ printAt 10 operand)
  | .binary op left right =>
    enclose (op.precedence < least)
      (printAt op.leftPrecedence left ++ " " ++ op.symbol ++ " " ++
        printAt op.rightPrecedence right)
  | .conditional condition yes no =>
    enclose (1 < least) (printAt 2 condition ++ " ? " ++ printAt 0 yes ++ " : " ++ printAt 1 no)
  | .call name args => enclose (11 < least) (name ++ "(" ++ printItems args ++ ")")

/-- Expressions with commas between them. -/
def printItems : List Expr → String
  | [] => ""
  | [item] => printAt 0 item
  | item :: rest => printAt 0 item ++ ", " ++ printItems rest

/-- Fields with commas between them. Keys are written without quotes. -/
def printFields : List (String × Expr) → String
  | [] => ""
  | [(key, value)] => key ++ ": " ++ printAt 0 value
  | (key, value) :: rest => key ++ ": " ++ printAt 0 value ++ ", " ++ printFields rest

end

/-- The text of an expression. -/
def print (expr : Expr) : String := expr.printAt 0

end Expr

end DecisionGraph
