import DecisionGraph.Expression.Token
import DecisionGraph.Shape.Printer

/-!
# What can be wrong with an expression
-/

namespace DecisionGraph

inductive Expectation
  | operand
  | endOfExpression
  | propertyName
  | objectKey
  /-- This token and no other. -/
  | exactly (expected : Token)
  /-- A comma or the token that closes the list. -/
  | commaOr (close : Token)
  /-- The quote that ends a text. -/
  | quote (mark : Char)
deriving DecidableEq

def Expectation.print : Expectation → String
  | .operand => "an operand"
  | .endOfExpression => "end of expression"
  | .propertyName => "property name"
  | .objectKey => "object key"
  | .exactly expected => "'" ++ expected.print ++ "'"
  | .commaOr close => "',' or '" ++ close.print ++ "'"
  | .quote mark => "closing " ++ mark.toString

inductive ExprError
  | unexpectedCharacter (character : Char) (offset : Nat)
  | unexpectedToken (found : Token) (expected : Expectation) (offset : Nat)
  | unexpectedEnd (expected : Expectation)
  | unknownFunction (name : String)
  /-- A call has fewer arguments than its function takes at least, or more than it takes at most. -/
  | argumentCount (name : String) (expected found : Nat)
  /-- An arithmetic operator has an operand that is certainly neither number, date nor `null`. -/
  | invalidOperand (operator : String) (found : Shape)
  /-- Subexpressions are nested deeper than `Expr.maxDepth`. -/
  | tooDeep
deriving DecidableEq

/-- How deep subexpressions can be nested. -/
def Expr.maxDepth : Nat := 64

def ExprError.message : ExprError → String
  | .unexpectedCharacter character offset =>
    "Unexpected character '" ++ character.toString ++ "' at offset " ++ toString offset
  | .unexpectedToken found expected offset =>
    "Unexpected token '" ++ found.print ++ "' at offset " ++ toString offset ++ ", expected " ++
      expected.print
  | .unexpectedEnd expected => "Unexpected end of expression, expected " ++ expected.print
  | .unknownFunction name => "Unknown function '" ++ name ++ "'"
  | .argumentCount name expected found =>
    "Function '" ++ name ++ "' expects " ++ toString expected ++ " arguments, but received " ++
      toString found
  | .invalidOperand operator found =>
    "Operator '" ++ operator ++ "' cannot be applied to a value of type " ++ found.print
  | .tooDeep => "Expression nesting exceeds the maximum depth of " ++ toString Expr.maxDepth

end DecisionGraph
