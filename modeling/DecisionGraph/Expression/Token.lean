import DecisionGraph.Double.Decimal
import DecisionGraph.Text.Quoted

/-!
# Tokens

The smallest parts of an expression, each with the place where it starts.
-/

namespace DecisionGraph

/-- An operator sign. Some operators have a word instead, and two have both. -/
inductive Sign
  | plus
  | minus
  | star
  | slash
  | percent
  | caret
  | equal
  | notEqual
  | less
  | lessOrEqual
  | greater
  | greaterOrEqual
  | bang
  | ampersands
  | bars
  | questions
deriving DecidableEq, Inhabited

/-- The sign as it is written. -/
def Sign.print : Sign → String
  | .plus => "+"
  | .minus => "-"
  | .star => "*"
  | .slash => "/"
  | .percent => "%"
  | .caret => "^"
  | .equal => "=="
  | .notEqual => "!="
  | .less => "<"
  | .lessOrEqual => "<="
  | .greater => ">"
  | .greaterOrEqual => ">="
  | .bang => "!"
  | .ampersands => "&&"
  | .bars => "||"
  | .questions => "??"

inductive Token
  | number (value : Double)
  | text (value : String)
  /-- An identifier or a word of the language. -/
  | word (name : String)
  | sign (written : Sign)
  | hash
  | leftParen
  | rightParen
  | leftBracket
  | rightBracket
  | leftBrace
  | rightBrace
  | comma
  | dot
  | colon
  | question
deriving DecidableEq, Inhabited

/-- The token as messages show it. -/
def Token.print : Token → String
  | .number value => value.positional
  | .text value => Text.quote value
  | .word name => name
  | .sign written => written.print
  | .hash => "#"
  | .leftParen => "("
  | .rightParen => ")"
  | .leftBracket => "["
  | .rightBracket => "]"
  | .leftBrace => "\x7b"
  | .rightBrace => "\x7d"
  | .comma => ","
  | .dot => "."
  | .colon => ":"
  | .question => "?"

/-- A token and the number of characters before it. -/
structure Located where
  token : Token
  offset : Nat
deriving DecidableEq, Inhabited

end DecisionGraph
