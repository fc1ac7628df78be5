import DecisionGraph.Expression.Basic
import DecisionGraph.Expression.Lexer

/-!
# Reading an expression

An operand comes first, then a chain of steps that each take what has been read so far as their left
part: `.name`, `[index]`, `? :` and the binary operators. A step is taken only if it binds tightly
enough for where the expression stands. Levels of binding are twice the precedence, so that the one
between two precedences can tell left grouping from right grouping.

`Parser.expression` is structurally recursive on the number of levels that may still be nested. A
step of a chain nests everything before it, so it costs a level like a parenthesis does.

* **`parse`** reads a whole text.
* The readers below it take the reader of subexpressions as an argument and never look at levels.
-/

namespace DecisionGraph

/-- Reads something off the front of the tokens and gives back the rest. -/
abbrev Parser (α : Type) := List Located → Except ExprError (α × List Located)

namespace Parser

/-- What a reader says about a token that it has no use for. -/
def refuse {α : Type} (found : Located) (expected : Expectation) : Except ExprError α :=
  .error (.unexpectedToken found.token expected found.offset)

def token (wanted : Token) : Parser Unit
  | [] => .error (.unexpectedEnd (.exactly wanted))
  | found :: rest =>
    if found.token = wanted then .ok ((), rest) else refuse found (.exactly wanted)

/-- The level that a conditional binds at. -/
def conditionalLevel : Nat := 1

/-- The level that the operand of a unary operator has to bind at. -/
def unaryLevel : Nat := 19

/-- The level that an operator binds its left operand at. -/
def leftLevel (op : BinaryOp) : Nat := 2 * op.precedence

/-- The level that the right operand of an operator has to bind at. -/
def rightLevel (op : BinaryOp) : Nat :=
  if op.groupsRight then 2 * op.precedence - 1 else 2 * op.precedence + 1

def signOperator? : Sign → Option BinaryOp
  | .plus => some .add
  | .minus => some .subtract
  | .star => some .multiply
  | .slash => some .divide
  | .percent => some .modulo
  | .caret => some .power
  | .equal => some .equal
  | .notEqual => some .notEqual
  | .less => some .less
  | .lessOrEqual => some .lessOrEqual
  | .greater => some .greater
  | .greaterOrEqual => some .greaterOrEqual
  | .ampersands => some .and
  | .bars => some .or
  | .questions => some .coalesce
  | .bang => none

/-- The binary operator at the front of the tokens, and the tokens behind it. -/
def operator? : List Located → Option (BinaryOp × List Located)
  | [] => none
  | found :: rest =>
    match found.token with
    | .sign written => (signOperator? written).map fun op => (op, rest)
    | .word name =>
      if name = "and" then some (.and, rest)
      else if name = "or" then some (.or, rest)
      else if name = "in" then some (.isIn, rest)
      else if name = "not" then
        match rest with
        | ⟨.word second, _⟩ :: rest => if second = "in" then some (.notIn, rest) else none
        | _ => none
      else none
    | _ => none

section Readers

-- The reader of subexpressions that bind at a level at least.
variable (sub : Nat → Parser Expr)

/-- Reads expressions with commas between them, up to and with the closing token. Every round takes
a token, so one round more than there are tokens is never used up. -/
def items (close : Token) : Nat → Parser (List Expr)
  | 0, _ => .error (.unexpectedEnd .operand)
  | room + 1, tokens =>
    match sub 0 tokens with
    | .error error => .error error
    | .ok (_, []) => .error (.unexpectedEnd (.exactly close))
    | .ok (item, found :: rest) =>
      if found.token = .comma then
        (items close room rest).map fun (more, rest) => (item :: more, rest)
      else if found.token = close then .ok ([item], rest)
      else refuse found (.commaOr close)

/-- Reads a list that may be empty, up to and with the closing token. -/
def list (close : Token) : Parser (List Expr) := fun tokens =>
  match tokens with
  | [] => items sub close 1 []
  | found :: rest =>
    if found.token = close then .ok ([], rest) else items sub close (tokens.length + 1) tokens

/-- Reads the key of an object field: a word or a text. -/
def key : Parser String
  | [] => .error (.unexpectedEnd .objectKey)
  | found :: rest =>
    match found.token with
    | .word name => .ok (name, rest)
    | .text name => .ok (name, rest)
    | _ => refuse found .objectKey

def field (tokens : List Located) : Except ExprError ((String × Expr) × List Located) := do
  let (name, tokens) ← key tokens
  let ((), tokens) ← token .colon tokens
  let (value, tokens) ← sub 0 tokens
  return ((name, value), tokens)

/-- Reads fields with commas between them, up to and with the closing brace. Every round takes a
token, so as many rounds as there are tokens suffice. -/
def fields : Nat → Parser (List (String × Expr))
  | 0, _ => .error (.unexpectedEnd .objectKey)
  | room + 1, tokens =>
    match field sub tokens with
    | .error error => .error error
    | .ok (_, []) => .error (.unexpectedEnd (.exactly .rightBrace))
    | .ok (entry, found :: rest) =>
      if found.token = .comma then (fields room rest).map fun (more, rest) => (entry :: more, rest)
      else if found.token = .rightBrace then .ok ([entry], rest)
      else refuse found (.commaOr .rightBrace)

def object : Parser Expr
  | [] => .error (.unexpectedEnd .objectKey)
  | found :: rest =>
    if found.token = .rightBrace then .ok (.object [], rest)
    else (fields sub (found :: rest).length (found :: rest)).map fun (entries, rest) =>
      (.object entries, rest)

def unary (op : UnaryOp) : Parser Expr := fun tokens =>
  (sub unaryLevel tokens).map fun (operand, rest) => (.unary op operand, rest)

/-- Reads what a word at the start of an operand begins. -/
def word (name : String) : Parser Expr := fun tokens =>
  if name = "true" then .ok (.literal (.boolean true), tokens)
  else if name = "false" then .ok (.literal (.boolean false), tokens)
  else if name = "null" then .ok (.literal .null, tokens)
  else if name = "not" then unary sub .not tokens
  else match tokens with
    | ⟨.leftParen, _⟩ :: rest =>
      (list sub .rightParen rest).map fun (args, rest) => (.call name args, rest)
    | _ => .ok (.identifier name, tokens)

/-- Reads an expression in parentheses behind the opening one. -/
def parenthesized (tokens : List Located) : Except ExprError (Expr × List Located) := do
  let (inner, tokens) ← sub 0 tokens
  let ((), tokens) ← token .rightParen tokens
  return (inner, tokens)

/-- Reads an operand: everything that no operator before it is needed for. -/
def operand : Parser Expr
  | [] => .error (.unexpectedEnd .operand)
  | found :: rest =>
    match found.token with
    | .number value => .ok (.literal (.number value), rest)
    | .text value => .ok (.literal (.text value), rest)
    | .hash => .ok (.pointer, rest)
    | .sign .minus => unary sub .negate rest
    | .sign .bang => unary sub .not rest
    | .leftParen => parenthesized sub rest
    | .leftBracket => (list sub .rightBracket rest).map fun (items, rest) => (.array items, rest)
    | .leftBrace => object sub rest
    | .word name => word sub name rest
    | _ => refuse found .operand

/-- Reads the name behind a dot. -/
def memberOf (target : Expr) : Parser Expr
  | [] => .error (.unexpectedEnd .propertyName)
  | found :: rest =>
    match found.token with
    | .word name => .ok (.member target name, rest)
    | _ => refuse found .propertyName

/-- Reads the index behind an opening bracket. -/
def indexOf (target : Expr) (tokens : List Located) :
    Except ExprError (Expr × List Located) := do
  let (position, tokens) ← sub 0 tokens
  let ((), tokens) ← token .rightBracket tokens
  return (.index target position, tokens)

/-- Reads the two branches behind a question mark. -/
def branchesOf (condition : Expr) (tokens : List Located) :
    Except ExprError (Expr × List Located) := do
  let (yes, tokens) ← sub 0 tokens
  let ((), tokens) ← token .colon tokens
  let (no, tokens) ← sub conditionalLevel tokens
  return (.conditional condition yes no, tokens)

/-- Takes one step of a chain whose left part has been read. There is none if the tokens go on with
something else, or with an operator that binds less tightly than `level`. -/
def step? (level : Nat) (left : Expr) (tokens : List Located) :
    Option (Except ExprError (Expr × List Located)) :=
  match tokens with
  | ⟨.dot, _⟩ :: rest => some (memberOf left rest)
  | ⟨.leftBracket, _⟩ :: rest => some (indexOf sub left rest)
  | ⟨.question, _⟩ :: rest =>
    if conditionalLevel < level then none else some (branchesOf sub left rest)
  | _ =>
    match operator? tokens with
    | none => none
    | some (op, rest) =>
      if leftLevel op < level then none
      else some ((sub (rightLevel op) rest).map fun (right, rest) => (.binary op left right, rest))

/-- Takes the steps of a chain as long as there are any. Each costs one of the levels that are left;
one more than there are is an error. -/
def chain (level : Nat) : Nat → Expr → Parser Expr
  | 0, left, tokens =>
    match step? sub level left tokens with
    | none => .ok (left, tokens)
    | some (.error error) => .error error
    | some (.ok _) => .error .tooDeep
  | room + 1, left, tokens =>
    match step? sub level left tokens with
    | none => .ok (left, tokens)
    | some (.error error) => .error error
    | some (.ok (next, rest)) => chain level room next rest

end Readers

/-- Reads an expression that binds at `level` at least, with no more than `room` levels nested. -/
def expression : Nat → Nat → Parser Expr
  | 0, _, _ => .error .tooDeep
  | room + 1, level, tokens =>
    match operand (expression room) tokens with
    | .error error => .error error
    | .ok (first, rest) => chain (expression room) level room first rest

/-- Reads an expression that takes all of the tokens. -/
def whole (tokens : List Located) : Except ExprError Expr :=
  match expression Expr.maxDepth 0 tokens with
  | .error error => .error error
  | .ok (expr, []) => .ok expr
  | .ok (_, found :: _) => refuse found .endOfExpression

end Parser

/-- Reads a text as an expression. -/
def parse (source : String) : Except ExprError Expr := do
  Parser.whole (← Lexer.tokens source)

end DecisionGraph
