import DecisionGraph.Expression.Error

/-!
# Splitting an expression into tokens

`Lexer.read` takes the token at the start of the characters and counts how many it takes; white
space only separates. Offsets count characters, not bytes.
-/

namespace DecisionGraph

namespace Lexer

/-- A digit or the low line that may group digits. -/
def inWhole (c : Char) : Bool := c.isDigit || c == '_'

/-- The digits behind a point. The point belongs to a number only if a digit follows it. -/
def fractionDigits : List Char → List Char
  | '.' :: rest => rest.takeWhile Char.isDigit
  | _ => []

/-- The value of the exponent at the start of the characters and how many of them it takes. The mark
belongs to a number only if digits follow it, behind a sign or not. -/
def exponent (cs : List Char) : Int × Nat :=
  match cs with
  | mark :: rest =>
    if mark = 'e' ∨ mark = 'E' then
      let (negative, signWidth, rest) := match rest with
        | '-' :: rest => (true, 1, rest)
        | '+' :: rest => (false, 1, rest)
        | rest => (false, 0, rest)
      let digits := rest.takeWhile Char.isDigit
      if digits.isEmpty then (0, 0)
      else
        let value : Int := ofDecimalDigits digits
        (if negative then -value else value, 1 + signWidth + digits.length)
    else (0, 0)
  | [] => (0, 0)

/-- The number at the start of the characters, the first of which is a digit. -/
def number (cs : List Char) : Token × Nat :=
  let whole := cs.takeWhile inWhole
  let behind := cs.drop whole.length
  let fraction := fractionDigits behind
  let pointWidth := if fraction.isEmpty then 0 else fraction.length + 1
  let (power, powerWidth) := exponent (behind.drop pointWidth)
  let digits := ofDecimalDigits (whole.filter Char.isDigit ++ fraction)
  (.number (.ofDecimal digits (power - fraction.length)), whole.length + pointWidth + powerWidth)

/-- The character that stands for a backslash and the character behind it. -/
def unescape (c : Char) : Char :=
  if c = 'n' then '\n' else if c = 't' then '\t' else if c = 'r' then '\r' else c

/-- The rest of a text up to the closing quote, and the number of characters up to and with it.
`escaped` says whether a backslash stands right before. -/
def textBody? (mark : Char) (escaped : Bool) : List Char → Option (List Char × Nat)
  | [] => none
  | c :: rest =>
    if escaped then
      (textBody? mark false rest).map fun (text, width) => (unescape c :: text, width + 1)
    else if c = '\\' then (textBody? mark true rest).map fun (text, width) => (text, width + 1)
    else if c = mark then some ([], 1)
    else (textBody? mark false rest).map fun (text, width) => (c :: text, width + 1)

def doubleSign? : Char → Char → Option Sign
  | '=', '=' => some .equal
  | '!', '=' => some .notEqual
  | '<', '=' => some .lessOrEqual
  | '>', '=' => some .greaterOrEqual
  | '&', '&' => some .ampersands
  | '|', '|' => some .bars
  | '?', '?' => some .questions
  | _, _ => none

def singleSign? : Char → Option Sign
  | '+' => some .plus
  | '-' => some .minus
  | '*' => some .star
  | '/' => some .slash
  | '%' => some .percent
  | '^' => some .caret
  | '<' => some .less
  | '>' => some .greater
  | '!' => some .bang
  | _ => none

/-- The sign at the start of the characters, the longer one if there are two. -/
def sign? (c : Char) (rest : List Char) : Option (Sign × Nat) :=
  match rest.head?.bind (doubleSign? c) with
  | some found => some (found, 2)
  | none => (singleSign? c).map fun found => (found, 1)

def mark? : Char → Option Token
  | '#' => some .hash
  | '(' => some .leftParen
  | ')' => some .rightParen
  | '[' => some .leftBracket
  | ']' => some .rightBracket
  | '\x7b' => some .leftBrace
  | '\x7d' => some .rightBrace
  | ',' => some .comma
  | '.' => some .dot
  | ':' => some .colon
  | '?' => some .question
  | _ => none

def isQuote (c : Char) : Bool := c == '"' || c == '\'' || c == '\x60'

/-- The token that starts with `c`, and the number of its characters. -/
def read (offset : Nat) (c : Char) (rest : List Char) : Except ExprError (Token × Nat) :=
  if c.isDigit then .ok (number (c :: rest))
  else if isQuote c then
    match textBody? c false rest with
    | some (text, width) => .ok (.text (String.ofList text), width + 1)
    | none => .error (.unexpectedEnd (.quote c))
  else if Text.startsIdentifier c then
    let tail := rest.takeWhile Text.continuesIdentifier
    .ok (.word (String.ofList (c :: tail)), tail.length + 1)
  else match sign? c rest with
    | some (found, width) => .ok (.sign found, width)
    | none =>
      match mark? c with
      | some found => .ok (found, 1)
      | none => .error (.unexpectedCharacter c offset)

/-- The tokens of the characters, the first of which stands at `offset`. Every round takes a
character at least, so as many rounds as there are characters suffice. -/
def readAll : Nat → Nat → List Char → Except ExprError (List Located)
  | room + 1, offset, c :: rest =>
    if Text.isBlank c then readAll room (offset + 1) rest
    else
      match read offset c rest with
      | .error error => .error error
      | .ok (token, width) =>
        (readAll room (offset + width) ((c :: rest).drop width)).map (⟨token, offset⟩ :: ·)
  | _, _, _ => .ok []

def tokens (source : String) : Except ExprError (List Located) :=
  readAll source.length 0 source.toList

end Lexer

end DecisionGraph
