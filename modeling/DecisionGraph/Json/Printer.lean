import DecisionGraph.Json.Basic
import DecisionGraph.Double.Decimal
import DecisionGraph.Text.Quoted

/-!
# The text of JSON values

`Json.compact` writes a value without any white space, `Json.pretty` over several lines with two
spaces for each level. Of the characters in a text only quotes, backslashes and the controls below
the space are escaped.
-/

namespace DecisionGraph

/-- The text of a number: an integer in plain digits, a double with a point or an exponent. -/
def Number.print : Number → String
  | .integer value => toString value
  | .double value => value.scientific

namespace Json

/-- A character between the quotes of a text. -/
def printChar (c : Char) : List Char :=
  if c = '"' then ['\\', '"']
  else if c = '\\' then ['\\', '\\']
  else if c = '\x08' then ['\\', 'b']
  else if c = '\x0c' then ['\\', 'f']
  else if c = '\n' then ['\\', 'n']
  else if c = '\r' then ['\\', 'r']
  else if c = '\t' then ['\\', 't']
  else if c.toNat < 16 then ['\\', 'u', '0', '0', '0'] ++ Text.hexDigits c.toNat
  else if c.toNat < 32 then ['\\', 'u', '0', '0'] ++ Text.hexDigits c.toNat
  else [c]

/-- A text between quotes. -/
def printText (value : String) : List Char := '"' :: value.toList.flatMap printChar ++ ['"']

def printScalar : Json → List Char
  | .boolean true => ['t', 'r', 'u', 'e']
  | .boolean false => ['f', 'a', 'l', 's', 'e']
  | .number value => value.print.toList
  | .text value => printText value
  | _ => ['n', 'u', 'l', 'l']

mutual

/-- The characters of a value without white space. -/
def compactChars : Json → List Char
  | .array items => '[' :: compactItems items ++ [']']
  | .object members => '\x7b' :: compactMembers members ++ ['\x7d']
  | scalar => printScalar scalar

def compactItems : List Json → List Char
  | [] => []
  | [item] => compactChars item
  | item :: rest => compactChars item ++ ',' :: compactItems rest

def compactMembers : List (String × Json) → List Char
  | [] => []
  | [(name, value)] => printText name ++ ':' :: compactChars value
  | (name, value) :: rest =>
    printText name ++ ':' :: compactChars value ++ ',' :: compactMembers rest

end

/-- The value on one line without white space. -/
def compact (value : Json) : String := String.ofList (compactChars value)

/-- The start of a line at a level of nesting. -/
def newLine (level : Nat) : List Char := '\n' :: List.replicate (2 * level) ' '

mutual

/-- The characters of a value whose parts stand on lines of their own at the given level. -/
def prettyChars (level : Nat) : Json → List Char
  | .array [] => ['[', ']']
  | .object [] => ['\x7b', '\x7d']
  | .array items => '[' :: prettyItems (level + 1) items ++ newLine level ++ [']']
  | .object members => '\x7b' :: prettyMembers (level + 1) members ++ newLine level ++ ['\x7d']
  | scalar => printScalar scalar

def prettyItems (level : Nat) : List Json → List Char
  | [] => []
  | [item] => newLine level ++ prettyChars level item
  | item :: rest => newLine level ++ prettyChars level item ++ ',' :: prettyItems level rest

def prettyMembers (level : Nat) : List (String × Json) → List Char
  | [] => []
  | [(name, value)] => newLine level ++ printText name ++ ':' :: ' ' :: prettyChars level value
  | (name, value) :: rest =>
    newLine level ++ printText name ++ ':' :: ' ' :: prettyChars level value ++
      ',' :: prettyMembers level rest

end

/-- The value over several lines, two spaces for each level. -/
def pretty (value : Json) : String := String.ofList (prettyChars 0 value)

end Json

end DecisionGraph
