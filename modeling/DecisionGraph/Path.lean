import DecisionGraph.Double.Decimal
import DecisionGraph.Text.Class

/-!
# Paths into a value

A path such as `customer.orders[0]["unit price"]` is a sequence of steps, each a key or an index.
Bare keys are separated by dots and trimmed of white space; a bracket holds an index or a quoted key
and needs no dot before it. The empty path names the value itself.

`Path.parse` reads a path. It reports the first fault, or that the path is too long as soon as that
shows.
-/

namespace DecisionGraph

inductive Segment
  | key (name : String)
  | index (position : Nat)
deriving DecidableEq, Inhabited

/-- The steps from a value to one inside it. -/
abbrev Path := List Segment

/-- A key as it is, an index in brackets. -/
def Segment.print : Segment → String
  | .key name => name
  | .index position => "[" ++ toString position ++ "]"

inductive PathFault
  /-- There is nothing but white space where a key should be. -/
  | emptySegment
  /-- A key follows a bracket without a dot. -/
  | missingSeparator
  | trailingDot
  /-- A quoted key has no closing quote. -/
  | openQuote
  /-- A bracket holds neither an index below `2 ^ 64` nor a quoted key. -/
  | badIndex
  /-- The path ends right behind an opening bracket. -/
  | openBracket
  /-- Something else stands where the closing bracket should be. -/
  | missingBracket
deriving DecidableEq

def PathFault.message : PathFault → String
  | .emptySegment => "empty path segment"
  | .missingSeparator => "expected '.' or '[' between segments"
  | .trailingDot => "path ends with '.'"
  | .openQuote => "unterminated quoted key"
  | .badIndex => "bracket must hold an index or a quoted key"
  | .openBracket => "unterminated '['"
  | .missingBracket => "expected ']'"

inductive PathError
  | malformed (path : String) (fault : PathFault)
  /-- There are more than `Path.maxLength` steps. -/
  | tooLong
deriving DecidableEq

namespace Path

def maxLength : Nat := 128

/-- The closing bracket behind a step. -/
def closeBracket (segment : Segment) (cs : List Char) : Except PathFault (Segment × List Char) :=
  match cs.dropWhile Text.isBlank with
  | ']' :: rest => .ok (segment, rest)
  | _ => .error .missingBracket

/-- The step in a bracket that has been opened, and what follows the closing bracket. -/
def bracket (cs : List Char) : Except PathFault (Segment × List Char) :=
  match cs.dropWhile Text.isBlank with
  | [] => .error .openBracket
  | c :: rest =>
    if c = '"' ∨ c = '\'' then
      match rest.dropWhile (· ≠ c) with
      | [] => .error .openQuote
      | _ :: behind => closeBracket (.key (String.ofList (rest.takeWhile (· ≠ c)))) behind
    else
      let digits := (c :: rest).takeWhile Char.isDigit
      if digits.isEmpty ∨ twoTo 64 ≤ ofDecimalDigits digits then .error .badIndex
      else closeBracket (.index (ofDecimalDigits digits)) ((c :: rest).dropWhile Char.isDigit)

def inKey (c : Char) : Bool := c ≠ '.' && c ≠ '['

/-- Where the reading of a path stands. -/
structure Progress where
  /-- How many steps have been read. -/
  count : Nat
  /-- Whether a step must come next: at the start and behind a dot. -/
  due : Bool

inductive Piece
  | dot
  | step (segment : Segment)

/-- The next piece of a path that is not at its end, and what follows it. -/
def piece (due : Bool) (c : Char) (rest : List Char) : Except PathFault (Piece × List Char) :=
  if c = '.' then if due then .error .emptySegment else .ok (.dot, rest)
  else if c = '[' then (bracket rest).map fun (segment, rest) => (.step segment, rest)
  else if due then
    let key := Text.trimChars ((c :: rest).takeWhile inKey)
    if key.isEmpty then .error .emptySegment
    else .ok (.step (.key (String.ofList key)), (c :: rest).dropWhile inKey)
  else .error .missingSeparator

/-- The remaining steps of the path `path`, of which `cs` is still to be read. Every piece takes a
character at least, so as many rounds as there are characters suffice. -/
def steps (path : String) : Nat → Progress → List Char → Except PathError Path
  | room + 1, progress, c :: rest =>
    match piece progress.due c rest with
    | .error fault => .error (.malformed path fault)
    | .ok (.dot, rest) => steps path room ⟨progress.count, true⟩ rest
    | .ok (.step segment, rest) =>
      if maxLength < progress.count + 1 then .error .tooLong
      else (steps path room ⟨progress.count + 1, false⟩ rest).map (segment :: ·)
  | _, progress, _ =>
    if progress.due ∧ progress.count ≠ 0 then .error (.malformed path .trailingDot) else .ok []

/-- Reads a path, white space around it aside. -/
def parse (path : String) : Except PathError Path :=
  let cs := Text.trimChars path.toList
  steps path cs.length ⟨0, true⟩ cs

end Path

def PathError.message : PathError → String
  | .malformed path fault => "Invalid path '" ++ path ++ "': " ++ fault.message
  | .tooLong => "Expression nesting exceeds the maximum depth of " ++ toString Path.maxLength

end DecisionGraph
