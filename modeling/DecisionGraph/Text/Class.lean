import DecisionGraph.Text.Alphabetic
import DecisionGraph.Text.Numeric

/-!
# Classes of characters

White space and the characters of identifiers, after the Unicode properties White_Space, Alphabetic
and the numeric categories; text trimmed of white space.
-/

namespace DecisionGraph.Text

/-- Whether a code point lies in one of the ranges. -/
def inRanges (ranges : List (Nat × Nat)) (code : Nat) : Bool :=
  ranges.any fun range => range.1 ≤ code && code ≤ range.2

/-- The runs of characters with the Unicode property White_Space. -/
def blankRanges : List (Nat × Nat) := [
  (0x9, 0xD), (0x20, 0x20), (0x85, 0x85), (0xA0, 0xA0), (0x1680, 0x1680), (0x2000, 0x200A),
  (0x2028, 0x2029), (0x202F, 0x202F), (0x205F, 0x205F), (0x3000, 0x3000)]

def isBlank (c : Char) : Bool := inRanges blankRanges c.toNat

def isAlphabetic (c : Char) : Bool :=
  if c.toNat < 128 then c.isAlpha else inRanges alphabeticRanges c.toNat

/-- A character of a numeric category, of which the ASCII digits are a few. -/
def isNumeric (c : Char) : Bool :=
  if c.toNat < 128 then c.isDigit else inRanges numericRanges c.toNat

/-- A character that an identifier can start with. -/
def startsIdentifier (c : Char) : Bool := isAlphabetic c || c == '_' || c == '$'

/-- A character that an identifier can go on with. -/
def continuesIdentifier (c : Char) : Bool :=
  isAlphabetic c || isNumeric c || c == '_' || c == '$'

/-- Characters without the white space at both ends. -/
def trimChars (cs : List Char) : List Char :=
  ((cs.dropWhile isBlank).reverse.dropWhile isBlank).reverse

/-- Text without the white space at both ends. -/
def trim (text : String) : String := String.ofList (trimChars text.toList)

/-- The trimmed text, if there is more than white space. -/
def trimmed? (text : Option String) : Option String :=
  (text.map trim).filter fun trimmed => !trimmed.isEmpty

end DecisionGraph.Text
