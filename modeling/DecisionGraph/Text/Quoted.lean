import DecisionGraph.Text.Class
import DecisionGraph.Text.Extending
import DecisionGraph.Text.Unprintable

/-!
# Quoted text

Text between double quotes in which everything that would not show, or would run into its
neighbours, is escaped. Letters of all scripts and symbols stand for themselves.
-/

namespace DecisionGraph.Text

/-- The hexadecimal digits of a number, in lower case. -/
def hexDigits (n : Nat) : List Char := Nat.toDigits 16 n

/-- The voiced and the semi-voiced sound mark of halfwidth Katakana. They extend the character
before them, but take up room of their own and do not run into it. -/
def soundMarkRanges : List (Nat × Nat) := [(0xFF9E, 0xFF9F)]

/-- The letters with the Unicode property Default_Ignorable_Code_Point: the fillers of Hangul, which
show nothing. -/
def fillerRanges : List (Nat × Nat) := [(0x115F, 0x1160), (0x3164, 0x3164), (0xFFA0, 0xFFA0)]

/-- A character that runs into the one before it. -/
def isExtending (c : Char) : Bool :=
  inRanges extendingRanges c.toNat && !inRanges soundMarkRanges c.toNat

/-- A character that shows nothing of itself. -/
def isInvisible (c : Char) : Bool :=
  inRanges unprintableRanges c.toNat || inRanges fillerRanges c.toNat

/-- A character that stands for itself between quotes, quotes and backslashes apart. -/
def isPlain (c : Char) : Bool :=
  if c.toNat < 128 then 32 ≤ c.toNat && c.toNat < 127
  else !isExtending c && !isInvisible c

/-- A character between quotes: a two character escape, itself, or its code point in braces. -/
def quoteChar (c : Char) : List Char :=
  if c = '"' then ['\\', '"']
  else if c = '\\' then ['\\', '\\']
  else if c = '\n' then ['\\', 'n']
  else if c = '\r' then ['\\', 'r']
  else if c = '\t' then ['\\', 't']
  else if c = '\x00' then ['\\', '0']
  else if isPlain c then [c]
  else ['\\', 'u', '\x7b'] ++ hexDigits c.toNat ++ ['\x7d']

def quote (text : String) : String :=
  String.ofList ('"' :: text.toList.flatMap quoteChar ++ ['"'])

end DecisionGraph.Text
