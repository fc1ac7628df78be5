import DecisionGraph.Json.Basic
import DecisionGraph.Double.Decimal

/-!
# JSON documents as they are written

`Written` is a document before anything is decided about it: members in their order with repeated
names, numerals as digits, and texts that may hold half of a surrogate pair. `Written.parse?`
reads one by the grammar alone.

`Written.toJson?` makes a value of it. It refuses what has no value (a half surrogate pair, a number
beyond the doubles) and what is nested too deep, and lets the last of several members with one name
stand. Readers that skip parts of a document skip them as they are written, so nothing of this is
asked of the skipped parts.
-/

namespace DecisionGraph

structure Numeral where
  negative : Bool
  whole : List Char
  /-- The digits behind the point, if there is one. -/
  fraction : Option (List Char)
  exponent : Option Int

inductive Written
  | null
  | boolean (value : Bool)
  | number (numeral : Numeral)
  /-- A text, or nothing if an escape in it names half of a surrogate pair. -/
  | text (value : Option String)
  | array (items : List Written)
  | object (members : List (Option String × Written))

namespace Numeral

/-- Appends digits to a significand as long as it stays below `2 ^ 64`; also the number of digits
left out at the end. -/
def absorb (significand : Nat) : List Char → Nat × Nat
  | [] => (significand, 0)
  | digit :: rest =>
    let longer := 10 * significand + (digit.toNat - '0'.toNat)
    if longer < twoTo 64 then absorb longer rest else (significand, rest.length + 1)

/-- A power of ten, rounded. -/
def roundedTenTo (exponent : Nat) : Nat := Double.nearest (tenTo exponent) 1

/-- The magnitude of `significand * 10 ^ exponent`, rounded after each step: the significand, the
power of ten, and their product or quotient. Below `10 ^ -308` the power is divided out in two
parts. There is none beyond the largest double. -/
def scale? (significand : Nat) (exponent : Int) : Option Nat :=
  let base := Double.nearest significand 1
  if base = 0 then some 0
  else if 308 < exponent then none
  else if 0 ≤ exponent then
    let scaled := Double.mulMagnitude base (roundedTenTo exponent.toNat)
    if scaled = Double.infinite then none else some scaled
  else if -308 ≤ exponent then some (Double.divMagnitude base (roundedTenTo (-exponent).toNat))
  else if -616 ≤ exponent then
    let smaller := Double.divMagnitude base (roundedTenTo 308)
    some (Double.divMagnitude smaller (roundedTenTo (-exponent - 308).toNat))
  else some 0

/-- The double that a numeral stands for. Digits beyond a significand of 64 bits do not count. -/
def double? (numeral : Numeral) : Option Double :=
  let (significand, left) := absorb 0 numeral.whole
  let fraction := numeral.fraction.getD []
  let (significand, dropped) := absorb significand fraction
  let exponent := numeral.exponent.getD 0 + left - (fraction.length - dropped : Nat)
  (scale? significand exponent).map fun magnitude => ⟨numeral.negative, magnitude⟩

/-- The number that a numeral stands for. Without point and exponent that is an integer if it lies
between `-2 ^ 63` and `2 ^ 64 - 1` and is no negative zero. -/
def number? (numeral : Numeral) : Option Number :=
  let value := ofDecimalDigits numeral.whole
  let short := numeral.fraction.isNone && numeral.exponent.isNone
  if short && !numeral.negative && value < twoTo 64 then some (.integer value)
  else if short && numeral.negative && 0 < value && value ≤ twoTo 63 then some (.integer (-value))
  else numeral.double?.map .double

end Numeral

namespace Written

def isSpace (c : Char) : Bool := c == ' ' || c == '\n' || c == '\t' || c == '\r'

def skipSpace (cs : List Char) : List Char := cs.dropWhile isSpace

def hexValue? (c : Char) : Option Nat :=
  if c.isDigit then some (c.toNat - '0'.toNat)
  else if 'a' ≤ c ∧ c ≤ 'f' then some (c.toNat - 'a'.toNat + 10)
  else if 'A' ≤ c ∧ c ≤ 'F' then some (c.toNat - 'A'.toNat + 10)
  else none

/-- The first half of a surrogate pair. -/
def isHighSurrogate (unit : Nat) : Bool := 0xD800 ≤ unit && unit < 0xDC00

/-- The second half of a surrogate pair. -/
def isLowSurrogate (unit : Nat) : Bool := 0xDC00 ≤ unit && unit < 0xE000

/-- The character that a pair of surrogates stands for. -/
def pairedChar (high low : Nat) : Char :=
  Char.ofNat (0x10000 + (high - 0xD800) * 0x400 + (low - 0xDC00))

/-- The character that a backslash makes of the one behind it. -/
def unescape? (c : Char) : Option Char :=
  if c = '"' ∨ c = '\\' ∨ c = '/' then some c
  else if c = 'b' then some '\x08'
  else if c = 'f' then some '\x0c'
  else if c = 'n' then some '\n'
  else if c = 'r' then some '\r'
  else if c = 't' then some '\t'
  else none

/-- A piece of a text: a character, or a 16 bit unit that an escape names by its digits. -/
inductive Piece
  | char (c : Char)
  | unit (value : Nat)

/-- How far an escape has been read. -/
inductive Escape
  | absent
  /-- The backslash has been read. -/
  | begun
  /-- Some hexadecimal digits have been read and this many are still to come. -/
  | digits (more value : Nat)

/-- The pieces of a text behind its opening quote, and what follows its closing one. `done` holds
the pieces read so far, last first. -/
def pieces? (done : List Piece) : Escape → List Char → Option (List Piece × List Char)
  | _, [] => none
  | .absent, c :: rest =>
    if c = '"' then some (done.reverse, rest)
    else if c = '\\' then pieces? done .begun rest
    else if c.toNat < 32 then none
    else pieces? (.char c :: done) .absent rest
  | .begun, c :: rest =>
    if c = 'u' then pieces? done (.digits 3 0) rest
    else match unescape? c with
      | some c => pieces? (.char c :: done) .absent rest
      | none => none
  | .digits more value, c :: rest =>
    match hexValue? c, more with
    | none, _ => none
    | some digit, 0 => pieces? (.unit (16 * value + digit) :: done) .absent rest
    | some digit, more + 1 => pieces? done (.digits more (16 * value + digit)) rest

/-- The characters of a text, surrogate pairs joined; nothing if half of a pair stands alone. `done`
holds the characters so far, last first. -/
def join? (done : List Char) : List Piece → Option (List Char)
  | [] => some done.reverse
  | .char c :: rest => join? (c :: done) rest
  | .unit high :: .unit low :: rest =>
    if isHighSurrogate high then
      if isLowSurrogate low then join? (pairedChar high low :: done) rest else none
    else if isLowSurrogate high then none
    else join? (Char.ofNat high :: done) (.unit low :: rest)
  | .unit value :: rest =>
    if isHighSurrogate value || isLowSurrogate value then none
    else join? (Char.ofNat value :: done) rest

/-- A text behind its opening quote, and what follows its closing one. -/
def text? (cs : List Char) : Option (Option String × List Char) :=
  (pieces? [] .absent cs).map fun (pieces, rest) => ((join? [] pieces).map String.ofList, rest)

/-- The digits at the start of the characters and what follows them; there must be one at least. -/
def digits? (cs : List Char) : Option (List Char × List Char) :=
  if (cs.takeWhile Char.isDigit).isEmpty then none
  else some (cs.takeWhile Char.isDigit, cs.dropWhile Char.isDigit)

/-- The digits behind a point, if the characters start with one. -/
def fraction? : List Char → Option (Option (List Char) × List Char)
  | '.' :: rest => (digits? rest).map fun (digits, rest) => (some digits, rest)
  | cs => some (none, cs)

/-- The exponent, if the characters start with one. -/
def exponent? (cs : List Char) : Option (Option Int × List Char) :=
  match cs with
  | mark :: rest =>
    if mark = 'e' ∨ mark = 'E' then
      let (negative, rest) := splitSign rest
      (digits? rest).map fun (digits, rest) =>
        let value : Int := ofDecimalDigits digits
        (some (if negative then -value else value), rest)
    else some (none, cs)
  | [] => some (none, cs)

/-- The digits of a number before the point: a zero stands alone. -/
def whole? (cs : List Char) : Option (List Char × List Char) :=
  match digits? cs with
  | some ('0' :: _ :: _, _) => none
  | other => other

def numeral? (cs : List Char) : Option (Numeral × List Char) := do
  let (negative, cs) := match cs with
    | '-' :: rest => (true, rest)
    | cs => (false, cs)
  let (whole, cs) ← whole? cs
  let (fraction, cs) ← fraction? cs
  let (exponent, cs) ← exponent? cs
  return (⟨negative, whole, fraction, exponent⟩, cs)

mutual

/-- A value and what follows it. The first argument bounds the nesting of the calls. -/
def value? : Nat → List Char → Option (Written × List Char)
  | 0, _ => none
  | room + 1, cs =>
    match skipSpace cs with
    | 'n' :: 'u' :: 'l' :: 'l' :: rest => some (.null, rest)
    | 't' :: 'r' :: 'u' :: 'e' :: rest => some (.boolean true, rest)
    | 'f' :: 'a' :: 'l' :: 's' :: 'e' :: rest => some (.boolean false, rest)
    | '"' :: rest => (text? rest).map fun (value, rest) => (.text value, rest)
    | '[' :: rest =>
      match skipSpace rest with
      | ']' :: rest => some (.array [], rest)
      | rest => (items? room rest).map fun (items, rest) => (.array items, rest)
    | '\x7b' :: rest =>
      match skipSpace rest with
      | '\x7d' :: rest => some (.object [], rest)
      | rest => (members? room rest).map fun (members, rest) => (.object members, rest)
    | cs => (numeral? cs).map fun (numeral, rest) => (.number numeral, rest)

/-- One or more items up to the closing bracket. -/
def items? : Nat → List Char → Option (List Written × List Char)
  | 0, _ => none
  | room + 1, cs =>
    match value? room cs with
    | none => none
    | some (item, rest) =>
      match skipSpace rest with
      | ']' :: rest => some ([item], rest)
      | ',' :: rest => (items? room rest).map fun (items, rest) => (item :: items, rest)
      | _ => none

/-- One or more members up to the closing brace. -/
def members? : Nat → List Char → Option (List (Option String × Written) × List Char)
  | 0, _ => none
  | room + 1, cs =>
    match skipSpace cs with
    | '"' :: rest =>
      match text? rest with
      | none => none
      | some (name, rest) =>
        match skipSpace rest with
        | ':' :: rest =>
          match value? room rest with
          | none => none
          | some (value, rest) =>
            match skipSpace rest with
            | '\x7d' :: rest => some ([(name, value)], rest)
            | ',' :: rest =>
              (members? room rest).map fun (members, rest) => ((name, value) :: members, rest)
            | _ => none
        | _ => none
    | _ => none

end

/-- Reads a text that holds one document and nothing else. No call of the reader is nested deeper
than twice the length of the text. -/
def parse? (source : String) : Option Written :=
  let cs := source.toList
  match value? (2 * cs.length + 1) cs with
  | some (document, rest) => if (skipSpace rest).isEmpty then some document else none
  | none => none

mutual

/-- The value of a document in which no more than `room` arrays and objects are nested. -/
def toJson? (room : Nat) : Written → Option Json
  | .null => some .null
  | .boolean value => some (.boolean value)
  | .number numeral => numeral.number?.map .number
  | .text value => value.map .text
  | .array items => if room = 0 then none else (toItems? (room - 1) items).map .array
  | .object members =>
    if room = 0 then none
    else (toMembers? (room - 1) members).map fun members => .object (Keyed.ofList members)

def toItems? (room : Nat) : List Written → Option (List Json)
  | [] => some []
  | item :: rest =>
    match toJson? room item, toItems? room rest with
    | some item, some rest => some (item :: rest)
    | _, _ => none

def toMembers? (room : Nat) : List (Option String × Written) → Option (List (String × Json))
  | [] => some []
  | (name, value) :: rest =>
    match name, toJson? room value, toMembers? room rest with
    | some name, some value, some rest => some ((name, value) :: rest)
    | _, _, _ => none

end

/-- How many arrays and objects can be nested in a document, the outermost included. -/
def maxNesting : Nat := 127

end Written

/-- The value of a JSON text. -/
def Json.parse? (source : String) : Option Json :=
  (Written.parse? source).bind (Written.toJson? Written.maxNesting)

end DecisionGraph
