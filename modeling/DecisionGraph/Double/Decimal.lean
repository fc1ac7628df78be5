import DecisionGraph.Double.Basic

/-!
# Doubles and decimal digits

Two directions. `Double.ofDecimal` rounds `digits * 10 ^ exponent` to the nearest double.
`Double.shortest` finds the fewest decimal digits that lie nearer to a magnitude than to any other,
and among those the ones nearest to it; reading them back gives the magnitude again.

Two layouts write the digits: `Double.positional` never uses an exponent, `Double.scientific` uses
one for very small and very large values and otherwise always has a decimal point.
-/

namespace DecisionGraph

/-- The digits of a natural number, most significant first. -/
def decimalDigits (n : Nat) : List Char := Nat.toDigits 10 n

/-- The natural number that a run of decimal digits stands for. -/
def ofDecimalDigits (digits : List Char) : Nat :=
  digits.foldl (fun n c => 10 * n + (c.toNat - '0'.toNat)) 0

/-- Whether a minus stands in front of some characters, and what follows the sign, if there is
one. -/
def splitSign : List Char → Bool × List Char
  | '-' :: rest => (true, rest)
  | '+' :: rest => (false, rest)
  | cs => (false, cs)

/-- What to do with a value halfway between two digits. -/
inductive Tie
  | toEven
  | up
deriving DecidableEq

namespace Double

/-- The magnitude nearest to `digits * 10 ^ exponent`. Beyond 310 places either way the result does
not depend on the digits any more. -/
def nearestDecimal (digits : Nat) (exponent : Int) : Nat :=
  let places := exponent + (decimalDigits digits).length
  if digits = 0 ∨ places < -330 then 0
  else if 310 < places then infinite
  else nearest (digits * tenTo exponent.toNat) (tenTo (-exponent).toNat)

/-- The double nearest to `digits * 10 ^ exponent`. -/
def ofDecimal (digits : Nat) (exponent : Int) : Double := ⟨false, nearestDecimal digits exponent⟩

/-- Decimal digits as a number, and the power of ten of the last of them. -/
structure Digits where
  /-- The digits read as one number. -/
  digits : Nat
  /-- The power of ten that multiplies them. -/
  exponent : Int
deriving DecidableEq

/-- A decimal that lies nearest to the value `numerator / denominator` among the two neighbours on
the grid of multiples of `10 ^ exponent`, provided it lies between `low / denominator` and
`high / denominator`, ends included or not. -/
def onGrid? (tie : Tie) (closed : Bool) (low numerator high denominator : Nat) (exponent : Int) :
    Option Digits :=
  let scale := tenTo (-exponent).toNat
  let unit := denominator * tenTo exponent.toNat
  let below := numerator * scale / unit
  let rest := numerator * scale % unit
  let inside (candidate : Nat) : Bool :=
    if closed then low * scale ≤ candidate * unit && candidate * unit ≤ high * scale
    else low * scale < candidate * unit && candidate * unit < high * scale
  let nearer :=
    if 2 * rest < unit then below
    else if unit < 2 * rest then below + 1
    else match tie with
      | .up => below + 1
      | .toEven => below + below % 2
  let farther := if nearer = below then below + 1 else below
  if inside nearer then some ⟨nearer, exponent⟩
  else if inside farther then some ⟨farther, exponent⟩
  else none

/-- Tries ever finer grids, the coarsest first. -/
def firstGrid (tie : Tie) (closed : Bool) (low numerator high denominator : Nat) :
    Nat → Int → Digits
  | 0, exponent =>
    ⟨numerator * tenTo (-exponent).toNat / (denominator * tenTo exponent.toNat), exponent⟩
  | more + 1, exponent =>
    match onGrid? tie closed low numerator high denominator exponent with
    | some digits => digits
    | none => firstGrid tie closed low numerator high denominator more (exponent - 1)

/-- The fewest digits that read back as a finite positive magnitude, and of those the nearest to it.

The values that read back as the magnitude reach halfway to its neighbours, the middle included if
the significand is even. Below a power of two the neighbour is only half as far. Seventeen digits
always suffice; the search starts two powers of ten above the first digit. -/
def shortest (tie : Tie) (magnitude : Nat) : Digits :=
  let m := significand magnitude
  let (numerator, denominator) := fraction magnitude
  let step := numerator / m
  let nearBelow := m = twoTo 52 ∧ 1 < magnitude / twoTo 52
  let low := if nearBelow then 4 * numerator - step else 4 * numerator - 2 * step
  let high := 4 * numerator + 2 * step
  let first : Int :=
    if denominator ≤ numerator then (decimalDigits (numerator / denominator)).length
    else 2 - ((decimalDigits (denominator / numerator)).length : Int)
  firstGrid tie (m % 2 == 0) low (4 * numerator) high (4 * denominator) 20 first

/-- Digits with their point where it belongs and no exponent. -/
def placePoint (digits : List Char) (exponent : Int) : List Char :=
  if 0 ≤ exponent then digits ++ List.replicate exponent.toNat '0'
  else
    let places := (-exponent).toNat
    if digits.length ≤ places then
      '0' :: '.' :: List.replicate (places - digits.length) '0' ++ digits
    else digits.take (digits.length - places) ++ '.' :: digits.drop (digits.length - places)

/-- The sign as it is written in front of a number. -/
def sign (x : Double) : List Char := if x.negative then ['-'] else []

/-- A number without an exponent and without a point where none is needed. A value halfway between
two shortest forms takes the larger one. -/
def positional (x : Double) : String :=
  String.ofList <| x.sign ++
    if x.magnitude = 0 then ['0']
    else if infinite ≤ x.magnitude then ['i', 'n', 'f']
    else
      let shortest := shortest .up x.magnitude
      placePoint (decimalDigits shortest.digits) shortest.exponent

/-- A number that always shows that it is no integer: with a decimal point, or, where its first
digit stands more than five places behind the point or more than fifteen before it, with a signed
exponent. -/
def scientific (x : Double) : String :=
  String.ofList <| x.sign ++
    if x.magnitude = 0 then ['0', '.', '0']
    else
      let shortest := shortest .toEven x.magnitude
      let digits := decimalDigits shortest.digits
      let first := shortest.exponent + digits.length - 1
      if first < -5 ∨ 15 < first then
        digits.take 1 ++ (if digits.length = 1 then [] else '.' :: digits.drop 1) ++
          'e' :: (if first < 0 then '-' else '+') :: decimalDigits first.natAbs
      else if 0 ≤ shortest.exponent then placePoint digits shortest.exponent ++ ['.', '0']
      else placePoint digits shortest.exponent

end Double

end DecisionGraph
