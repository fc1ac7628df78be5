/-!
# Double precision numbers, exactly

A double is a sign and a magnitude. The magnitudes are numbered in ascending order of the values
they stand for: zero is number 0, the smallest positive value number 1, and infinity comes last.
(The number is the bit pattern of the format, so the two directions need no table.)

All arithmetic here is on natural numbers: a finite magnitude is `significand * 2 ^ exponent`, and
`Double.nearest` rounds a quotient of natural numbers to the nearest magnitude, ties to the even
one.
-/

namespace DecisionGraph

def twoTo (exponent : Nat) : Nat := Nat.pow 2 exponent

def tenTo (exponent : Nat) : Nat := Nat.pow 10 exponent

/-- A double precision number that is not a not-a-number. -/
structure Double where
  /-- Whether the sign is a minus. Zero has a sign, too. -/
  negative : Bool
  /-- The place of the absolute value in the ascending order of all of them. -/
  magnitude : Nat
deriving DecidableEq, Inhabited

namespace Double

/-- The magnitude of infinity, the last one. -/
def infinite : Nat := 2047 * twoTo 52

def zero : Double := ⟨false, 0⟩

def isFinite (x : Double) : Bool := x.magnitude < infinite

def neg (x : Double) : Double := { x with negative := !x.negative }

/-- Equality of values: the two zeros are equal. -/
def same (x y : Double) : Bool :=
  x.magnitude == y.magnitude && (x.negative == y.negative || x.magnitude == 0)

/-- The factor `m` of a finite magnitude `m * 2 ^ e`. -/
def significand (magnitude : Nat) : Nat :=
  if magnitude / twoTo 52 = 0 then magnitude else twoTo 52 + magnitude % twoTo 52

/-- The exponent `e` of a finite magnitude `m * 2 ^ e`, raised by 1074 so that it is natural. -/
def raisedExponent (magnitude : Nat) : Nat := magnitude / twoTo 52 - 1

/-- A fraction whose value is the finite magnitude: numerator and denominator. -/
def fraction (magnitude : Nat) : Nat × Nat :=
  let raised := raisedExponent magnitude
  (significand magnitude * twoTo (raised - 1074), twoTo (1074 - raised))

/-- A quotient rounded to the nearest natural number, ties to the even one. -/
def roundQuotient (numerator denominator : Nat) : Nat :=
  let quotient := numerator / denominator
  let twice := 2 * (numerator % denominator)
  if twice < denominator then quotient
  else if denominator < twice then quotient + 1
  else quotient + quotient % 2

/-- The magnitude nearest to a quotient, ties to the even one, and infinity from half a step beyond
the last finite value on. -/
def nearest (numerator denominator : Nat) : Nat :=
  if numerator = 0 then 0
  else
    -- the least exponent for which the significand has no more than 53 bits: the lengths of numerator
    -- and denominator give it up to one, as the quotient at that exponent has 52 or 53 bits
    let guess := numerator.log2 + 1074 - 52 - denominator.log2
    let tooShort := numerator * twoTo 1074 < twoTo 52 * denominator * twoTo guess
    let raised := if tooShort then guess - 1 else guess
    let rounded := roundQuotient (numerator * twoTo 1074) (denominator * twoTo raised)
    -- a significand that rounds up to 54 bits is the first one of the next exponent, and the sum
    -- gets that right by itself
    min infinite (raised * twoTo 52 + rounded)

def ofNat (n : Nat) : Double := ⟨false, nearest n 1⟩

def ofInt (i : Int) : Double := ⟨decide (i < 0), nearest i.natAbs 1⟩

def mulMagnitude (x y : Nat) : Nat :=
  let (xn, xd) := fraction x
  let (yn, yd) := fraction y
  nearest (xn * yn) (xd * yd)

/-- The quotient of a finite magnitude and a positive finite magnitude, rounded. -/
def divMagnitude (x y : Nat) : Nat :=
  let (xn, xd) := fraction x
  let (yn, yd) := fraction y
  nearest (xn * yd) (xd * yn)

/-- The same number among the machine's floating point numbers. -/
def toFloat (x : Double) : Float :=
  Float.ofBits (UInt64.ofNat (x.magnitude + if x.negative then twoTo 63 else 0))

end Double

end DecisionGraph
