import DecisionGraph.Double.Decimal

/-!
# Doubles as they are typed in

A number that a person types is read more freely than one in a document: a plus sign may stand in
front, digits may be missing on one side of the point, and infinity has a name.
-/

namespace DecisionGraph.Double

/-- The number that a text of nothing but decimal digits stands for. -/
def digits? (cs : List Char) : Option Nat :=
  if !cs.isEmpty && cs.all Char.isDigit then some (ofDecimalDigits cs) else none

/-- An exponent behind its letter. -/
def typedExponent? (cs : List Char) : Option Int :=
  let (negative, rest) := splitSign cs
  (digits? rest).map fun n => if negative then -(n : Int) else n

/-- A number without a sign: digits with a point among them, before them or behind them, or none,
and an exponent, or none. -/
def typedNumeral? (cs : List Char) : Option Double := do
  let (mantissa, behind) := cs.span fun c => !(c == 'e' || c == 'E')
  let (whole, fraction) := mantissa.span (· != '.')
  let fraction := fraction.drop 1
  let digits ← digits? (whole ++ fraction)
  let exponent ← match behind with
    | [] => some 0
    | _ :: exponent => typedExponent? exponent
  return ofDecimal digits (exponent - fraction.length)

/-- The double that a typed text stands for. The names of infinity may be written in capitals. -/
def ofTyped? (text : String) : Option Double :=
  let (negative, rest) := splitSign text.toList
  let name := (String.ofList rest).toLower
  let absolute? :=
    if name = "inf" ∨ name = "infinity" then some ⟨false, infinite⟩ else typedNumeral? rest
  absolute?.map fun absolute => ⟨negative, absolute.magnitude⟩

end DecisionGraph.Double
