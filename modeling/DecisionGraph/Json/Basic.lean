import DecisionGraph.Keyed
import DecisionGraph.Double.Basic

/-!
# JSON values

Numbers are either integers or doubles, and the two are never equal. The members of an object stand
in the order of their names. `Json.same` is equality up to the sign of zero.
-/

namespace DecisionGraph

/-- A number of a JSON document. An integer is one that was written without point and exponent, and
lies between `-2 ^ 63` and `2 ^ 64 - 1`. -/
inductive Number
  | integer (value : Int)
  | double (value : Double)
deriving DecidableEq, Inhabited

/-- Equality of numbers: an integer never equals a double, and the two zeros are equal. -/
def Number.same : Number → Number → Bool
  | .integer a, .integer b => a == b
  | .double a, .double b => a.same b
  | _, _ => false

def Number.toDouble : Number → Double
  | .integer value => .ofInt value
  | .double value => value

inductive Json
  | null
  | boolean (value : Bool)
  | number (value : Number)
  | text (value : String)
  | array (items : List Json)
  | object (members : List (String × Json))
deriving Inhabited

namespace Json

mutual

/-- Deep equality of values, the two zeros being equal. -/
def same : Json → Json → Bool
  | .null, .null => true
  | .boolean a, .boolean b => a == b
  | .number a, .number b => a.same b
  | .text a, .text b => a == b
  | .array a, .array b => sameItems a b
  | .object a, .object b => sameMembers a b
  | _, _ => false

def sameItems : List Json → List Json → Bool
  | [], [] => true
  | a :: as, b :: bs => same a b && sameItems as bs
  | _, _ => false

def sameMembers : List (String × Json) → List (String × Json) → Bool
  | [], [] => true
  | (key, a) :: as, (key', b) :: bs => key == key' && same a b && sameMembers as bs
  | _, _ => false

end

mutual

/-- The value with the members of all its objects in the order of their names. -/
def sorted : Json → Json
  | .array items => .array (sortedItems items)
  | .object members => .object (Keyed.ofList (sortedMembers members))
  | other => other

def sortedItems : List Json → List Json
  | [] => []
  | item :: rest => sorted item :: sortedItems rest

def sortedMembers : List (String × Json) → List (String × Json)
  | [] => []
  | (name, value) :: rest => (name, sorted value) :: sortedMembers rest

end

def text? : Json → Option String
  | .text value => some value
  | _ => none

def items? : Json → Option (List Json)
  | .array items => some items
  | _ => none

def members? : Json → Option (Keyed Json)
  | .object members => some members
  | _ => none

def member? (name : String) (value : Json) : Option Json := value.members?.bind (Keyed.get? name)

def ofText? : Option String → Json
  | some value => .text value
  | none => .null

def ofBoolean? : Option Bool → Json
  | some value => .boolean value
  | none => .null

def ofNat (n : Nat) : Json := .number (.integer n)

end Json

end DecisionGraph
