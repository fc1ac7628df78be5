import DecisionGraph.Json.Printer

/-!
# How a value fails to be what is expected of it
-/

namespace DecisionGraph

/-- What a place in a document asks for. -/
inductive Wanted
  | text
  | flag
  | list
  | map
  /-- The name of a choice, or an object with the name as its only key. -/
  | choice
  /-- Nothing beside the name of a choice. -/
  | nothing
  /-- An object of a named record type. -/
  | record (name : String)
deriving DecidableEq

def Wanted.print : Wanted → String
  | .text => "a string"
  | .flag => "a boolean"
  | .list => "a sequence"
  | .map => "a map"
  | .choice => "string or map"
  | .nothing => "unit"
  | .record name => "struct " ++ name

def Json.describe : Json → String
  | .null => "null"
  | .boolean true => "boolean \x60true\x60"
  | .boolean false => "boolean \x60false\x60"
  | .number (.integer value) => "integer \x60" ++ toString value ++ "\x60"
  | .number (.double value) => "floating point \x60" ++ value.scientific ++ "\x60"
  | .text value => "string " ++ Text.quote value
  | .array _ => "sequence"
  | .object _ => "map"

/-- Why a value does not fit. -/
inductive Mismatch
  /-- The value is of another type. -/
  | wrongType (found : Json) (wanted : Wanted)
  /-- A record lacks a member that it has to have. -/
  | missingField (name : String)
  /-- A list that stands for a record ends before an item that it has to have. -/
  | tooShort (length : Nat) (record : String) (fields : Nat)
  /-- A list that stands for a record has more items than the record has members. -/
  | tooLong (length : Nat)
  /-- A name is none of the two that can be chosen from. -/
  | unknownChoice (name first second : String)
  /-- An object that stands for a choice has no key or several. -/
  | notOneKey
  /-- The source of a function is given in none of its forms. -/
  | noForm

def Mismatch.message : Mismatch → String
  | .wrongType found wanted => "invalid type: " ++ found.describe ++ ", expected " ++ wanted.print
  | .missingField name => "missing field \x60" ++ name ++ "\x60"
  | .tooShort length record fields =>
    "invalid length " ++ toString length ++ ", expected struct " ++ record ++ " with " ++
      toString fields ++ " elements"
  | .tooLong length =>
    "invalid length " ++ toString length ++ ", expected fewer elements in array"
  | .unknownChoice name first second =>
    "unknown variant \x60" ++ name ++ "\x60, expected \x60" ++ first ++ "\x60 or \x60" ++ second ++
      "\x60"
  | .notOneKey => "invalid value: map, expected map with a single key"
  | .noForm => "data did not match any variant of untagged enum FunctionContent"

end DecisionGraph
