import DecisionGraph.Content.Mismatch

/-!
# Reading typed parts of a JSON value

Records are read from objects, member by member in the order of the names, so that the first member
that does not fit is reported. Unknown members do not matter. Some records are also read from lists,
whose items are the members in the order of their declaration.
-/

namespace DecisionGraph

/-- Reads a part of type `α`. -/
abbrev Decoder (α : Type) := Json → Except Mismatch α

namespace Decode

def text : Decoder String
  | .text value => .ok value
  | other => .error (.wrongType other .text)

def flag : Decoder Bool
  | .boolean value => .ok value
  | other => .error (.wrongType other .flag)

def anything : Decoder Json := .ok

def map : Decoder (Keyed Json)
  | .object members => .ok members
  | other => .error (.wrongType other .map)

/-- A part that may be `null`. -/
def optional {α : Type} (decode : Decoder α) : Decoder (Option α)
  | .null => .ok none
  | other => (decode other).map some

/-- Parts in order, up to the first that does not fit. -/
def each {α : Type} (decode : Decoder α) : List Json → Except Mismatch (List α)
  | [] => .ok []
  | item :: rest => do
    let part ← decode item
    let parts ← each decode rest
    return part :: parts

def list {α : Type} (decode : Decoder α) : Decoder (List α)
  | .array items => each decode items
  | other => .error (.wrongType other .list)

/-- The part under a name, and `missing` if there is nothing under it. -/
def member {α : Type} (members : Keyed Json) (name : String) (missing : α) (decode : Decoder α) :
    Except Mismatch α :=
  match Keyed.get? name members with
  | some value => decode value
  | none => .ok missing

/-- The part at a position of a list, and `missing` behind its end. -/
def item {α : Type} (items : List Json) (position : Nat) (missing : α) (decode : Decoder α) :
    Except Mismatch α :=
  match items[position]? with
  | some value => decode value
  | none => .ok missing

/-- Refuses a list with more items than a record has members. -/
def noMoreThan (fields : Nat) (items : List Json) : Except Mismatch Unit :=
  if fields < items.length then .error (.tooLong items.length) else .ok ()

/-- A record that is an object or a list. -/
def record {α : Type} (name : String) (fields : Nat) (ofMembers : Keyed Json → Except Mismatch α)
    (ofItems : List Json → Except Mismatch α) : Decoder α
  | .object members => ofMembers members
  | .array items => do
    let value ← ofItems items
    noMoreThan fields items
    return value
  | other => .error (.wrongType other (.record name))

/-- A record that is an object and nothing else. -/
def objectRecord {α : Type} (name : String) (ofMembers : Keyed Json → Except Mismatch α) : Decoder α
  | .object members => ofMembers members
  | other => .error (.wrongType other (.record name))

/-- What stands beside a chosen name has to be `null`. If `bare` objects are allowed, an empty one
will do, too. -/
def nothing (bare : Bool) : Decoder Unit
  | .null => .ok ()
  | .object [] => if bare then .ok () else .error (.wrongType (.object []) .nothing)
  | other => .error (.wrongType other .nothing)

def named {α : Type} (first second : String × α) (name : String) : Except Mismatch α :=
  if name = first.1 then .ok first.2
  else if name = second.1 then .ok second.2
  else .error (.unknownChoice name first.1 second.1)

/-- A choice between two: a name, or an object with the name as its only key and nothing beside
it. -/
def choice {α : Type} (bare : Bool) (first second : String × α) : Decoder α
  | .text name => named first second name
  | .object [(name, value)] => do
    let chosen ← named first second name
    nothing bare value
    return chosen
  | .object _ => .error .notOneKey
  | other => .error (.wrongType other .choice)

end Decode

end DecisionGraph
