import DecisionGraph.Json.Written

/-!
# Reading a document along an outline

An outline says which parts of a document count. Along it a document becomes a value: the members
of a record are known by one of their names and stand under the first of them in the result, other
members are skipped, and a member that is given twice spoils the document. A record may also be
written as a list of its members in order. Parts without an outline of their own are taken whole.
-/

namespace DecisionGraph

/-- Which parts of a document count. -/
inductive Outline
  /-- All of it. -/
  | whole
  /-- The items of a list. -/
  | list (item : Outline)
  /-- These members, each with the names it goes by. -/
  | record (fields : List (String × List String × Outline))

namespace Outline

/-- The member that a name belongs to: the name it goes by in the result, and its outline. -/
def field? (name : String) : List (String × List String × Outline) → Option (String × Outline)
  | [] => none
  | (first, others, outline) :: rest =>
    if name = first ∨ name ∈ others then some (first, outline) else field? name rest

mutual

/-- The value of a document along an outline, if no more than `room` levels are nested. -/
def read? (room : Nat) (outline : Outline) : Written → Option Json
  | .array items =>
    if room = 0 then none
    else match outline with
      | .whole => (Written.toItems? (room - 1) items).map .array
      | .list item => (readItems? (room - 1) item items).map .array
      | .record fields => (readPositions? (room - 1) fields items).map .array
  | .object members =>
    if room = 0 then none
    else match outline with
      | .record fields => (readMembers? (room - 1) fields members).map .object
      | _ =>
        (Written.toMembers? (room - 1) members).map fun members => .object (Keyed.ofList members)
  | scalar => scalar.toJson? room

def readItems? (room : Nat) (outline : Outline) : List Written → Option (List Json)
  | [] => some []
  | item :: rest =>
    match read? room outline item, readItems? room outline rest with
    | some item, some rest => some (item :: rest)
    | _, _ => none

/-- The values of the members of a record that is written as a list. -/
def readPositions? (room : Nat) (fields : List (String × List String × Outline)) :
    List Written → Option (List Json)
  | [] => some []
  | item :: rest =>
    match fields with
    | [] => none
    | (_, _, outline) :: fields =>
      match read? room outline item, readPositions? room fields rest with
      | some item, some rest => some (item :: rest)
      | _, _ => none

/-- The values of the known members of a record. -/
def readMembers? (room : Nat) (fields : List (String × List String × Outline)) :
    List (Option String × Written) → Option (Keyed Json)
  | [] => some []
  | (name, value) :: rest =>
    match name, readMembers? room fields rest with
    | some name, some members =>
      match field? name fields with
      | none => some members
      | some (first, outline) =>
        match read? room outline value with
        | some value =>
          if Keyed.contains first members then none else some (Keyed.insert first value members)
        | none => none
    | _, _ => none

end

end Outline

end DecisionGraph
