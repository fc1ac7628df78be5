import DecisionGraph.Json.Basic

/-!
# What a comparison says about the things it compares

A changed entity carries a `Change`. Whether an entity moved and whether it was modified are two
questions: one that was modified may also have moved. Unchanged entities carry none.
-/

namespace DecisionGraph

/-- The change of one field, with the value it had before where that is recorded. -/
structure FieldChange where
  previous : Option Json

/-- Changed fields by name. -/
abbrev FieldChanges := Keyed FieldChange

/-- How an entity changed. -/
inductive Change
  | added
  | removed
  /-- It has moved and is the same otherwise. -/
  | moved
  /-- Some of its fields changed, and it may have moved, too. -/
  | modified (fields : FieldChanges) (alsoMoved : Bool)

namespace Change

/-- The change of an entity that is in both snapshots: none if nothing changed. -/
def ofPair? (fields : FieldChanges) (hasMoved : Bool) : Option Change :=
  if fields.isEmpty then if hasMoved then some .moved else none
  else some (.modified fields hasMoved)

def fields : Change → FieldChanges
  | .modified fields _ => fields
  | _ => []

def hasMoved : Change → Bool
  | .moved => true
  | .modified _ alsoMoved => alsoMoved
  | _ => false

def isRemoved : Change → Bool
  | .removed => true
  | _ => false

/-- Whether the entity is the same but for its place. -/
def isMove : Change → Bool
  | .moved => true
  | _ => false

def status : Change → String
  | .added => "added"
  | .removed => "removed"
  | .moved => "moved"
  | .modified .. => "modified"

end Change

/-- A row of a list that was compared row by row. A removed row stands with its previous value. -/
structure ComparedRow where
  value : Json
  change : Option Change

/-- The changes between the contents of two nodes of one kind. -/
structure ComparedContent where
  fields : FieldChanges
  /-- The rows of every list of which some row changed or moved. -/
  lists : Keyed (List ComparedRow)

namespace ComparedContent

def empty : ComparedContent := ⟨[], []⟩

/-- Whether anything but the order of rows changed. -/
def hasChanges (diff : ComparedContent) : Bool := !diff.fields.isEmpty

end ComparedContent

/-! ## As JSON -/

def FieldChange.toJson (diff : FieldChange) : Json :=
  .object <| ("status", .text "modified") ::
    (diff.previous.map fun value => ("previousValue", value)).toList

/-- A member that is left out if it has no parts. -/
def nonEmptyMember {α : Type} (name : String) (parts : Keyed α) (toJson : α → Json) :
    List (String × Json) :=
  if parts.isEmpty then [] else [(name, .object (Keyed.mapValues toJson parts))]

def Change.toJson (change : Change) : Json :=
  .object <| [("status", .text change.status), ("moved", .boolean change.hasMoved)] ++
    nonEmptyMember "fields" change.fields FieldChange.toJson

/-- The member that holds a change, left out if there is none. -/
def changeMember (change : Option Change) : List (String × Json) :=
  (change.map fun change => ("diff", change.toJson)).toList

def ComparedRow.toJson (row : ComparedRow) : Json :=
  .object (("value", row.value) :: changeMember row.change)

/-- The member that holds compared lists, left out if there are none. -/
def listsMember (lists : Keyed (List ComparedRow)) : List (String × Json) :=
  nonEmptyMember "lists" lists fun rows => .array (rows.map ComparedRow.toJson)

def ComparedContent.toJson (diff : ComparedContent) : Json :=
  .object (nonEmptyMember "fields" diff.fields FieldChange.toJson ++ listsMember diff.lists)

end DecisionGraph
