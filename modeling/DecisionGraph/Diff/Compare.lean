import DecisionGraph.Diff.Align
import DecisionGraph.Diff.Change
import DecisionGraph.Text.Class

/-!
# Comparing fields and lists

Texts are compared without the white space around them, a missing text being empty and a missing
flag false; other values by deep equality. Lists are aligned, and their paired rows compared one
by one.
-/

namespace DecisionGraph

/-- Compares two texts. The value recorded is the previous text with its white space. -/
def FieldChange.ofTexts? (previous current : Option String) : Option FieldChange :=
  if Text.trim (previous.getD "") = Text.trim (current.getD "") then none
  else some ⟨previous.map .text⟩

def FieldChange.ofFlags? (previous current : Option Bool) : Option FieldChange :=
  if previous.getD false = current.getD false then none else some ⟨previous.map .boolean⟩

def FieldChange.ofValues? (previous current : Json) : Option FieldChange :=
  if previous.same current then none else some ⟨some previous⟩

def changedFields (compared : List (String × Option FieldChange)) : FieldChanges :=
  Keyed.ofList (compared.filterMap fun (name, diff) => diff.map fun diff => (name, diff))

/-- How the rows of a list are told apart, written and compared. -/
structure RowRule (α : Type) where
  label : α → Label
  toJson : α → Json
  compare : α → α → FieldChanges

namespace RowRule

variable {α : Type}

/-- The row of an alignment's entry. -/
def row (rule : RowRule α) : Slot α → ComparedRow
  | .paired previous current moved =>
    ⟨rule.toJson current.item,
      Change.ofPair? (rule.compare previous.item current.item) moved⟩
  | .added current => ⟨rule.toJson current.item, some .added⟩
  | .removed previous => ⟨rule.toJson previous.item, some .removed⟩

/-- Compares two lists row by row. -/
def rows (rule : RowRule α) (previous current : List α) : List ComparedRow :=
  (align rule.label previous current).map rule.row

end RowRule

namespace ComparedRow

/-- Whether the row was added, removed or modified. -/
def isChanged (row : ComparedRow) : Bool := row.change.any fun change => !change.isMove

/-- Whether the row has moved and is the same otherwise. -/
def isMove (row : ComparedRow) : Bool := row.change.any Change.isMove

end ComparedRow

/-- The changes that compared fields and compared lists make up. A list counts as a changed field if
one of its rows changed; its rows are kept if one of them changed or moved. -/
def ComparedContent.of (compared : List (String × Option FieldChange))
    (lists : List (String × List ComparedRow)) : ComparedContent :=
  let changedLists := lists.filter fun (_, rows) => rows.any ComparedRow.isChanged
  let keptLists := lists.filter fun (_, rows) => rows.any fun row => row.change.isSome
  { fields := Keyed.union (changedFields compared)
      (changedLists.map fun (name, _) => (name, ⟨none⟩))
    lists := Keyed.ofList keptLists }

end DecisionGraph
