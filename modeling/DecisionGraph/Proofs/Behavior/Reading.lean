import DecisionGraph.Behavior.Builtin
import Mathlib.Data.List.Forall2

/-!
# What outputs are read from

Inference does not look at a content as it is written. It looks at what its parts come to: the trimmed
expression that selects the input, the rows that have both a key and an expression, the cells that are
not blank. Contents whose parts come to the same have the same output (`ExpressionContent.infer_eq`,
`DecisionTableContent.ReadAlike.infer_eq`), however they are written.
-/

namespace DecisionGraph

/-- Options that select, loop and place alike. -/
structure Routing.Alike (a b : Routing) : Prop where
  selection : a.selection? = b.selection?
  target : a.target? = b.target?
  passesThrough : a.passesThrough = b.passesThrough
  loops : a.loops = b.loops

namespace Routing.Alike

variable {a b : Routing}

theorem refl (a : Routing) : a.Alike a := ⟨rfl, rfl, rfl, rfl⟩

theorem workingInput_eq (h : a.Alike b) (node : String) (input : Shape) :
    a.workingInput node input = b.workingInput node input := by
  unfold workingInput
  rw [h.selection, h.loops]

theorem workingOutput_eq (h : a.Alike b) (input determined : Shape) :
    a.workingOutput input determined = b.workingOutput input determined := by
  unfold workingOutput
  rw [h.target, h.passesThrough, h.loops]

end Routing.Alike

/-! ## Expressions -/

/-- Only the key and the expression of a row count, if it has both. -/
theorem ExpressionRow.inferAll_eq {rows others : List ExpressionRow}
    (h : List.Forall₂ (fun row other => row.parts? = other.parts?) rows others) (node : String)
    (working determined : Shape) :
    inferAll node rows working determined = inferAll node others working determined := by
  induction h generalizing working determined with
  | nil => rfl
  | cons hfirst _ ih =>
      unfold inferAll
      rw [hfirst]
      split
      · exact ih working determined
      · dsimp only
        rw [ih]

/-- **Expressions have the same output if their options and the parts of their rows are alike.** -/
theorem ExpressionContent.infer_eq {a b : ExpressionContent} (hrouting : a.routing.Alike b.routing)
    (hrows : List.Forall₂ (fun row other => row.parts? = other.parts?) a.expressions b.expressions)
    (node : String) (input : Shape) : a.infer node input = b.infer node input := by
  unfold infer
  rw [hrouting.workingInput_eq]
  dsimp only
  rw [ExpressionRow.inferAll_eq hrows, hrouting.workingOutput_eq]

/-! ## Decision tables -/

namespace DecisionTableContent

/-- Tables that are read alike: the same columns put out the same cells, in the same way. -/
structure ReadAlike (a b : DecisionTableContent) : Prop where
  collects : a.hitPolicy = some .collect ↔ b.hitPolicy = some .collect
  outputs : List.Forall₂ (fun column other => column.id = other.id
    ∧ Text.trimmed? column.field = Text.trimmed? other.field) a.outputs b.outputs
  rules : List.Forall₂ (fun rule other : Rule => ∀ column, rule.cell? column = other.cell? column)
    a.rules b.rules
  routing : a.routing.Alike b.routing

/-- A column is worked out from its cells alone. -/
theorem inferColumn_eq {rules others : List Rule}
    (h : List.Forall₂ (fun rule other : Rule => ∀ column, rule.cell? column = other.cell? column)
      rules others) (node : String) (working : Shape) (column : String) :
    inferColumn node working rules column = inferColumn node working others column := by
  have hcells : rules.filterMap (fun rule => rule.cell? column)
      = others.filterMap fun rule => rule.cell? column := by
    induction h with
    | nil => rfl
    | cons hfirst _ ih => rw [List.filterMap_cons, List.filterMap_cons, hfirst, ih]
  unfold inferColumn
  rw [hcells]

theorem inferColumns_eq {rules others : List Rule}
    (hrules : List.Forall₂ (fun rule other : Rule => ∀ column, rule.cell? column = other.cell? column)
      rules others) {columns columns' : List TableColumn}
    (hcolumns : List.Forall₂ (fun column other => column.id = other.id
      ∧ Text.trimmed? column.field = Text.trimmed? other.field) columns columns')
    (node : String) (working determined : Shape) :
    inferColumns node working rules columns determined
      = inferColumns node working others columns' determined := by
  induction hcolumns generalizing determined with
  | nil => rfl
  | @cons column other _ _ hfirst _ ih =>
      obtain ⟨hid, hfield⟩ := hfirst
      unfold inferColumns
      rw [hfield, hid]
      cases Text.trimmed? other.field with
      | none => exact ih determined
      | some field =>
          dsimp only
          rw [inferColumn_eq hrules, ih]

/-- **Tables that are read alike have the same output.** -/
theorem ReadAlike.infer_eq {a b : DecisionTableContent} (h : a.ReadAlike b) (node : String)
    (input : Shape) : a.infer node input = b.infer node input := by
  unfold infer
  rw [h.routing.workingInput_eq]
  dsimp only
  rw [inferColumns_eq h.rules h.outputs, h.routing.workingOutput_eq]
  simp only [h.collects]

end DecisionTableContent

end DecisionGraph
