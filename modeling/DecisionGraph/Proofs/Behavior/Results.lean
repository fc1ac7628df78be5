import DecisionGraph.Proofs.Behavior.Stages

/-!
# Where results are found

What was put under a text is found under it, if the text is a path; under a text that is none, nothing is put
and nothing is found (`Shape.get_set`). Keys of rows, fields of columns and output paths are such texts.

* Later rows and columns can write over what earlier ones have determined, but the result of the last one is
  there (`ExpressionContent.get_determined`, `DecisionTableContent.get_determined`).
* Everything a node has determined is under its output path (`Routing.get_workingOutput`).
* So what a node works out is lost only under texts that are no paths (`results_found`). There it is lost
  without a report (`results_lost`).
-/

namespace DecisionGraph

/-- What is found of a value that was put under a text: the value, if the text is a path. -/
def Shape.found (text : String) (value : Shape) : Shape :=
  if (Path.parse text).isOk then value else .any

/-- **What was put under a text is found under it, if the text is a path.** -/
theorem Shape.get_set (text : String) (shape value : Shape) :
    (shape.set text value).get text = found text value := by
  unfold found
  cases hparse : Path.parse text with
  | error error => exact get_of_not_parse (fun path h => nomatch hparse.symm.trans h) _
  | ok path =>
      rw [set_of_parse hparse, get_of_parse hparse]
      exact getAt_setAt path shape value

/-! ## The last result -/

namespace ExpressionContent

open ExpressionRow

/-- The shape that the rows of a node determine. -/
def determined (content : ExpressionContent) (node : String) (input : Shape) : Shape :=
  (inferAll node content.expressions (content.routing.workingInput node input).1 .empty).1

/-- Rows without a key or an expression leave a stage as it is. -/
theorem run_of_parts?_eq_none {node : String} {rows : List ExpressionRow}
    (h : ∀ row ∈ rows, row.parts? = none) (stage : Stage) : stage.run node rows = stage := by
  induction rows generalizing stage with
  | nil => rfl
  | cons row rest ih =>
      obtain ⟨hrow, hrest⟩ := List.forall_mem_cons.mp h
      have hnext : stage.next node row = stage := by
        unfold Stage.next
        rw [hrow]
      rw [Stage.run_cons, hnext]
      exact ih hrest stage

/-- The result of the last row that has a key and an expression is found under its key. -/
theorem get_determined (content : ExpressionContent) (node : String) (input : Shape)
    {before after : List ExpressionRow} {row : ExpressionRow}
    (hrows : content.expressions = before ++ row :: after) {key source : String}
    (hparts : row.parts? = some (key, source)) (hlast : ∀ other ∈ after, other.parts? = none) :
    let stage := (content.start node input).run node before
    (content.determined node input).get key
      = .found key (typeOrReport node stage.working source).1 := by
  intro stage
  have hrun : (content.start node input).run node content.expressions = stage.next node row := by
    rw [hrows]
    unfold Stage.run
    rw [List.foldl_append]
    exact run_of_parts?_eq_none hlast _
  have hdetermined : content.determined node input = (stage.next node row).determined := by
    rw [← hrun]
    exact inferAll_determined node content.expressions (content.start node input)
  rw [hdetermined, Stage.next, hparts]
  exact Shape.get_set key stage.determined _

end ExpressionContent

namespace DecisionTableContent

/-- The shape that the output columns of a table determine. -/
def determined (content : DecisionTableContent) (node : String) (input : Shape) : Shape :=
  (inferColumns node (content.routing.workingInput node input).1 content.rules content.outputs .empty).1

variable {node : String} {working : Shape} {rules : List Rule}

theorem inferColumns_append (before rest : List TableColumn) (determined : Shape) :
    (inferColumns node working rules (before ++ rest) determined).1
      = (inferColumns node working rules rest
          (inferColumns node working rules before determined).1).1 := by
  induction before generalizing determined with
  | nil => rfl
  | cons column others ih =>
      rw [List.cons_append, inferColumns, inferColumns]
      cases Text.trimmed? column.field with
      | none => exact ih determined
      | some field => exact ih _

/-- Columns without a field leave what has been determined as it is. -/
theorem inferColumns_of_field_eq_none {columns : List TableColumn}
    (h : ∀ column ∈ columns, Text.trimmed? column.field = none) (determined : Shape) :
    (inferColumns node working rules columns determined).1 = determined := by
  induction columns with
  | nil => rfl
  | cons column rest ih =>
      obtain ⟨hcolumn, hrest⟩ := List.forall_mem_cons.mp h
      rw [inferColumns, hcolumn]
      exact ih hrest

/-- The result of the last column that has a field is found under its field. -/
theorem get_determined (content : DecisionTableContent) (node : String) (input : Shape)
    {before after : List TableColumn} {column : TableColumn}
    (hcolumns : content.outputs = before ++ column :: after) {field : String}
    (hfield : Text.trimmed? column.field = some field)
    (hlast : ∀ other ∈ after, Text.trimmed? other.field = none) :
    let working := (content.routing.workingInput node input).1
    (content.determined node input).get field
      = .found field (inferColumn node working content.rules column.id).1 := by
  intro working
  unfold determined
  rw [hcolumns, inferColumns_append, inferColumns, hfield]
  dsimp only
  rw [inferColumns_of_field_eq_none hlast]
  exact Shape.get_set field _ _

end DecisionTableContent

/-! ## The output path -/

/-- What a node has determined is found under its output path. -/
theorem Routing.get_workingOutput (options : Routing) (input determined : Shape) {path : String}
    (htarget : options.target? = some path) (hpasses : options.passesThrough = false) :
    (options.workingOutput input determined).get path
      = .found path (if options.loops then .array determined else determined) := by
  unfold workingOutput
  rw [htarget, hpasses]
  exact Shape.get_set path .empty _

/-- The output of an expression node is made with what its rows have determined. -/
theorem ExpressionContent.infer_output (content : ExpressionContent) (node : String) (input : Shape) :
    (content.infer node input).output
      = content.routing.workingOutput input (content.determined node input) := rfl

/-- The output of a decision table is made with what its columns have determined, as an array if it collects. -/
theorem DecisionTableContent.infer_output (content : DecisionTableContent) (node : String) (input : Shape) :
    let determined := content.determined node input
    (content.infer node input).output = content.routing.workingOutput input
      (if content.hitPolicy = some .collect then .array determined else determined) := rfl

/--
**What a node works out is lost only under texts that are no paths.**

In what the rows of an expression node determine, the result of the last row that has a key and an expression
is found under its key, and in what the output columns of a decision table determine, that of the last column
that has a field under its field. Under the output path of such a node, if its input does not pass through, all
that it determined is found, as an array if the table collects, and again if the node loops.
-/
theorem results_found (node : String) (input : Shape) :
    (∀ content : ExpressionContent,
      (∀ before row after key source, content.expressions = before ++ row :: after →
        row.parts? = some (key, source) → (∀ other ∈ after, other.parts? = none) →
        let stage := (content.start node input).run node before
        (content.determined node input).get key
          = .found key (typeOrReport node stage.working source).1)
      ∧ let result := content.determined node input
        (content.infer node input).output = content.routing.workingOutput input result
        ∧ ∀ path, content.routing.target? = some path → content.routing.passesThrough = false →
          (content.infer node input).output.get path
            = .found path (if content.routing.loops then .array result else result))
    ∧ ∀ content : DecisionTableContent,
      (∀ before column after field, content.outputs = before ++ column :: after →
        Text.trimmed? column.field = some field →
        (∀ other ∈ after, Text.trimmed? other.field = none) →
        let working := (content.routing.workingInput node input).1
        (content.determined node input).get field
          = .found field (DecisionTableContent.inferColumn node working content.rules column.id).1)
      ∧ let determined := content.determined node input
        let result := if content.hitPolicy = some .collect then .array determined else determined
        (content.infer node input).output = content.routing.workingOutput input result
        ∧ ∀ path, content.routing.target? = some path → content.routing.passesThrough = false →
          (content.infer node input).output.get path
            = .found path (if content.routing.loops then .array result else result) := by
  refine ⟨fun content => ⟨?rows, content.infer_output node input, ?rowsPlaced⟩,
    fun content => ⟨?columns, content.infer_output node input, ?columnsPlaced⟩⟩
  case rows =>
    intro before row after key source hrows hparts hlast
    exact content.get_determined node input hrows hparts hlast
  case rowsPlaced =>
    intro path htarget hpasses
    rw [content.infer_output]
    exact content.routing.get_workingOutput input _ htarget hpasses
  case columns =>
    intro before column after field hcolumns hfield hlast
    exact content.get_determined node input hcolumns hfield hlast
  case columnsPlaced =>
    intro path htarget hpasses
    rw [content.infer_output]
    exact content.routing.get_workingOutput input _ htarget hpasses

/-- A row under an item of an array, for each item of the input, and a column of a table that collects. -/
theorem results_found_collected :
    let row : ExpressionRow := ⟨none, some "a[0].b", some "1"⟩
    let rows : ExpressionContent := ⟨[row], ⟨none, some "out", none, some .loop⟩⟩
    let column : TableColumn := ⟨"c", none, some "d"⟩
    let table : DecisionTableContent :=
      ⟨some .collect, [], [column], [[("c", .text "true")]], ⟨none, some "out", none, none⟩⟩
    (rows.determined "n" .any).get "a[0].b" = .number
      ∧ (rows.infer "n" .any).output.get "out" = .array (rows.determined "n" .any)
      ∧ (table.determined "n" .any).get "d" = .boolean
      ∧ (table.infer "n" .any).output.get "out" = .array (table.determined "n" .any) := by
  intro row rows column table
  obtain ⟨hrows, htable⟩ := results_found "n" .any
  obtain ⟨hrow, -, hrowsPlaced⟩ := hrows rows
  obtain ⟨hcolumn, -, htablePlaced⟩ := htable table
  have hnumber : Shape.found "a[0].b" (typeOrReport "n" .any "1").1 = .number := rfl
  have hboolean : Shape.found "d"
      (DecisionTableContent.inferColumn "n" .any table.rules "c").1 = .boolean := rfl
  have hout (value : Shape) : Shape.found "out" value = value := rfl
  exact ⟨(hrow [] row [] "a[0].b" "1" rfl rfl (fun _ h => nomatch h)).trans hnumber,
    (hrowsPlaced "out" rfl rfl).trans (hout _),
    (hcolumn [] column [] "d" rfl rfl (fun _ h => nomatch h)).trans hboolean,
    (htablePlaced "out" rfl rfl).trans (hout _)⟩

/-- Under a text that is no path a result is lost, and so is all that a node has determined. Neither is
reported. -/
theorem results_lost :
    let nowhere : ExpressionContent := ⟨[⟨none, some "a..b", some "1"⟩], ⟨none, none, none, none⟩⟩
    let placed : ExpressionContent := ⟨[⟨none, some "a", some "1"⟩], ⟨none, some "a..b", none, none⟩⟩
    typeOrReport "n" .any "1" = (.number, [])
      ∧ nowhere.infer "n" .any = .of .empty
      ∧ (nowhere.determined "n" .any).get "a..b" = .any
      ∧ placed.infer "n" .any = .of .empty
      ∧ placed.determined "n" .any = .object [("a", .number)]
      ∧ (placed.infer "n" .any).output.get "a..b" = .any :=
  ⟨rfl, rfl, rfl, rfl, rfl, rfl⟩

end DecisionGraph
