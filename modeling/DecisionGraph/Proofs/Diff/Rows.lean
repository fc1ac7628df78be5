import DecisionGraph.Proofs.Behavior.Fits
import DecisionGraph.Proofs.Diff.Conservation
import DecisionGraph.Proofs.Diff.Rewiring

/-!
# Reports of rows

Contents of some kinds hold lists (`Kind.rowFields`). What is reported of a list says neither too much nor too
little (`Kind.compare_accounts`):

* **The list counts as a changed field** if some row was added, removed or modified. No compared field has the
  name of a list, so nothing else can put the name there.
* **Its rows are kept** if some row is annotated, and then they account for both lists
  (`RowRule.rows_accounts`): leaving out what was removed gives the current list, and leaving out what was
  added gives the previous one, each row once.
* **Rows that are not kept** match in order, one by one, so nothing is lost with them.

Nothing is asked of the labels of rows: ids, fingerprints and rows without either may be mixed, and may be
repeated.
-/

namespace DecisionGraph

/-! ## Rows of both lists -/

namespace RowRule

variable {α : Type} (rule : RowRule α)

/-- What a row that is not new says of a previous row: that it was removed, with what it was, or how it
changed into the current row that has its label. -/
def Reports (current : List α) (old : α) (row : ComparedRow) : Prop :=
  (row.change = some .removed ∧ row.value = rule.toJson old)
    ∨ ∃ new ∈ current, ∃ moved, rule.label old = rule.label new ∧ row.value = rule.toJson new
      ∧ row.change = Change.ofPair? (rule.compare old new) moved

/-- Compared rows account for two lists of rows. -/
structure Accounts (previous current : List α) (rows : List ComparedRow) : Prop where
  /-- Rows that are not gone are the current rows in order. -/
  kept : (rows.filter fun row => !isGone row.change).map ComparedRow.value = current.map rule.toJson
  /-- Rows that are not new correspond to the previous rows one to one. -/
  old : ∃ olds, olds.Perm previous
    ∧ List.Forall₂ (rule.Reports current) olds (rows.filter fun row => !isNew row.change)

variable {rule} {previous current : List α}

theorem isGone_row (slot : Slot α) : isGone (rule.row slot).change = slot.isRemoved := by
  cases slot with
  | added | removed => rfl
  | paired previous current moved => exact Change.ofPair?_not_gone _ _

theorem isNew_row (slot : Slot α) : isNew (rule.row slot).change = slot.isAdded := by
  cases slot with
  | added | removed => rfl
  | paired previous current moved => exact Change.ofPair?_not_new _ _

/-- The rows that are not gone are the current rows, as they stand. -/
theorem rows_current (rule : RowRule α) (previous current : List α) :
    ((rule.rows previous current).filter fun row => !isGone row.change).map ComparedRow.value
      = current.map rule.toJson := by
  have hkept : ∀ slots : List (Slot α),
      ((slots.map rule.row).filter fun row => !isGone row.change).map ComparedRow.value
        = ((slots.filterMap Slot.current?).map Placed.item).map rule.toJson := by
    intro slots
    induction slots with
    | nil => rfl
    | cons slot rest ih =>
        rw [List.map_cons, List.filter_cons, isGone_row]
        cases slot with
        | removed old => exact ih
        | added new => exact congrArg (rule.toJson new.item :: ·) ih
        | paired old new moved => exact congrArg (rule.toJson new.item :: ·) ih
  unfold rows
  rw [hkept, align_current, placed_item]

/-- The rows that are not new report the previous rows, one by one. -/
theorem rows_previous (rule : RowRule α) (previous current : List α) :
    List.Forall₂ (rule.Reports current)
      (((align rule.label previous current).filterMap Slot.previous?).map Placed.item)
      ((rule.rows previous current).filter fun row => !isNew row.change) := by
  have hold : ∀ slots : List (Slot α), (∀ slot ∈ slots, slot ∈ align rule.label previous current) →
      List.Forall₂ (rule.Reports current) ((slots.filterMap Slot.previous?).map Placed.item)
        ((slots.map rule.row).filter fun row => !isNew row.change) := by
    intro slots
    induction slots with
    | nil => exact fun _ => .nil
    | cons slot rest ih =>
        intro hslots
        obtain ⟨hslot, hrest⟩ := List.forall_mem_cons.mp hslots
        have hrows := ih hrest
        rw [List.map_cons, List.filter_cons, isNew_row]
        cases slot with
        | added new => exact hrows
        | removed old => exact .cons (Or.inl ⟨rfl, rfl⟩) hrows
        | paired old new moved =>
            obtain ⟨-, hnew, hlabel, -⟩ := Paired.spec ⟨moved, hslot⟩
            have hmem := List.mem_of_getElem? (mem_placed.mp hnew)
            exact .cons (Or.inr ⟨new.item, hmem, moved, hlabel, rfl, rfl⟩) hrows
  exact hold _ fun _ hslot => hslot

/-- **Compared rows account for both lists.** -/
theorem rows_accounts (rule : RowRule α) (previous current : List α) :
    rule.Accounts previous current (rule.rows previous current) where
  kept := rule.rows_current previous current
  old := by
    refine ⟨_, ?_, rule.rows_previous previous current⟩
    have hperm := (align_previous_perm rule.label previous current).map Placed.item
    rwa [placed_item] at hperm

end RowRule

/-! ## Lists in compared contents -/

namespace ComparedRow

/-- Whether the row was added, removed or modified, by its status. -/
def IsEdited (row : ComparedRow) : Prop :=
  ∃ change ∈ row.change, change.status ∈ ["added", "removed", "modified"]

theorem isChanged_iff {row : ComparedRow} : row.isChanged = true ↔ row.IsEdited := by
  unfold isChanged IsEdited
  cases row.change with
  | none => simp
  | some change => cases change <;> simp [Change.isMove, Change.status]

end ComparedRow

namespace ComparedContent

variable {compared : List (String × Option FieldChange)} {lists : List (String × List ComparedRow)}
  {name : String} {rows : List ComparedRow}

/-- A list whose name is no field counts as a changed field if some of its rows changed. -/
theorem mem_names_of_fields (hlists : (lists.map Prod.fst).Nodup) (hmem : (name, rows) ∈ lists)
    (hfield : name ∉ compared.map Prod.fst) :
    name ∈ Keyed.names (ComparedContent.of compared lists).fields ↔ ∃ row ∈ rows, row.IsEdited := by
  have hnot : name ∉ Keyed.names (changedFields compared) := by
    rw [mem_names_changedFields]
    rintro ⟨diff, hdiff⟩
    exact hfield (List.mem_map_of_mem (f := Prod.fst) hdiff)
  unfold ComparedContent.of
  dsimp only
  rw [Keyed.mem_names_union, or_iff_right hnot, Keyed.names, List.map_map, List.mem_map]
  simp only [← ComparedRow.isChanged_iff, ← List.any_eq_true]
  constructor
  · rintro ⟨list, hlist, heq⟩
    obtain ⟨hlist, hchanged⟩ := List.mem_filter.mp hlist
    obtain rfl := List.inj_on_of_nodup_map hlists hlist hmem heq
    exact hchanged
  · exact fun hchanged => ⟨_, List.mem_filter.mpr ⟨hmem, hchanged⟩, rfl⟩

/-- The rows of a list are kept if some of them are annotated. -/
theorem get?_of_lists (hlists : (lists.map Prod.fst).Nodup) (hmem : (name, rows) ∈ lists) :
    Keyed.get? name (ComparedContent.of compared lists).lists
      = if ∃ row ∈ rows, row.change ≠ none then some rows else none := by
  have hkept : ((lists.filter fun list => list.2.any fun row => row.change.isSome).map Prod.fst).Nodup :=
    hlists.sublist (List.filter_sublist.map Prod.fst)
  have hannotated : (rows.any fun row => row.change.isSome) = true ↔ ∃ row ∈ rows, row.change ≠ none := by
    simp only [List.any_eq_true, Option.isSome_iff_ne_none]
  unfold ComparedContent.of
  dsimp only
  split
  · rename_i hsome
    exact Keyed.get?_ofList_of_mem hkept (List.mem_filter.mpr ⟨hmem, hannotated.mpr hsome⟩)
  · rename_i hnone
    rw [Option.eq_none_iff_forall_ne_some]
    intro found hfound
    obtain ⟨hlist, hsome⟩ := List.mem_filter.mp (Keyed.mem_of_get?_ofList hfound)
    obtain ⟨-, rfl⟩ := Prod.mk.inj (List.inj_on_of_nodup_map hlists hlist hmem rfl)
    exact hnone (hannotated.mp hsome)

end ComparedContent

/-! ## The lists of the known kinds -/

/-- A list in the contents of a kind: its name, how its rows are compared, and the rows of a content. -/
structure RowField where
  name : String
  Row : Type
  rule : RowRule Row
  rows : Json → List Row

namespace RowField

/-- The list with the rows that are read from contents of a kind. Content that does not fit has none. -/
def ofDecoded {α Row : Type} (name : String) (rule : RowRule Row) (kind : Kind) (decode : Decoder α)
    (rows : α → List Row) : RowField :=
  ⟨name, Row, rule, fun content => (decodeContent kind.tag decode content).toOption.elim [] rows⟩

/-- The rows of two contents, compared. -/
def compared (field : RowField) (previous current : Json) : List ComparedRow :=
  field.rule.rows (field.rows previous) (field.rows current)

theorem compared_ofDecoded {α Row : Type} (name : String) (rule : RowRule Row) {kind : Kind}
    {decode : Decoder α} (rows : α → List Row) {previous current : Json} {before after : α}
    (hbefore : decodeContent kind.tag decode previous = .ok before)
    (hafter : decodeContent kind.tag decode current = .ok after) :
    (ofDecoded name rule kind decode rows).compared previous current
      = rule.rows (rows before) (rows after) := by
  unfold compared ofDecoded
  dsimp only
  rw [hbefore, hafter]
  rfl

/-- What is reported of the list in two contents says neither too much nor too little. -/
structure Accounted (field : RowField) (previous current : Json) (diff : ComparedContent) : Prop where
  /-- It counts as a changed field if some row was added, removed or modified. -/
  changed : field.name ∈ Keyed.names diff.fields
    ↔ ∃ row ∈ field.compared previous current, row.IsEdited
  /-- Its rows are kept if some row is annotated. -/
  listed : field.name ∈ Keyed.names diff.lists
    ↔ ∃ row ∈ field.compared previous current, row.change ≠ none
  /-- Rows that are kept account for both lists. -/
  rows : ∀ rows, Keyed.get? field.name diff.lists = some rows →
    rows = field.compared previous current
      ∧ field.rule.Accounts (field.rows previous) (field.rows current) rows
  /-- Rows that are not kept match in order, one by one. -/
  unlisted : field.name ∉ Keyed.names diff.lists →
    List.Forall₂ field.rule.Matches (field.rows previous) (field.rows current)

/-- **Lists under names of their own are accounted for.** -/
theorem accounted {fields : List RowField} {compared : List (String × Option FieldChange)}
    (hnames : (fields.map RowField.name).Nodup)
    (hfields : ∀ field ∈ fields, field.name ∉ compared.map Prod.fst) (previous current : Json)
    {field : RowField} (hfield : field ∈ fields) :
    field.Accounted previous current
      (.of compared (fields.map fun field => (field.name, field.compared previous current))) := by
  have hlists : ((fields.map fun field => (field.name, field.compared previous current)).map
      Prod.fst).Nodup := by
    rwa [List.map_map]
  have hmem := List.mem_map_of_mem (f := fun field : RowField =>
    (field.name, field.compared previous current)) hfield
  have hget : Keyed.get? field.name (ComparedContent.of compared
      (fields.map fun field => (field.name, field.compared previous current))).lists = _ :=
    ComparedContent.get?_of_lists hlists hmem
  have hlisted : field.name ∈ Keyed.names (ComparedContent.of compared
      (fields.map fun field => (field.name, field.compared previous current))).lists
        ↔ ∃ row ∈ field.compared previous current, row.change ≠ none := by
    rw [Keyed.mem_names, hget, Option.isSome_ite]
  refine ⟨ComparedContent.mem_names_of_fields hlists hmem (hfields field hfield), hlisted, ?_, ?_⟩
  · intro rows hrows
    rw [hget] at hrows
    obtain rfl := Option.some.inj (Option.ite_none_right_eq_some.mp hrows).2
    exact ⟨rfl, field.rule.rows_accounts _ _⟩
  · intro hnot
    rw [hlisted] at hnot
    push Not at hnot
    exact RowRule.rows_unannotated.mp hnot

end RowField

/-- The lists in contents of a kind. -/
def Kind.rowFields (kind : Kind) : List RowField :=
  match kind with
  | .expression =>
    [.ofDecoded "expressions" ExpressionRow.rule kind ExpressionContent.decode
      ExpressionContent.expressions]
  | .decisionTable =>
    [.ofDecoded "inputs" TableColumn.rule kind DecisionTableContent.decode DecisionTableContent.inputs,
      .ofDecoded "outputs" TableColumn.rule kind DecisionTableContent.decode DecisionTableContent.outputs,
      .ofDecoded "rules" Rule.rowRule kind DecisionTableContent.decode DecisionTableContent.rules]
  | .switch =>
    [.ofDecoded "statements" SwitchStatement.rule kind SwitchContent.decode SwitchContent.statements]
  | _ => []

/-- Two contents, compared after both have been read. Nothing is compared of content that does not fit. -/
def comparedRead {α : Type} (kind : Kind) (decode : Decoder α)
    (compared : α → α → List (String × Option FieldChange)) (previous current : Json) :
    List (String × Option FieldChange) :=
  match decodeContent kind.tag decode previous, decodeContent kind.tag decode current with
  | .ok before, .ok after => compared before after
  | _, _ => []

theorem comparedRead_ok {α : Type} {kind : Kind} {decode : Decoder α}
    (compared : α → α → List (String × Option FieldChange)) {previous current : Json} {before after : α}
    (hbefore : decodeContent kind.tag decode previous = .ok before)
    (hafter : decodeContent kind.tag decode current = .ok after) :
    comparedRead kind decode compared previous current = compared before after := by
  unfold comparedRead
  rw [hbefore, hafter]

/-- The fields of two contents of a kind, compared, all but the lists. -/
def Kind.comparedFields (kind : Kind) (previous current : Json) : List (String × Option FieldChange) :=
  match kind with
  | .input | .output => comparedRead kind SchemaContent.decode SchemaContent.compared previous current
  | .expression => comparedRead kind ExpressionContent.decode ExpressionContent.compared previous current
  | .decisionTable =>
    comparedRead kind DecisionTableContent.decode DecisionTableContent.compared previous current
  | .switch => comparedRead kind SwitchContent.decode SwitchContent.compared previous current
  | .function => comparedRead kind FunctionContent.decode FunctionContent.compared previous current
  | .decision => comparedRead kind DecisionContent.decode DecisionContent.compared previous current
  | .custom => comparedRead kind CustomContent.decode CustomContent.compared previous current

/-- Lists go by other names than the fields beside them. -/
theorem Kind.name_not_mem_comparedFields {kind : Kind} {field : RowField} (hfield : field ∈ kind.rowFields)
    (previous current : Json) : field.name ∉ (kind.comparedFields previous current).map Prod.fst := by
  have hread : ∀ {α : Type} {decode : Decoder α} {compared : α → α → List (String × Option FieldChange)}
      (names : List String), (∀ before after, (compared before after).map Prod.fst = names) →
      field.name ∉ names →
      field.name ∉ (comparedRead kind decode compared previous current).map Prod.fst := by
    intro α decode compared names hnames hfield
    unfold comparedRead
    split
    · rwa [hnames]
    · exact List.not_mem_nil
  cases kind with
  | input | output | function | decision | custom => cases hfield
  | expression =>
      refine hread ["executionMode", "inputField", "outputPath", "passThrough"] (fun _ _ => rfl) ?_
      exact (by decide : ∀ field ∈ rowFields .expression, field.name ∉ _) field hfield
  | decisionTable =>
      refine hread ["hitPolicy", "executionMode", "inputField", "outputPath", "passThrough"]
        (fun _ _ => rfl) ?_
      exact (by decide : ∀ field ∈ rowFields .decisionTable, field.name ∉ _) field hfield
  | switch =>
      refine hread ["hitPolicy"] (fun _ _ => rfl) ?_
      exact (by decide : ∀ field ∈ rowFields .switch, field.name ∉ _) field hfield

/-- **The contents of a kind are compared by their fields and by all of their lists.** -/
theorem Kind.compare_eq_lists {kind : Kind} {previous current : Node} (h : kind.Fits previous.content)
    (h' : kind.Fits current.content) :
    kind.compare previous current = .of (kind.comparedFields previous.content current.content)
      (kind.rowFields.map fun field => (field.name, field.compared previous.content current.content)) := by
  rw [Kind.compare_eq]
  cases kind with
  | input | output | function | decision | custom =>
      obtain ⟨before, hbefore⟩ := exists_read h
      obtain ⟨after, hafter⟩ := exists_read h'
      rw [comparedFields, comparedRead_ok _ hbefore hafter]
      exact Behavior.compareRead_ok _ hbefore hafter
  | expression =>
      obtain ⟨before, hbefore⟩ := exists_read h
      obtain ⟨after, hafter⟩ := exists_read h'
      rw [comparedFields, comparedRead_ok _ hbefore hafter, Behavior.compareRead_ok _ hbefore hafter,
        rowFields, List.map_cons, List.map_nil, RowField.compared_ofDecoded _ _ _ hbefore hafter]
      rfl
  | decisionTable =>
      obtain ⟨before, hbefore⟩ := exists_read h
      obtain ⟨after, hafter⟩ := exists_read h'
      rw [comparedFields, comparedRead_ok _ hbefore hafter, Behavior.compareRead_ok _ hbefore hafter,
        rowFields, List.map_cons, List.map_cons, List.map_cons, List.map_nil,
        RowField.compared_ofDecoded _ _ _ hbefore hafter, RowField.compared_ofDecoded _ _ _ hbefore hafter,
        RowField.compared_ofDecoded _ _ _ hbefore hafter]
      rfl
  | switch =>
      obtain ⟨before, hbefore⟩ := exists_read h
      obtain ⟨after, hafter⟩ := exists_read h'
      rw [comparedFields, comparedRead_ok _ hbefore hafter, Behavior.compareRead_ok _ hbefore hafter,
        rowFields, List.map_cons, List.map_nil, RowField.compared_ofDecoded _ _ _ hbefore hafter]
      rfl

/-- No two lists of a kind go by one name. -/
theorem Kind.nodup_rowFields (kind : Kind) : (kind.rowFields.map RowField.name).Nodup := by
  cases kind <;> decide

/--
**Rows are accounted for.**

Contents that fit their kind can be compared, and then of every list in them:

* it is among the changed fields if and only if some row was added, removed or modified, and its rows are
  kept if and only if some row is annotated;
* rows that are kept are the current rows in order, as far as they are not removed, and correspond to the
  previous rows one to one, as far as they are not added; a removed row stands with what it was;
* rows that are not kept match in order, one by one, and no field of one differs from the other.
-/
theorem Kind.compare_accounts (kind : Kind) {previous current : Node} (h : kind.Fits previous.content)
    (h' : kind.Fits current.content) :
    ∃ diff, (Behavior.ofKind kind).compare previous current = .ok diff
      ∧ ∀ field ∈ kind.rowFields, field.Accounted previous.content current.content diff := by
  refine ⟨_, h.compare_ok h', fun field hfield => ?_⟩
  rw [Kind.compare_eq_lists h h']
  exact RowField.accounted kind.nodup_rowFields
    (fun field hfield => Kind.name_not_mem_comparedFields hfield _ _) _ _ hfield

/-- Rows with ids that change places, one of them edited, and a row without an id that is gone. -/
theorem Kind.compare_accounts_expression :
    let row (id key value : String) : Json :=
      .object [("id", .text id), ("key", .text key), ("value", .text value)]
    let node (rows : List Json) : Node :=
      ⟨"a", "expressionNode", "A", .object [("expressions", .array rows)], .origin⟩
    let previous := node [row "1" "x" "1", row "2" "y" "2", row "" "z" "3"]
    let current := node [row "2" "y" "4", row "1" "x" "1"]
    (∃ diff, (Behavior.ofKind .expression).compare previous current = .ok diff
        ∧ ∀ field ∈ Kind.expression.rowFields,
          field.Accounted previous.content current.content diff)
      ∧ Keyed.names (Kind.expression.compare previous current).fields = ["expressions"]
      ∧ (Keyed.get? "expressions" (Kind.expression.compare previous current).lists).map
          (List.map fun row => row.change.map fun change => (change.status, change.hasMoved))
        = some [some ("modified", true), some ("moved", true), some ("removed", false)] := by
  intro row node previous current
  have hprevious : Kind.expression.Fits previous.content := rfl
  have hcurrent : Kind.expression.Fits current.content := rfl
  exact ⟨Kind.compare_accounts .expression hprevious hcurrent, by decide, by decide⟩

end DecisionGraph
