import DecisionGraph.Proofs.Diff.Direction
import DecisionGraph.Proofs.Diff.Layout
import DecisionGraph.Proofs.Diff.Natural
import DecisionGraph.Proofs.Diff.Rows
import DecisionGraph.Proofs.Diff.SameContent

/-!
# Rows in another order

The order of rows with ids says nothing about what they hold. Put the rows of the current lists in another
order, and a comparison finds the same in every field, and the same in every row but for its movement
(`Kind.compare_reordered`). And rows that stand in another order than before, and are the same otherwise, are
no change of their list: it is only reported which of them have moved.

1. **Rows with distinct ids are items with keys,** so what is known of alignments of nodes and edges holds of
   them: but for movement, the same is reported of the same rows in any order (`RowRule.rows_atRest_perm`).
2. **A list changed if a row did,** whichever way the rows stand, so the changed fields are the same.
3. **Between rows that are the same in another order** nothing is added and nothing is removed, so a row has
   moved exactly if it stands at another place (`RowRule.rows_of_perm`).

Where two rows have one id, or where rows are known by fingerprints, the order decides which rows are paired.
-/

namespace DecisionGraph

variable {α : Type}

/-! ## Rows with ids -/

/-- The id that an item is known by, if it is known by one. -/
def Label.id? : Label → Option String
  | .named id => some id
  | .print _ | .unmarked => none

/-- An item is known by its id unless that is empty. -/
theorem Label.id?_of (id print : Option String) : (Label.of id print).id? = id.filter (!·.isEmpty) := by
  unfold Label.of
  cases id.filter (!·.isEmpty) with
  | some id => rfl
  | none => cases print <;> rfl

/-- The item that an entry stands with: the current one if there is one. -/
def Slot.item : Slot α → α
  | .paired _ current _ => current.item
  | .added current => current.item
  | .removed previous => previous.item

/-- The row and its change, without its movement. -/
def ComparedRow.atRest (row : ComparedRow) : ComparedRow := ⟨row.value, row.change.bind Change.atRest?⟩

theorem ComparedRow.isChanged_atRest (row : ComparedRow) : row.atRest.isChanged = row.isChanged := by
  obtain ⟨value, change⟩ := row
  cases change with
  | none => rfl
  | some change => cases change <;> rfl

/-- The id that stands under a name in the row. -/
def ComparedRow.shownId (row : ComparedRow) (name : String) : String :=
  ((row.value.member? name).bind Json.text?).getD ""

namespace RowRule

variable (rule : RowRule α)

def id? (row : α) : Option String := (rule.label row).id?

/-- Every row has an id, and no two rows have the same one. -/
def Identified (rows : List α) : Prop := none ∉ rows.map rule.id? ∧ (rows.map rule.id?).Nodup

instance (rows : List α) : Decidable (rule.Identified rows) := inferInstanceAs (Decidable (_ ∧ _))

/-- Written rows hold their ids under a name. -/
def Shows (name : String) : Prop :=
  ∀ row id, rule.id? row = some id → ((rule.toJson row).member? name).bind Json.text? = some id

/-- The id of a row, as the key of an item. -/
def key (row : α) : String := (rule.id? row).getD ""

variable {rule} {previous current others : List α}

theorem Identified.perm (h : rule.Identified current) (hperm : current.Perm others) :
    rule.Identified others :=
  ⟨fun hmem => h.1 ((hperm.map _).mem_iff.mpr hmem), (hperm.map _).nodup_iff.mp h.2⟩

theorem Identified.id?_eq (h : rule.Identified current) {row : α} (hrow : row ∈ current) :
    rule.id? row = some (rule.key row) := by
  have hsome : rule.id? row ≠ none := fun hnone => h.1 (hnone ▸ List.mem_map_of_mem hrow)
  obtain ⟨id, hid⟩ := Option.ne_none_iff_exists'.mp hsome
  unfold key
  rw [hid]
  rfl

theorem Identified.label_eq (h : rule.Identified current) {row : α} (hrow : row ∈ current) :
    rule.label row = .named (rule.key row) := by
  have hid := h.id?_eq hrow
  unfold id? at hid
  cases hlabel : rule.label row with
  | named id =>
      rw [hlabel] at hid
      exact congrArg Label.named (Option.some.inj hid)
  | print fingerprint =>
      rw [hlabel] at hid
      cases hid
  | unmarked =>
      rw [hlabel] at hid
      cases hid

theorem Identified.nodup_keys (h : rule.Identified current) : (current.map rule.key).Nodup := by
  have hids : current.map rule.id? = (current.map rule.key).map some := by
    rw [List.map_map]
    exact List.map_congr_left fun row hrow => h.id?_eq hrow
  exact List.Nodup.of_map some (hids ▸ h.2)

/-- Rows with distinct ids are aligned by their ids. -/
theorem align_key (hprevious : rule.Identified previous) (hcurrent : rule.Identified current) :
    align rule.label previous current = align (fun row => .named (rule.key row)) previous current :=
  align_congr (fun _ hrow => hprevious.label_eq hrow) fun _ hrow => hcurrent.label_eq hrow

/-! ## What is said of rows in any order -/

theorem row_atRest (slot : Slot α) : (rule.row slot).atRest = rule.row (slot.settled id) := by
  cases slot with
  | added current => rfl
  | removed previous => rfl
  | paired previous current moved =>
      unfold row Slot.settled ComparedRow.atRest
      dsimp only
      rw [Change.ofPair?_atRest]
      rfl

/-- Rows tell on which sides they are. -/
theorem slot_reports (rule : RowRule α) :
    DecisionGraph.Reports (fun slot => (slot.item, (rule.row slot).change)) Prod.snd Prod.fst where
  gone_eq := isGone_row
  item_eq := by
    intro slot placed hcurrent
    cases slot with
    | paired old current moved => exact congrArg Placed.item (Option.some.inj hcurrent)
    | added current => exact congrArg Placed.item (Option.some.inj hcurrent)
    | removed old => cases hcurrent
  added_eq := fun _ => rfl
  removed_eq := fun _ => ⟨rfl, rfl⟩
  paired_eq := fun _ _ _ => ⟨_, _, rfl⟩

/-- A compared row shows the id of the row that it stands with. -/
theorem shownId_row {name : String} (hshows : rule.Shows name) (hprevious : rule.Identified previous)
    (hcurrent : rule.Identified current) {slot : Slot α} (hslot : slot ∈ align rule.label previous current) :
    (rule.row slot).shownId name = rule.key slot.item := by
  have hmem : ∀ {rows : List α} {row : Placed α}, row ∈ placed rows → row.item ∈ rows :=
    fun hrow => List.mem_of_getElem? (mem_placed.mp hrow)
  have hshown : ∀ {row : α}, rule.id? row = some (rule.key row) →
      (((rule.toJson row).member? name).bind Json.text?).getD "" = rule.key row := by
    intro row hrow
    rw [hshows row _ hrow]
    rfl
  cases slot with
  | added current => exact hshown (hcurrent.id?_eq (hmem (added_iff_unpaired.mp hslot).1))
  | removed old => exact hshown (hprevious.id?_eq (hmem (removed_iff_unpaired.mp hslot).1))
  | paired old current moved =>
      exact hshown (hcurrent.id?_eq (hmem (Paired.spec ⟨moved, hslot⟩).2.1))

section Ids

variable (hprevious : rule.Identified previous) (hcurrent : rule.Identified current)
include hprevious hcurrent

/-- **The same is reported of rows with distinct ids in any order,** but for movement. -/
theorem rows_atRest_perm (hperm : current.Perm others) :
    ((rule.rows previous current).map ComparedRow.atRest).Perm
      ((rule.rows previous others).map ComparedRow.atRest) := by
  have hothers := hcurrent.perm hperm
  unfold rows
  rw [align_key hprevious hcurrent, align_key hprevious hothers, List.map_map, List.map_map]
  refine align_map_perm hprevious.nodup_keys hcurrent.nodup_keys id (fun _ => rfl) ?_ row_atRest row_atRest
  rw [List.map_id, List.map_id]
  exact hperm

/-- Compared rows have distinct ids if the rows of both lists do. -/
theorem nodup_shownId {name : String} (hshows : rule.Shows name) :
    ((rule.rows previous current).map fun row => row.shownId name).Nodup := by
  have hkeys := rule.slot_reports.nodup_keys hprevious.nodup_keys hcurrent.nodup_keys
  rw [← align_key hprevious hcurrent, List.map_map] at hkeys
  have hshown : (rule.rows previous current).map (fun row => row.shownId name)
      = (align rule.label previous current).map fun slot => rule.key slot.item := by
    unfold rows
    rw [List.map_map]
    exact List.map_congr_left fun slot hslot => shownId_row hshows hprevious hcurrent hslot
  rw [hshown]
  exact hkeys

/-- The rows with one id are the same in any order, but for movement. -/
theorem find?_atRest_perm {name : String} (hshows : rule.Shows name) (hperm : current.Perm others)
    (id : String) :
    ((rule.rows previous current).find? fun row => row.shownId name = id).map ComparedRow.atRest
      = ((rule.rows previous others).find? fun row => row.shownId name = id).map ComparedRow.atRest :=
  find?_view_perm ComparedRow.atRest (fun _ => rfl) (rows_atRest_perm hprevious hcurrent hperm)
    (nodup_shownId hprevious hcurrent hshows) id

end Ids

/-! ## Rows that only stand in another order -/

/-- A current row with nothing but movement, which it has if it stood at another place before. -/
def move (rule : RowRule α) (previous : List α) (new : Placed α) : ComparedRow :=
  ⟨rule.toJson new.item,
    if (previous.map rule.id?).idxOf (rule.id? new.item) = new.index then none else some .moved⟩

theorem isChanged_move (rule : RowRule α) (previous : List α) (new : Placed α) :
    (rule.move previous new).isChanged = false := by
  unfold move ComparedRow.isChanged
  dsimp only
  split <;> rfl

/-- The place of a row is found by its id. -/
theorem Identified.idxOf_eq (h : rule.Identified previous) {old : Placed α} (hold : old ∈ placed previous) :
    (previous.map rule.id?).idxOf (rule.id? old.item) = old.index := by
  obtain ⟨hlt, hget⟩ := List.getElem?_eq_some_iff.mp (mem_placed.mp hold)
  rw [← List.length_map rule.id?] at hlt
  have hid : (previous.map rule.id?)[old.index] = rule.id? old.item := by
    rw [List.getElem_map, hget]
  rw [← hid]
  exact h.2.idxOf_getElem _ _

section Permuted

variable (hprevious : rule.Identified previous) (hperm : previous.Perm current)
include hprevious hperm

theorem exists_paired_of_identified {slot : Slot α} (hslot : slot ∈ align rule.label previous current) :
    ∃ old new moved, slot = .paired old new moved := by
  refine exists_paired_of_perm (hperm.map _) (fun hmem => ?_) hslot
  obtain ⟨row, hrow, hlabel⟩ := List.mem_map.mp hmem
  rw [(hprevious.perm hperm).label_eq hrow] at hlabel
  cases hlabel

/-- A pair is one row twice, and it has moved if it stands at another place. -/
theorem row_of_paired (hself : ∀ row, rule.compare row row = []) {old new : Placed α} {moved : Bool}
    (hslot : .paired old new moved ∈ align rule.label previous current) :
    rule.row (.paired old new moved) = rule.move previous new := by
  obtain ⟨hold, hnew, hlabel, -⟩ := Paired.spec ⟨moved, hslot⟩
  have hid : rule.id? old.item = rule.id? new.item := congrArg Label.id? hlabel
  have hrow : old.item = new.item := by
    refine List.inj_on_of_nodup_map hprevious.2 ?_ ?_ hid
    · exact List.mem_of_getElem? (mem_placed.mp hold)
    · exact hperm.mem_iff.mpr (List.mem_of_getElem? (mem_placed.mp hnew))
  have hmoved := moved_of_paired (fun _ => exists_paired_of_identified hprevious hperm) hslot
  unfold row move
  dsimp only
  rw [← hid, hprevious.idxOf_eq hold, hrow, hself, hmoved]
  by_cases hindex : old.index = new.index
  · simp [Change.ofPair?, hindex]
  · simp [Change.ofPair?, hindex]

/-- **Rows that only stand in another order are reported with nothing but movement.** -/
theorem rows_of_perm (hself : ∀ row, rule.compare row row = []) :
    rule.rows previous current = (placed current).map (rule.move previous) := by
  have hrows : ∀ slot ∈ align rule.label previous current,
      some (rule.row slot) = slot.current?.map (rule.move previous) := by
    intro slot hslot
    obtain ⟨old, new, moved, rfl⟩ := exists_paired_of_identified hprevious hperm hslot
    exact congrArg some (row_of_paired hprevious hperm hself hslot)
  unfold rows
  rw [← align_current rule.label previous current, List.map_filterMap, ← List.filterMap_eq_map]
  exact List.filterMap_congr hrows

end Permuted

end RowRule

/-! ## Lists that changed -/

namespace ComparedContent

variable {compared : List (String × Option FieldChange)}

/-- The same fields changed if the same fields and the same lists did. -/
theorem of_fields_congr {fields : List RowField} {rows others : RowField → List ComparedRow}
    (h : ∀ field ∈ fields, (rows field).any ComparedRow.isChanged = (others field).any ComparedRow.isChanged) :
    (ComparedContent.of compared (fields.map fun field => (field.name, rows field))).fields
      = (ComparedContent.of compared (fields.map fun field => (field.name, others field))).fields := by
  unfold ComparedContent.of
  dsimp only
  rw [List.filter_map, List.filter_map, List.map_map, List.map_map]
  exact congrArg (Keyed.union _ <| List.map _ ·) (List.filter_congr h)

end ComparedContent

theorem any_isChanged_atRest (rows : List ComparedRow) :
    (rows.map ComparedRow.atRest).any ComparedRow.isChanged = rows.any ComparedRow.isChanged := by
  rw [List.any_map]
  exact congrArg (List.any rows) (funext ComparedRow.isChanged_atRest)

namespace RowField

/-- The name that the ids of the rows stand under. -/
def idName (field : RowField) : String := if field.name = "rules" then Rule.idKey else "id"

end RowField

/-- The change that is reported of the row with an id. None is reported in a list that is not kept. -/
def ComparedContent.rowChange? (diff : ComparedContent) (field : RowField) (id : String) : Option Change :=
  ((Keyed.get? field.name diff.lists).bind fun rows =>
    rows.find? fun row => row.shownId field.idName = id).bind ComparedRow.change

theorem ComparedContent.rowChange?_eq {diff : ComparedContent} {field : RowField} {rows : List ComparedRow}
    (h : Keyed.get? field.name diff.lists
      = if ∃ row ∈ rows, row.change ≠ none then some rows else none) (id : String) :
    diff.rowChange? field id
      = (rows.find? fun row => row.shownId field.idName = id).bind ComparedRow.change := by
  unfold rowChange?
  rw [h]
  split
  · rfl
  · rename_i hnone
    rw [Option.bind_none, Option.bind_none, eq_comm, Option.bind_eq_none_iff]
    intro row hrow
    by_contra hchange
    exact hnone ⟨row, List.mem_of_find?_eq_some hrow, hchange⟩

namespace RowField

variable {field : RowField}

/-- Every row of the list in the content has an id, and no two rows have the same one. -/
def Identified (field : RowField) (content : Json) : Prop := field.rule.Identified (field.rows content)

instance (field : RowField) (content : Json) : Decidable (field.Identified content) :=
  inferInstanceAs (Decidable (field.rule.Identified _))

/-- The same is reported of the rows of a list in two orders, but for movement. -/
structure SameAtRest (field : RowField) (previous current other : Json) (diff diff' : ComparedContent) :
    Prop where
  /-- The rows are the same, in some order. -/
  rows : ((field.compared previous current).map ComparedRow.atRest).Perm
    ((field.compared previous other).map ComparedRow.atRest)
  /-- The changes of the row with an id are the same. -/
  changes : ∀ id, (diff.rowChange? field id).bind Change.atRest?
    = (diff'.rowChange? field id).bind Change.atRest?

/-- Nothing but movement is reported of a list. -/
structure OnlyMoved (field : RowField) (previous current : Json) (diff : ComparedContent) : Prop where
  /-- The list is no changed field. -/
  unchanged : field.name ∉ Keyed.names diff.fields
  /-- Its rows are the current ones in order. Those have moved that stood at another place before, and they
  are kept if there are any. -/
  rows : let rows := (placed (field.rows current)).map (field.rule.move (field.rows previous))
    Keyed.get? field.name diff.lists = if ∃ row ∈ rows, row.change ≠ none then some rows else none

end RowField

/-! ## Contents of the known kinds -/

/-- Nothing is found between a row and itself, and the ids of rows stand under a name. -/
structure RowRule.Lawful (rule : RowRule α) (name : String) : Prop where
  self : ∀ row, rule.compare row row = []
  shows : rule.Shows name

theorem ExpressionRow.lawful : ExpressionRow.rule.Lawful "id" where
  self := compare_self
  shows := by
    intro row id hid
    have hrow := (Label.id?_of row.id _).symm.trans hid
    obtain ⟨hsome, -⟩ := Option.filter_eq_some_iff.mp hrow
    change (Json.ofText? row.id).text? = some id
    rw [hsome]
    rfl

theorem TableColumn.lawful : TableColumn.rule.Lawful "id" where
  self := compare_self
  shows := by
    intro column id hid
    have hcolumn := (Label.id?_of (some column.id) _).symm.trans hid
    exact (Option.filter_eq_some_iff.mp hcolumn).1

theorem SwitchStatement.lawful : SwitchStatement.rule.Lawful "id" where
  self := compare_self
  shows := by
    intro statement id hid
    have hstatement := (Label.id?_of (some statement.id) _).symm.trans hid
    exact (Option.filter_eq_some_iff.mp hstatement).1

theorem Rule.lawful : Rule.rowRule.Lawful Rule.idKey where
  self := fun _ => compare_eq_nil.mpr fun _ _ => compareCells_self _
  shows := by
    intro rule id hid
    have hrule := (Label.id?_of ((Keyed.get? idKey rule).bind Json.text?) _).symm.trans hid
    exact (Option.filter_eq_some_iff.mp hrule).1

/-- The content is the other one with its expression rows in another order. -/
structure ExpressionContent.Reordered (content other : ExpressionContent) : Prop where
  expressions : content.expressions.Perm other.expressions
  routing : content.routing = other.routing

/-- The content is the other one with its columns and its rules in another order. -/
structure DecisionTableContent.Reordered (content other : DecisionTableContent) : Prop where
  hitPolicy : content.hitPolicy = other.hitPolicy
  inputs : content.inputs.Perm other.inputs
  outputs : content.outputs.Perm other.outputs
  rules : content.rules.Perm other.rules
  routing : content.routing = other.routing

/-- The content is the other one with its branches in another order. -/
structure SwitchContent.Reordered (content other : SwitchContent) : Prop where
  hitPolicy : content.hitPolicy = other.hitPolicy
  statements : content.statements.Perm other.statements

/-- Both contents can be read, and what is read of them is in a relation. -/
def BothRead {β : Type} (kind : Kind) (decode : Decoder β) (R : β → β → Prop) (content other : Json) : Prop :=
  ∃ read read', decodeContent kind.tag decode content = .ok read
    ∧ decodeContent kind.tag decode other = .ok read' ∧ R read read'

section BothRead

variable {β : Type} {kind : Kind} {decode : Decoder β} {R : β → β → Prop} {content other : Json}

theorem BothRead.fits (h : BothRead kind decode R content other) :
    (decodeContent kind.tag decode other).map (fun _ => ()) = .ok () := by
  obtain ⟨read, read', -, hother, -⟩ := h
  rw [hother]
  rfl

theorem BothRead.comparedRead_eq (h : BothRead kind decode R content other)
    {compared : β → β → List (String × Option FieldChange)}
    (hcompared : ∀ before read read', R read read' → compared before read = compared before read')
    (previous : Json) :
    comparedRead kind decode compared previous content = comparedRead kind decode compared previous other := by
  obtain ⟨read, read', hcontent, hother, hR⟩ := h
  unfold comparedRead
  rw [hcontent, hother]
  cases decodeContent kind.tag decode previous with
  | error error => rfl
  | ok before => exact hcompared before read read' hR

theorem BothRead.rows_perm (h : BothRead kind decode R content other) {Row : Type} (name : String)
    (rule : RowRule Row) {rows : β → List Row} (hrows : ∀ read read', R read read' → (rows read).Perm (rows read')) :
    ((RowField.ofDecoded name rule kind decode rows).rows content).Perm
      ((RowField.ofDecoded name rule kind decode rows).rows other) := by
  obtain ⟨read, read', hcontent, hother, hR⟩ := h
  unfold RowField.ofDecoded
  dsimp only
  rw [hcontent, hother]
  exact hrows read read' hR

end BothRead

/-- The content is the other one with its lists in another order. Contents of kinds without lists are the
same. -/
def Kind.Reordered (kind : Kind) (content other : Json) : Prop :=
  match kind with
  | .expression => BothRead kind ExpressionContent.decode ExpressionContent.Reordered content other
  | .decisionTable => BothRead kind DecisionTableContent.decode DecisionTableContent.Reordered content other
  | .switch => BothRead kind SwitchContent.decode SwitchContent.Reordered content other
  | _ => content = other

namespace Kind

variable {kind : Kind} {content other : Json}

theorem Reordered.fits (h : kind.Reordered content other) (hfits : kind.Fits content) : kind.Fits other := by
  cases kind with
  | input | output | function | decision | custom => exact h ▸ hfits
  | expression | decisionTable | switch => exact BothRead.fits h

/-- What is found beside the lists does not depend on the order in them. -/
theorem Reordered.comparedFields_eq (h : kind.Reordered content other) (previous : Json) :
    kind.comparedFields previous content = kind.comparedFields previous other := by
  cases kind with
  | input | output | function | decision | custom => exact congrArg _ h
  | expression =>
      refine BothRead.comparedRead_eq h (fun before read read' hread => ?_) previous
      unfold ExpressionContent.compared
      rw [hread.routing]
  | decisionTable =>
      refine BothRead.comparedRead_eq h (fun before read read' hread => ?_) previous
      unfold DecisionTableContent.compared
      rw [hread.hitPolicy, hread.routing]
  | switch =>
      refine BothRead.comparedRead_eq h (fun before read read' hread => ?_) previous
      unfold SwitchContent.compared
      rw [hread.hitPolicy]

theorem Reordered.rows_perm (h : kind.Reordered content other) {field : RowField}
    (hfield : field ∈ kind.rowFields) : (field.rows content).Perm (field.rows other) := by
  cases kind with
  | input | output | function | decision | custom => cases hfield
  | expression =>
      obtain rfl := List.mem_singleton.mp hfield
      exact BothRead.rows_perm h _ _ fun _ _ hread => hread.expressions
  | decisionTable =>
      simp only [rowFields, List.mem_cons, List.not_mem_nil, or_false] at hfield
      rcases hfield with rfl | rfl | rfl
      · exact BothRead.rows_perm h _ _ fun _ _ hread => hread.inputs
      · exact BothRead.rows_perm h _ _ fun _ _ hread => hread.outputs
      · exact BothRead.rows_perm h _ _ fun _ _ hread => hread.rules
  | switch =>
      obtain rfl := List.mem_singleton.mp hfield
      exact BothRead.rows_perm h _ _ fun _ _ hread => hread.statements

theorem lawful_rule {field : RowField} (hfield : field ∈ kind.rowFields) :
    field.rule.Lawful field.idName := by
  cases kind with
  | input | output | function | decision | custom => cases hfield
  | expression =>
      obtain rfl := List.mem_singleton.mp hfield
      exact ExpressionRow.lawful
  | decisionTable =>
      simp only [rowFields, List.mem_cons, List.not_mem_nil, or_false] at hfield
      rcases hfield with rfl | rfl | rfl
      · exact TableColumn.lawful
      · exact TableColumn.lawful
      · exact Rule.lawful
  | switch =>
      obtain rfl := List.mem_singleton.mp hfield
      exact SwitchStatement.lawful

theorem get?_lists {previous current : Node} (h : kind.Fits previous.content)
    (h' : kind.Fits current.content) {field : RowField} (hfield : field ∈ kind.rowFields) :
    Keyed.get? field.name (kind.compare previous current).lists
      = if ∃ row ∈ field.compared previous.content current.content, row.change ≠ none
        then some (field.compared previous.content current.content) else none := by
  have hnames : ((kind.rowFields.map fun field =>
      (field.name, field.compared previous.content current.content)).map Prod.fst).Nodup := by
    rw [List.map_map]
    exact kind.nodup_rowFields
  rw [Kind.compare_eq_lists h h']
  exact ComparedContent.get?_of_lists hnames (List.mem_map_of_mem (f := fun field : RowField =>
    (field.name, field.compared previous.content current.content)) hfield)

section Reordered

variable {previous current other : Node} (hprevious : kind.Fits previous.content)
  (hcurrent : kind.Fits current.content)
include hprevious hcurrent

theorem sameAtRest (hreordered : kind.Reordered current.content other.content) {field : RowField}
    (hfield : field ∈ kind.rowFields) (hid : field.Identified previous.content)
    (hid' : field.Identified current.content) :
    field.SameAtRest previous.content current.content other.content (kind.compare previous current)
      (kind.compare previous other) where
  rows := RowRule.rows_atRest_perm hid hid' (hreordered.rows_perm hfield)
  changes := by
    intro id
    have hfind := congrArg (Option.bind · ComparedRow.change) <|
      RowRule.find?_atRest_perm hid hid' (lawful_rule hfield).shows (hreordered.rows_perm hfield) id
    rw [Option.bind_map, Option.bind_map] at hfind
    rw [ComparedContent.rowChange?_eq (get?_lists hprevious hcurrent hfield),
      ComparedContent.rowChange?_eq (get?_lists hprevious (hreordered.fits hcurrent) hfield),
      Option.bind_assoc, Option.bind_assoc]
    exact hfind

theorem onlyMoved {field : RowField} (hfield : field ∈ kind.rowFields)
    (hid : field.Identified previous.content)
    (hperm : (field.rows previous.content).Perm (field.rows current.content)) :
    field.OnlyMoved previous.content current.content (kind.compare previous current) := by
  have hrows : field.compared previous.content current.content
      = (placed (field.rows current.content)).map (field.rule.move (field.rows previous.content)) :=
    RowRule.rows_of_perm hid hperm (lawful_rule hfield).self
  refine ⟨?_, ?_⟩
  · rw [Kind.compare_eq_lists hprevious hcurrent]
    have haccounted := RowField.accounted kind.nodup_rowFields
      (fun field hfield => name_not_mem_comparedFields hfield previous.content current.content)
      previous.content current.content hfield
    rw [haccounted.changed, hrows]
    rintro ⟨_, hrow, hedited⟩
    obtain ⟨new, -, rfl⟩ := List.mem_map.mp hrow
    rw [← ComparedRow.isChanged_iff, RowRule.isChanged_move] at hedited
    cases hedited
  · have hget := get?_lists hprevious hcurrent hfield
    rw [hrows] at hget
    exact hget

end Reordered

/--
**The order of rows with ids says nothing about what they hold.**

Take two contents of a kind in which no two rows of a list have one id, and none has no id. Put the rows of the
current lists in another order, and a comparison finds the same in every field. Of the rows it reports the
same, but for movement: the change of the row with an id has the same fields, and it is an addition or a
removal if it was one before.

If the rows of a list are those that were there before, the list is no changed field. Of its rows those are
reported that stand at another place than before, as moved and nothing else.
-/
theorem compare_reordered (kind : Kind) {previous current other : Node}
    (hprevious : kind.Fits previous.content) (hcurrent : kind.Fits current.content)
    (hreordered : kind.Reordered current.content other.content)
    (hids : ∀ field ∈ kind.rowFields,
      field.Identified previous.content ∧ field.Identified current.content) :
    ∃ diff diff', (Behavior.ofKind kind).compare previous current = .ok diff
      ∧ (Behavior.ofKind kind).compare previous other = .ok diff'
      ∧ diff.fields = diff'.fields
      ∧ ∀ field ∈ kind.rowFields,
        field.SameAtRest previous.content current.content other.content diff diff'
          ∧ ((field.rows previous.content).Perm (field.rows current.content) →
            field.OnlyMoved previous.content current.content diff) := by
  have hother := hreordered.fits hcurrent
  refine ⟨_, _, hprevious.compare_ok hcurrent, hprevious.compare_ok hother, ?_, fun field hfield => ?_⟩
  · rw [Kind.compare_eq_lists hprevious hcurrent, Kind.compare_eq_lists hprevious hother,
      hreordered.comparedFields_eq]
    refine ComparedContent.of_fields_congr fun field hfield => ?_
    obtain ⟨hid, hid'⟩ := hids field hfield
    rw [← any_isChanged_atRest, ← any_isChanged_atRest (field.compared _ other.content)]
    exact (RowRule.rows_atRest_perm hid hid' (hreordered.rows_perm hfield)).any_eq
  · obtain ⟨hid, hid'⟩ := hids field hfield
    exact ⟨sameAtRest hprevious hcurrent hreordered hfield hid hid',
      onlyMoved hprevious hcurrent hfield hid⟩

/-- A table with two columns that changed places, and with a rule edited, one put in and one taken out. In another
order of the rules another one has moved, and all else is reported alike. -/
theorem compare_reordered_table :
    let rule (id cell : String) : Json := .object [("_id", .text id), ("a", .text cell)]
    let column (id : String) : Json := .object [("id", .text id)]
    let node (inputs rules : List Json) : Node :=
      ⟨"t", "decisionTableNode", "T", .object [("inputs", .array inputs), ("rules", .array rules)], .origin⟩
    let previous := node [column "a", column "b"] [rule "1" "x", rule "2" "y", rule "3" "z"]
    let current := node [column "b", column "a"] [rule "1" "x", rule "2" "v", rule "4" "w"]
    let other := node [column "b", column "a"] [rule "4" "w", rule "2" "v", rule "1" "x"]
    let statuses (diff : ComparedContent) (list name : String) :=
      (Keyed.get? list diff.lists).map (List.map fun row =>
        (row.shownId name, row.change.map fun change => (change.status, change.hasMoved)))
    (∃ diff diff', (Behavior.ofKind .decisionTable).compare previous current = .ok diff
        ∧ (Behavior.ofKind .decisionTable).compare previous other = .ok diff'
        ∧ diff.fields = diff'.fields
        ∧ ∀ field ∈ Kind.decisionTable.rowFields,
          field.SameAtRest previous.content current.content other.content diff diff'
            ∧ ((field.rows previous.content).Perm (field.rows current.content) →
              field.OnlyMoved previous.content current.content diff))
      ∧ statuses (Kind.decisionTable.compare previous current) "inputs" "id"
        = some [("b", some ("moved", true)), ("a", some ("moved", true))]
      ∧ statuses (Kind.decisionTable.compare previous current) "rules" "_id"
        = some [("1", none), ("2", some ("modified", false)), ("4", some ("added", false)),
          ("3", some ("removed", false))]
      ∧ statuses (Kind.decisionTable.compare previous other) "rules" "_id"
        = some [("4", some ("added", false)), ("2", some ("modified", true)), ("1", some ("moved", true)),
          ("3", some ("removed", false))]
      ∧ Keyed.names (Kind.decisionTable.compare previous other).fields = ["rules"] := by
  intro rule column node previous current other statuses
  have hprevious : Kind.decisionTable.Fits previous.content := rfl
  have hcurrent : Kind.decisionTable.Fits current.content := rfl
  have hreordered : Kind.decisionTable.Reordered current.content other.content :=
    ⟨_, _, rfl, rfl, ⟨rfl, .refl _, .refl _, (List.reverse_perm _).symm, rfl⟩⟩
  refine ⟨compare_reordered .decisionTable hprevious hcurrent hreordered (by decide), ?_, ?_, ?_, ?_⟩
  · decide
  · decide
  · decide
  · decide

end Kind

end DecisionGraph
