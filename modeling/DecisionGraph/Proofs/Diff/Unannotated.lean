import DecisionGraph.Diff.Graphs
import DecisionGraph.Proofs.Diff.Stable
import DecisionGraph.Proofs.Keyed

/-!
# Comparisons that find nothing

What has to be so of two graphs for their comparison to annotate nothing, from the single fields up:

* **Fields**: texts are equal when trimmed, a missing text being empty; a missing flag is false; other
  values are the same.
* **Rows** match in order, one by one (`RowRule.Matches`): they have one label, and no field of the one
  differs from the other.
* **Contents** have no changed field and only lists whose rows match (`ComparedContent.of_eq_empty`).
* **Graphs** have nodes and edges of one id at every place, between which nothing changed
  (`Comparison.diff_unannotated`).

Each step is an equivalence, so nothing is lost on the way down.
-/

namespace DecisionGraph

/-! ## Fields -/

namespace FieldChange

theorem ofTexts?_eq_none {previous current : Option String} :
    ofTexts? previous current = none
      ↔ Text.trim (previous.getD "") = Text.trim (current.getD "") := by
  simp [ofTexts?]

theorem ofFlags?_eq_none {previous current : Option Bool} :
    ofFlags? previous current = none ↔ previous.getD false = current.getD false := by
  simp [ofFlags?]

theorem ofValues?_eq_none {previous current : Json} :
    ofValues? previous current = none ↔ previous.same current = true := by
  simp [ofValues?]

@[simp] theorem ofTexts?_self (text : Option String) : ofTexts? text text = none :=
  ofTexts?_eq_none.mpr rfl

@[simp] theorem ofFlags?_self (flag : Option Bool) : ofFlags? flag flag = none :=
  ofFlags?_eq_none.mpr rfl

end FieldChange

theorem changedFields_eq_nil {compared : List (String × Option FieldChange)} :
    changedFields compared = [] ↔ ∀ field ∈ compared, field.2 = none := by
  unfold changedFields
  rw [Keyed.ofList_eq_nil, List.filterMap_eq_nil_iff]
  exact forall₂_congr fun _ _ => Option.map_eq_none_iff

/-- An entity with no changed field has moved at most. -/
theorem Change.ofPair?_nil (hasMoved : Bool) :
    Change.ofPair? [] hasMoved = if hasMoved then some .moved else none := rfl

theorem Change.ofPair?_cons (field : String × FieldChange) (more : FieldChanges) (hasMoved : Bool) :
    Change.ofPair? (field :: more) hasMoved = some (.modified (field :: more) hasMoved) := rfl

theorem Change.ofPair?_eq_none {fields : FieldChanges} {hasMoved : Bool} :
    Change.ofPair? fields hasMoved = none ↔ fields = [] ∧ hasMoved = false := by
  cases fields with
  | nil => cases hasMoved <;> simp [ofPair?_nil]
  | cons field more => simp [ofPair?_cons]

/-- Of an entity without changed fields it is said at most that it has moved. -/
theorem Change.ofPair?_eq_move {fields : FieldChanges} {hasMoved : Bool} :
    Change.ofPair? fields hasMoved = (if hasMoved then some .moved else none) ↔ fields = [] := by
  cases fields with
  | nil => exact ⟨fun _ => rfl, fun _ => rfl⟩
  | cons field more => cases hasMoved <;> simp [ofPair?_cons]

/-! ## Rows -/

namespace RowRule

variable {α : Type} {rule : RowRule α}

/-- Two rows that have one label, and between which nothing changed. -/
def Matches (rule : RowRule α) (previous current : α) : Prop :=
  rule.label previous = rule.label current ∧ rule.label current ≠ .unmarked
    ∧ rule.compare previous current = []

theorem row_change_eq_none {slot : Slot α} :
    (rule.row slot).change = none
      ↔ slot.Keeps fun previous current => rule.compare previous current = [] := by
  cases slot with
  | paired previous current moved =>
      dsimp only [row, Slot.Keeps]
      rw [Change.ofPair?_eq_none, and_comm]
  | added current => exact iff_of_false (Option.some_ne_none _) id
  | removed previous => exact iff_of_false (Option.some_ne_none _) id

/-- **No row is annotated if and only if the rows match one by one.** -/
theorem rows_unannotated {previous current : List α} :
    (∀ row ∈ rule.rows previous current, row.change = none)
      ↔ List.Forall₂ rule.Matches previous current := by
  unfold rows
  rw [List.forall_mem_map]
  simp only [row_change_eq_none]
  exact align_keeps_iff

/-- Rows without changes between them match if they have one label each. -/
theorem forall₂_matches {previous current : List α}
    (h : List.Forall₂ (fun row other => rule.compare row other = []) previous current) :
    List.Forall₂ rule.Matches previous current
      ↔ previous.map rule.label = current.map rule.label
        ∧ .unmarked ∉ current.map rule.label := by
  induction h with
  | nil => simp
  | @cons row other rows others hfirst _ ih =>
      rw [List.forall₂_cons, ih, List.map_cons, List.map_cons, List.cons.injEq, List.mem_cons, not_or]
      unfold Matches
      constructor
      · intro ⟨⟨hlabel, hmarked, _⟩, hlabels, hrest⟩
        exact ⟨⟨hlabel, hlabels⟩, Ne.symm hmarked, hrest⟩
      · intro ⟨⟨hlabel, hlabels⟩, hmarked, hrest⟩
        exact ⟨⟨hlabel, Ne.symm hmarked, hfirst⟩, hlabels, hrest⟩

end RowRule

/-! ## Contents -/

namespace ComparedContent

theorem eq_empty_iff {diff : ComparedContent} : diff = empty ↔ diff.fields = [] ∧ diff.lists = [] := by
  obtain ⟨fields, lists⟩ := diff
  exact iff_of_eq (ComparedContent.mk.injEq ..)

/-- No field of contents changed if no compared field did, and no row but for its place. -/
theorem of_fields_eq_nil {compared : List (String × Option FieldChange)}
    {lists : List (String × List ComparedRow)} :
    (ComparedContent.of compared lists).fields = []
      ↔ (∀ field ∈ compared, field.2 = none)
        ∧ ∀ list ∈ lists, ∀ row ∈ list.2, row.isChanged = false := by
  unfold ComparedContent.of
  dsimp only
  rw [Keyed.union_eq_nil, changedFields_eq_nil, List.map_eq_nil_iff, List.filter_eq_nil_iff]
  simp only [List.any_eq_true, not_exists, not_and, Bool.not_eq_true]

/-- **A comparison of contents finds nothing if no field changed and no row is annotated.** -/
theorem of_eq_empty {compared : List (String × Option FieldChange)}
    {lists : List (String × List ComparedRow)} :
    ComparedContent.of compared lists = empty
      ↔ (∀ field ∈ compared, field.2 = none)
        ∧ ∀ list ∈ lists, ∀ row ∈ list.2, row.change = none := by
  unfold ComparedContent.of empty
  rw [ComparedContent.mk.injEq, Keyed.union_eq_nil, changedFields_eq_nil, List.map_eq_nil_iff,
    Keyed.ofList_eq_nil, List.filter_eq_nil_iff, List.filter_eq_nil_iff]
  constructor
  · intro ⟨⟨hfields, _⟩, hlists⟩
    refine ⟨hfields, fun list hlist row hrow => ?_⟩
    have hnone := hlists list hlist
    simp only [List.any_eq_true, not_exists, not_and, Option.not_isSome_iff_eq_none] at hnone
    exact hnone row hrow
  · intro ⟨hfields, hlists⟩
    refine ⟨⟨hfields, fun list hlist => ?_⟩, fun list hlist => ?_⟩
    · -- a row that is not annotated has not changed
      rw [List.any_eq_true]
      intro ⟨row, hrow, hchanged⟩
      unfold ComparedRow.isChanged at hchanged
      rw [hlists list hlist row hrow] at hchanged
      cases hchanged
    · rw [List.any_eq_true]
      intro ⟨row, hrow, hsome⟩
      rw [hlists list hlist row hrow] at hsome
      cases hsome

end ComparedContent

theorem Behavior.compareWhole_fields_eq_nil {previous current : Node} :
    (Behavior.compareWhole previous current).fields = []
      ↔ previous.content.same current.content = true := by
  unfold compareWhole
  rw [ComparedContent.of_fields_eq_nil, ← FieldChange.ofValues?_eq_none]
  simp

theorem Behavior.compareWhole_eq_empty {previous current : Node} :
    Behavior.compareWhole previous current = .empty
      ↔ previous.content.same current.content = true := by
  rw [← compareWhole_fields_eq_nil, ComparedContent.eq_empty_iff]
  exact and_iff_left rfl

/-! ## Nodes, edges and graphs -/

/-- A node without a change of its own and without annotated rows. -/
def ComparedNode.Unannotated (node : ComparedNode) : Prop := node.change = none ∧ node.lists = []

instance (node : ComparedNode) : Decidable node.Unannotated :=
  inferInstanceAs (Decidable (node.change = none ∧ node.lists = []))

/-- No node, no row and no edge is annotated. -/
structure ComparedGraph.Unannotated (graph : ComparedGraph) : Prop where
  nodes : ∀ node ∈ graph.nodes, node.Unannotated
  edges : ∀ edge ∈ graph.edges, edge.change = none

theorem ComparedGraph.unannotated_iff {graph : ComparedGraph} :
    graph.Unannotated
      ↔ (∀ node ∈ graph.nodes, node.Unannotated) ∧ ∀ edge ∈ graph.edges, edge.change = none :=
  ⟨fun h => ⟨h.nodes, h.edges⟩, fun h => ⟨h.1, h.2⟩⟩

instance (graph : ComparedGraph) : Decidable graph.Unannotated :=
  decidable_of_iff _ ComparedGraph.unannotated_iff.symm

namespace Comparison

/-- What is said of two contents: what the behavior says, and that they are not the same as a whole if
there is none or one of them does not fit. -/
theorem compareContents_fst (registry : Registry) (previous current : Node) :
    (compareContents registry previous current).1
      = (((registry.get? current.kind).bind fun behavior =>
          (behavior.compare previous current).toOption).getD
            (Behavior.compareWhole previous current)) := by
  unfold compareContents
  cases registry.get? current.kind with
  | none => rfl
  | some behavior =>
      dsimp only [Option.bind_some]
      cases behavior.compare previous current with
      | error error => rfl
      | ok diff => rfl

variable {comparison : Comparison}

/-- **When two nodes have no change between them.** Rows that have moved are no change of the node. -/
theorem compareNodes_unchanged {registry : Registry} {previous current : Node} {moved : Bool} :
    (compareNodes ⟨registry, none⟩ previous current moved).1.change = none
      ↔ moved = false ∧ Text.trim previous.name = Text.trim current.name
        ∧ if registry.equates previous.kind current.kind then
            (compareContents registry previous current).1.fields = []
          else Text.trim previous.kind = Text.trim current.kind
            ∧ previous.content.same current.content = true := by
  unfold compareNodes isRepositioned
  dsimp only
  rw [Option.any_none, Bool.or_false, Change.ofPair?_eq_none, Keyed.union_eq_nil,
    changedFields_eq_nil, and_assoc, ← and_assoc, and_comm (b := moved = false)]
  refine and_congr_right fun _ => ?_
  cases registry.equates previous.kind current.kind with
  | true =>
      rw [if_pos rfl, if_pos rfl, if_pos rfl]
      simp [FieldChange.ofTexts?_eq_none]
  | false =>
      rw [if_neg Bool.false_ne_true, if_neg Bool.false_ne_true, if_neg Bool.false_ne_true,
        ← Behavior.compareWhole_fields_eq_nil]
      simp [FieldChange.ofTexts?_eq_none, and_assoc]

/-- **When nothing is found between two nodes.** -/
theorem compareNodes_unannotated {registry : Registry} {previous current : Node} {moved : Bool} :
    (compareNodes ⟨registry, none⟩ previous current moved).1.Unannotated
      ↔ moved = false ∧ Text.trim previous.name = Text.trim current.name
        ∧ if registry.equates previous.kind current.kind then
            (compareContents registry previous current).1 = .empty
          else Text.trim previous.kind = Text.trim current.kind
            ∧ previous.content.same current.content = true := by
  unfold ComparedNode.Unannotated
  rw [compareNodes_unchanged, and_assoc, and_assoc]
  refine and_congr_right fun _ => and_congr_right fun _ => ?_
  unfold compareNodes
  dsimp only
  cases registry.equates previous.kind current.kind with
  | true => rw [if_pos rfl, if_pos rfl, if_pos rfl, ComparedContent.eq_empty_iff]
  | false =>
      rw [if_neg Bool.false_ne_true, if_neg Bool.false_ne_true, if_neg Bool.false_ne_true]
      exact and_iff_left rfl

/-- A node that has moved has a change. -/
theorem compareNodes_moved (comparison : Comparison) (previous current : Node) :
    (comparison.compareNodes previous current true).1.change ≠ none := by
  intro hchange
  have hmoved := (Change.ofPair?_eq_none.mp hchange).2
  rw [Bool.true_or] at hmoved
  cases hmoved

theorem node_unannotated {slot : Slot Node} :
    (comparison.node slot).1.Unannotated
      ↔ slot.Keeps fun previous current =>
          (comparison.compareNodes previous current false).1.Unannotated := by
  cases slot with
  | paired previous current moved =>
      cases moved with
      | false => exact (and_iff_right rfl).symm
      | true =>
          refine iff_of_false (fun hnone => ?_) fun h => Bool.noConfusion h.1
          exact comparison.compareNodes_moved previous.item current.item hnone.1
  | added current => exact iff_of_false (fun h => Option.some_ne_none _ h.1) id
  | removed previous => exact iff_of_false (fun h => Option.some_ne_none _ h.1) id

theorem edge_unannotated {slot : Slot Edge} :
    (edge slot).change = none ↔ slot.Keeps fun previous current => compareEdges previous current = [] := by
  cases slot with
  | paired previous current moved =>
      dsimp only [edge, Slot.Keeps]
      rw [Change.ofPair?_eq_none, and_comm]
  | added current => exact iff_of_false (Option.some_ne_none _) id
  | removed previous => exact iff_of_false (Option.some_ne_none _) id

theorem diff_nodes (comparison : Comparison) (previous current : Graph) :
    (comparison.diff previous current).nodes
      = (align (fun node => .named node.id) previous.nodes current.nodes).map fun slot =>
          (comparison.node slot).1 := List.map_map

theorem diff_edges (comparison : Comparison) (previous current : Graph) :
    (comparison.diff previous current).edges
      = (align (fun edge => .named edge.id) previous.edges current.edges).map edge := rfl

theorem diff_nodes_unannotated {previous current : Graph} :
    (∀ node ∈ (comparison.diff previous current).nodes, node.Unannotated)
      ↔ List.Forall₂ (fun node other => node.id = other.id
          ∧ (comparison.compareNodes node other false).1.Unannotated)
        previous.nodes current.nodes := by
  rw [diff_nodes, List.forall_mem_map]
  simp only [node_unannotated]
  rw [align_keeps_iff]
  simp

theorem diff_edges_unannotated {previous current : Graph} :
    (∀ edge ∈ (comparison.diff previous current).edges, edge.change = none)
      ↔ List.Forall₂ (fun edge other => edge.id = other.id ∧ compareEdges edge other = [])
        previous.edges current.edges := by
  rw [diff_edges, List.forall_mem_map]
  simp only [edge_unannotated]
  rw [align_keeps_iff]
  simp

/--
**When a comparison of two graphs annotates nothing.**

At every place there are nodes of one id on both sides, between which nothing is found, and edges of one
id, between which nothing is found.
-/
theorem diff_unannotated {previous current : Graph} :
    (comparison.diff previous current).Unannotated
      ↔ List.Forall₂ (fun node other => node.id = other.id
          ∧ (comparison.compareNodes node other false).1.Unannotated) previous.nodes current.nodes
        ∧ List.Forall₂ (fun edge other => edge.id = other.id ∧ compareEdges edge other = [])
          previous.edges current.edges := by
  rw [ComparedGraph.unannotated_iff, diff_nodes_unannotated, diff_edges_unannotated]

end Comparison

end DecisionGraph
