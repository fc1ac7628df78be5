import DecisionGraph.Proofs.Content.Agreement
import DecisionGraph.Proofs.Diff.Unannotated
import DecisionGraph.Proofs.Registry

/-!
# Comparing contents that are the same

Contents that are the same (`Json.same`) differ in no field, and neither do their rows, pair by pair. But
the rows have to be paired first, and that goes by their labels:

* A row that has neither an id nor anything else to know it by is paired with nothing, so it is reported
  as removed and as added even if it stands in both contents.
* Rules without an id are known by the text of their cells, and the text tells a negative zero from zero,
  which deep equality does not.

So what decides is whether the rows are known by the same labels, in order (`SameRows`). If they are, a
pair of nodes of one kind and name has moved at most; if they are not, some row is annotated
(`Comparison.diff_same_content`). A graph compared with itself has the same labels on both sides, and it
comes out without annotations if and only if every row has a label.
-/

namespace DecisionGraph

/-! ## Labels of rows -/

/-- The labels of the rows, list by list. -/
def ExpressionContent.rowLabels (content : ExpressionContent) : List (List Label) :=
  [content.expressions.map ExpressionRow.label]

def DecisionTableContent.rowLabels (content : DecisionTableContent) : List (List Label) :=
  [content.inputs.map TableColumn.label, content.outputs.map TableColumn.label,
    content.rules.map Rule.label]

def SwitchContent.rowLabels (content : SwitchContent) : List (List Label) :=
  [content.statements.map SwitchStatement.label]

/-- The labels of the rows in content of a kind. Content that does not fit has no rows, and there are
kinds that have none at all. -/
def Kind.rowLabels (kind : Kind) (content : Json) : List (List Label) :=
  match kind with
  | .expression =>
    (decodeContent kind.tag ExpressionContent.decode content).toOption.elim []
      ExpressionContent.rowLabels
  | .decisionTable =>
    (decodeContent kind.tag DecisionTableContent.decode content).toOption.elim []
      DecisionTableContent.rowLabels
  | .switch =>
    (decodeContent kind.tag SwitchContent.decode content).toOption.elim [] SwitchContent.rowLabels
  | _ => []

/-- The labels of the rows in the content of a node. -/
def Node.rowLabels (node : Node) : List (List Label) :=
  (Kind.ofName? node.kind).elim [] fun kind => kind.rowLabels node.content

/-- The rows are known by the same labels in order, and all of them are known by something. -/
def SameRows (previous current : List (List Label)) : Prop :=
  previous = current ∧ ∀ labels ∈ current, .unmarked ∉ labels

/-- Every row in the content of the node has an id or something else to know it by. -/
def Node.Labelled (node : Node) : Prop := ∀ labels ∈ node.rowLabels, .unmarked ∉ labels

instance (previous current : List (List Label)) : Decidable (SameRows previous current) :=
  inferInstanceAs (Decidable (_ ∧ _))

instance (node : Node) : Decidable node.Labelled :=
  inferInstanceAs (Decidable (∀ labels ∈ node.rowLabels, .unmarked ∉ labels))

theorem sameRows_nil : SameRows [] [] := ⟨rfl, fun _ h => absurd h List.not_mem_nil⟩

theorem sameRows_cons {labels others : List Label} {rest more : List (List Label)} :
    SameRows (labels :: rest) (others :: more)
      ↔ (labels = others ∧ .unmarked ∉ others) ∧ SameRows rest more := by
  unfold SameRows
  rw [List.cons.injEq, List.forall_mem_cons]
  exact and_and_and_comm

/-! ## Rows that are the same -/

theorem ExpressionRow.compare_self (row : ExpressionRow) : rule.compare row row = [] := by
  dsimp only [rule, compare]
  rw [changedFields_eq_nil]
  simp

theorem TableColumn.compare_self (column : TableColumn) : rule.compare column column = [] := by
  dsimp only [rule, compare]
  rw [changedFields_eq_nil]
  simp

theorem SwitchStatement.compare_self (statement : SwitchStatement) :
    rule.compare statement statement = [] := by
  dsimp only [rule, compare]
  rw [changedFields_eq_nil]
  simp

theorem Routing.compared_self (options : Routing) :
    ∀ field ∈ options.compared options, field.2 = none := by
  simp [compared]

namespace Rule

theorem compareCells_same {previous current : Option Json} (h : Json.SameAt previous current) :
    compareCells previous current = none := by
  rcases h with ⟨rfl, rfl⟩ | ⟨value, other, rfl, rfl, hsame⟩
  · rfl
  · unfold compareCells
    rw [Option.bind_some, Option.bind_some, Json.text?_eq_of_same hsame, Option.getD_some,
      Option.getD_some, FieldChange.ofTexts?_self, FieldChange.ofValues?_eq_none.mpr hsame, ite_self]

/-- Between rules with the same cells nothing changed. -/
theorem compare_same {previous current : Rule} (h : Json.sameMembers previous current = true) :
    rowRule.compare previous current = [] := by
  dsimp only [rowRule, compare]
  rw [changedFields_eq_nil, List.forall_mem_map]
  intro column _
  exact compareCells_same (Json.sameAt_get? h)

end Rule

/-- **Lists without changes between their rows are annotated nowhere if and only if the rows have the same
labels.** -/
theorem RowRule.rows_same {α : Type} (rule : RowRule α) {previous current : List α}
    (h : List.Forall₂ (fun row other => rule.compare row other = []) previous current) :
    (∀ row ∈ rule.rows previous current, row.change = none)
      ↔ previous.map rule.label = current.map rule.label
        ∧ .unmarked ∉ current.map rule.label :=
  rows_unannotated.trans (forall₂_matches h)

/-! ## Contents that are the same -/

theorem ExpressionContent.compare_self_eq_empty (content : ExpressionContent) :
    content.compare content = .empty ↔ SameRows content.rowLabels content.rowLabels := by
  have hrows := RowRule.rows_same ExpressionRow.rule
    (List.forall₂_same.mpr fun row (_ : row ∈ content.expressions) => row.compare_self)
  unfold compare rowLabels
  rw [ComparedContent.of_eq_empty, and_iff_right content.routing.compared_self,
    List.forall_mem_singleton, hrows, sameRows_cons, and_iff_left sameRows_nil]
  exact Iff.rfl

theorem SwitchContent.compare_self_eq_empty (content : SwitchContent) :
    content.compare content = .empty ↔ SameRows content.rowLabels content.rowLabels := by
  have hrows := RowRule.rows_same SwitchStatement.rule
    (List.forall₂_same.mpr fun row (_ : row ∈ content.statements) => row.compare_self)
  unfold compare rowLabels
  rw [ComparedContent.of_eq_empty, List.forall_mem_singleton, List.forall_mem_singleton, hrows,
    sameRows_cons, and_iff_left sameRows_nil, FieldChange.ofTexts?_self, and_iff_right rfl]
  exact Iff.rfl

theorem DecisionTableContent.Alike.compare_eq_empty {a b : DecisionTableContent} (h : a.Alike b) :
    a.compare b = .empty ↔ SameRows a.rowLabels b.rowLabels := by
  have hfields : ∀ field ∈ ("hitPolicy", FieldChange.ofTexts?
      (some (HitPolicy.tagOrDefault a.hitPolicy)) (some (HitPolicy.tagOrDefault b.hitPolicy))) ::
        a.routing.compared b.routing, field.2 = none := by
    rw [h.hitPolicy, h.routing, FieldChange.ofTexts?_self, List.forall_mem_cons]
    exact ⟨rfl, b.routing.compared_self⟩
  have hcolumns : ∀ columns : List TableColumn,
      (∀ row ∈ TableColumn.rule.rows columns columns, row.change = none)
        ↔ columns.map TableColumn.label = columns.map TableColumn.label
          ∧ .unmarked ∉ columns.map TableColumn.label :=
    fun columns => RowRule.rows_same _ (List.forall₂_same.mpr fun column _ => column.compare_self)
  have hrules := RowRule.rows_same Rule.rowRule
    (h.rules.imp fun _ _ hsame => Rule.compare_same hsame)
  unfold DecisionTableContent.compare rowLabels
  dsimp only
  rw [ComparedContent.of_eq_empty, and_iff_right hfields, List.forall_mem_cons, List.forall_mem_cons,
    List.forall_mem_singleton, h.inputs, h.outputs, hcolumns, hcolumns, hrules, sameRows_cons,
    sameRows_cons, sameRows_cons, and_iff_left sameRows_nil]
  exact Iff.rfl

/-- No configuration counts as `null` on both sides. -/
theorem CustomContent.Alike.config_same {a b : CustomContent} (h : a.Alike b) :
    (a.config.getD .null).same (b.config.getD .null) = true := by
  obtain ⟨_, hconfig⟩ := h
  generalize a.config = value at hconfig ⊢
  generalize b.config = other at hconfig ⊢
  cases hconfig with
  | none => rfl
  | some hsame => exact hsame

namespace Behavior

variable {α : Type} {R : α → α → Prop} {decode : Decoder α} {previous current : Node}

/-- Content that is the same either fits on both sides or on neither. -/
theorem compare_decoded (h : decode.Respects R) (kind : String)
    (hsame : previous.content.same current.content = true) (compare : α → α → ComparedContent)
    {P : Prop}
    (hok : ∀ a b, R a b → decodeContent kind decode previous.content = .ok a →
      decodeContent kind decode current.content = .ok b → (compare a b = .empty ↔ P))
    (herror : ∀ e e', decodeContent kind decode previous.content = .error e →
      decodeContent kind decode current.content = .error e' → P) :
    ((decodeBoth kind decode previous current >>= fun both =>
        pure (compare both.1 both.2)).toOption.getD (compareWhole previous current)) = .empty
      ↔ P := by
  have hagrees := decodeContent_agrees h kind hsame
  unfold decodeBoth
  generalize decodeContent kind decode previous.content = before at hok herror hagrees ⊢
  generalize decodeContent kind decode current.content = after at hok herror hagrees ⊢
  cases hagrees with
  | @ok a b hab => exact hok a b hab rfl rfl
  | error e e' => exact iff_of_true (compareWhole_eq_empty.mpr hsame) (herror e e' rfl rfl)

/-- In kinds without rows nothing tells them apart. -/
theorem compare_rowless (h : decode.Respects R) (kind : String)
    (hsame : previous.content.same current.content = true)
    (fields : α → α → List (String × Option FieldChange))
    (hfields : ∀ a b, R a b → ∀ field ∈ fields a b, field.2 = none) :
    ((decodeBoth kind decode previous current >>= fun both =>
        pure (ComparedContent.of (fields both.1 both.2) [])).toOption.getD
          (compareWhole previous current)) = .empty := by
  refine (compare_decoded h kind hsame (fun a b => .of (fields a b) []) (P := True) ?_ ?_).mpr trivial
  · intro a b hab _ _
    refine iff_true_intro (ComparedContent.of_eq_empty.mpr ⟨hfields a b hab, ?_⟩)
    exact List.forall_mem_nil _
  · intros
    trivial

/-- **Contents of a known kind that are the same are told apart by the labels of their rows alone.** -/
theorem ofKind_compare_same (kind : Kind) {previous current : Node}
    (hsame : previous.content.same current.content = true) :
    ((ofKind kind).compare previous current).toOption.getD (compareWhole previous current) = .empty
      ↔ SameRows (kind.rowLabels previous.content) (kind.rowLabels current.content) := by
  cases kind with
  | input =>
      refine iff_of_true (compare_rowless SchemaContent.decode_respects _ hsame
        (fun before after => [("schema", FieldChange.ofTexts? before.schema after.schema)]) ?_)
        sameRows_nil
      rintro content _ rfl
      simp
  | output =>
      refine iff_of_true (compare_rowless SchemaContent.decode_respects _ hsame
        (fun before after => [("schema", FieldChange.ofTexts? before.schema after.schema)]) ?_)
        sameRows_nil
      rintro content _ rfl
      simp
  | expression =>
      unfold Kind.rowLabels
      refine compare_decoded ExpressionContent.decode_respects _ hsame ExpressionContent.compare ?_ ?_
      · intro content _ heq hprevious hcurrent
        rw [hprevious, hcurrent, ← heq]
        exact content.compare_self_eq_empty
      · intro _ _ hprevious hcurrent
        rw [hprevious, hcurrent]
        exact sameRows_nil
  | decisionTable =>
      unfold Kind.rowLabels
      refine compare_decoded DecisionTableContent.decode_respects _ hsame
        DecisionTableContent.compare ?_ ?_
      · intro content other halike hprevious hcurrent
        rw [hprevious, hcurrent]
        exact halike.compare_eq_empty
      · intro _ _ hprevious hcurrent
        rw [hprevious, hcurrent]
        exact sameRows_nil
  | switch =>
      unfold Kind.rowLabels
      refine compare_decoded SwitchContent.decode_respects _ hsame SwitchContent.compare ?_ ?_
      · intro content _ heq hprevious hcurrent
        rw [hprevious, hcurrent, ← heq]
        exact content.compare_self_eq_empty
      · intro _ _ hprevious hcurrent
        rw [hprevious, hcurrent]
        exact sameRows_nil
  | function =>
      refine iff_of_true (compare_rowless FunctionContent.decode_respects _ hsame
        (fun before after =>
          [("source", FieldChange.ofTexts? (some before.source) (some after.source))]) ?_)
        sameRows_nil
      rintro content _ rfl
      simp
  | decision =>
      refine iff_of_true (compare_rowless DecisionContent.decode_respects _ hsame
        (fun before after => ("key", FieldChange.ofTexts? before.key after.key) ::
          before.routing.compared after.routing) ?_) sameRows_nil
      rintro content _ rfl
      rw [List.forall_mem_cons, FieldChange.ofTexts?_self]
      exact ⟨rfl, content.routing.compared_self⟩
  | custom =>
      refine iff_of_true (compare_rowless CustomContent.decode_respects _ hsame
        (fun before after => [("kind", FieldChange.ofTexts? before.kind after.kind),
          ("config", FieldChange.ofValues? (before.config.getD .null) (after.config.getD .null))]) ?_)
        sameRows_nil
      intro content other halike
      rw [halike.kind, FieldChange.ofTexts?_self, FieldChange.ofValues?_eq_none.mpr halike.config_same]
      simp

end Behavior

/-! ## Nodes that are the same -/

namespace Comparison

theorem compareContents_same {previous current : Node} (hkind : previous.kind = current.kind)
    (hsame : previous.content.same current.content = true) :
    (compareContents .builtin previous current).1 = .empty
      ↔ SameRows previous.rowLabels current.rowLabels := by
  unfold Node.rowLabels
  rw [compareContents_fst, Registry.get?_builtin_eq, hkind]
  cases Kind.ofName? current.kind with
  | none => exact iff_of_true (Behavior.compareWhole_eq_empty.mpr hsame) sameRows_nil
  | some kind => exact Behavior.ofKind_compare_same kind hsame

/-- **Two nodes of one kind and name with the same content have moved at most, if their rows are known by
the same labels, and only then.** -/
theorem compareNodes_same {previous current : Node} (hkind : previous.kind = current.kind)
    (hname : previous.name = current.name) (hsame : previous.content.same current.content = true)
    (moved : Bool) :
    let compared := (compareNodes ⟨.builtin, none⟩ previous current moved).1
    (compared.change = (if moved then some .moved else none) ∧ compared.lists = [])
      ↔ SameRows previous.rowLabels current.rowLabels := by
  have hname' : changedFields [("name",
      FieldChange.ofTexts? (some previous.name) (some current.name))] = [] :=
    changedFields_eq_nil.mpr (by simp [hname])
  unfold compareNodes isRepositioned
  dsimp only
  rw [hkind, Registry.equates_self, if_pos rfl, if_pos rfl, hname', Option.any_none, Bool.or_false,
    Change.ofPair?_eq_move, Keyed.union_eq_nil, and_iff_right rfl, ← ComparedContent.eq_empty_iff]
  exact compareContents_same hkind hsame

/--
**Nodes and edges that are the same are annotated for what they are known by, and for nothing else.**

* A pair of nodes of one kind and one name, the contents of which are the same, has moved at most and has
  no annotated rows, if the rows of both are known by the same labels, and only then.
* Of a graph that is compared with itself no edge is annotated, and no node and no row is if every row
  has a label, and only then.
-/
theorem diff_same_content (previous current : Graph) :
    let comparison : Comparison := ⟨.builtin, none⟩
    (∀ item other moved,
      Slot.paired item other moved
        ∈ align (fun node : Node => .named node.id) previous.nodes current.nodes →
      item.item.kind = other.item.kind → item.item.name = other.item.name →
      item.item.content.same other.item.content = true →
      let compared := (comparison.compareNodes item.item other.item moved).1
      compared ∈ (comparison.diff previous current).nodes
        ∧ ((compared.change = (if moved then some .moved else none) ∧ compared.lists = [])
          ↔ SameRows item.item.rowLabels other.item.rowLabels))
    ∧ (∀ edge ∈ (comparison.diff current current).edges, edge.change = none)
    ∧ ((∀ node ∈ (comparison.diff current current).nodes, node.change = none ∧ node.lists = [])
        ↔ ∀ node ∈ current.nodes, node.Labelled) := by
  intro comparison
  refine ⟨?_, ?_, ?_⟩
  · intro item other moved hslot hkind hname hsame compared
    refine ⟨?_, compareNodes_same hkind hname hsame moved⟩
    rw [diff_nodes]
    exact List.mem_map.mpr ⟨_, hslot, rfl⟩
  · refine diff_edges_unannotated.mpr (List.forall₂_same.mpr fun edge _ => ⟨rfl, ?_⟩)
    exact changedFields_eq_nil.mpr (by simp)
  · refine diff_nodes_unannotated.trans ?_
    rw [List.forall₂_same]
    refine forall₂_congr fun node _ => ?_
    have hself := compareNodes_same rfl rfl (Json.same_refl node.content) false
    exact (and_iff_right rfl).trans (hself.trans (and_iff_right rfl))

/-- An expression that has neither an id nor a key yet is removed and added in a graph that is compared
with itself, and its node is modified. -/
theorem diff_self_without_key :
    let row : Json := .object [("value", .text "1")]
    let node : Node := ⟨"a", "expressionNode", "A", .object [("expressions", .array [row])], .origin⟩
    let compared := (diff ⟨.builtin, none⟩ ⟨[node], []⟩ ⟨[node], []⟩).nodes
    ¬node.Labelled
      ∧ (compared.map fun node => node.change.map Change.status) = [some "modified"]
      ∧ (compared.map fun node => node.lists.map fun list =>
          (list.1, list.2.map fun row => row.change.map Change.status))
        = [[("expressions", [some "added", some "removed"])]] := by
  decide

/-- Rules without an id are two rules if their zeros differ in sign, although their contents are the
same. -/
example :
    let node (zero : Double) : Node := ⟨"a", "decisionTableNode", "A",
      .object [("rules", .array [.object [("c", .number (.double zero))]])], .origin⟩
    let compared := (diff ⟨.builtin, none⟩ ⟨[node .zero], []⟩ ⟨[node ⟨true, 0⟩], []⟩).nodes
    (node .zero).content.same (node ⟨true, 0⟩).content = true
      ∧ ¬SameRows (node .zero).rowLabels (node ⟨true, 0⟩).rowLabels
      ∧ (compared.map fun node => node.change.map Change.status) = [some "modified"] := by
  decide

end Comparison

end DecisionGraph
