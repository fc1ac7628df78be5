import DecisionGraph.Proofs.Diff.Unannotated
import DecisionGraph.Proofs.Registry

/-!
# Changed kinds and changed ends

A node that gets another kind and an edge that is put to another node are modified, and the field that
holds the kind or the end is among those that changed (`Change.Marks`).

Tags and ends are ids: everywhere else they count as they are written. Here they are compared as texts, so
one that differs from the other in the white space around it alone is taken for the same. And tags are
equated by the kinds that their behaviors go by, so a behavior from outside that has taken the tag of a
known kind is taken for that kind, as long as another tag still stands for it. **Everything else is shown**
(`Comparison.diff_marks_rewiring`).
-/

namespace DecisionGraph

/-- The entity was modified, and the field is among those that changed. -/
def Change.Marks (change : Option Change) (field : String) : Prop :=
  ∃ fields alsoMoved, change = some (.modified fields alsoMoved) ∧ field ∈ Keyed.names fields

theorem Change.marks_ofPair? {fields : FieldChanges} {hasMoved : Bool} {field : String} :
    Change.Marks (ofPair? fields hasMoved) field ↔ field ∈ Keyed.names fields := by
  cases fields with
  | nil =>
      refine iff_of_false ?_ List.not_mem_nil
      rintro ⟨_, _, heq, _⟩
      cases hasMoved <;> cases heq
  | cons first more =>
      rw [ofPair?_cons]
      constructor
      · rintro ⟨_, _, heq, hmem⟩
        obtain ⟨rfl, -⟩ := Change.modified.inj (Option.some.inj heq)
        exact hmem
      · exact fun hmem => ⟨_, _, rfl, hmem⟩

/-- The names of the changed fields are those under which a change was found. -/
theorem mem_names_changedFields {compared : List (String × Option FieldChange)} {field : String} :
    field ∈ Keyed.names (changedFields compared) ↔ ∃ diff, (field, some diff) ∈ compared := by
  unfold changedFields
  rw [Keyed.mem_names_ofList, List.map_filterMap]
  simp [List.mem_filterMap]

theorem FieldChange.exists_ofTexts? {previous current : String} :
    (∃ diff, some diff = ofTexts? (some previous) (some current))
      ↔ Text.trim previous ≠ Text.trim current := by
  unfold ofTexts?
  split <;> simp_all

namespace Comparison

/-- **Nodes that do not count as nodes of one kind are marked, unless their tags are one text.** -/
theorem marks_type (comparison : Comparison) {previous current : Node} (moved : Bool)
    (h : comparison.registry.equates previous.kind current.kind = false) :
    Change.Marks (comparison.compareNodes previous current moved).1.change "type"
      ↔ Text.trim previous.kind ≠ Text.trim current.kind := by
  unfold compareNodes Behavior.compareWhole ComparedContent.of
  dsimp only
  rw [h, if_neg Bool.false_ne_true, if_neg Bool.false_ne_true, Change.marks_ofPair?,
    Keyed.mem_names_union, Keyed.mem_names_union, mem_names_changedFields, mem_names_changedFields,
    ← FieldChange.exists_ofTexts?]
  simp [Keyed.names]

/-- **An edge is marked where one of its ends is another text.** -/
theorem marks_ends (previous current : Placed Edge) (moved : Bool) :
    (Change.Marks (edge (.paired previous current moved)).change "sourceId"
        ↔ Text.trim previous.item.source ≠ Text.trim current.item.source)
      ∧ (Change.Marks (edge (.paired previous current moved)).change "targetId"
        ↔ Text.trim previous.item.target ≠ Text.trim current.item.target) := by
  dsimp only [edge]
  rw [Change.marks_ofPair?, Change.marks_ofPair?, compareEdges, mem_names_changedFields,
    mem_names_changedFields, ← FieldChange.exists_ofTexts?, ← FieldChange.exists_ofTexts?]
  simp

/--
**Changed kinds and changed ends are shown.**

* Of a pair of nodes whose tags differ and do not stand for one behavior, the `type` is marked unless the
  two tags are one text but for the white space around them. This leaves out the tag of a known kind that
  a behavior from outside has taken, beside a tag that still stands for that kind.
* Of a pair of edges, the `sourceId` and the `targetId` are marked unless the two ends are one text but for
  the white space around them.
-/
theorem diff_marks_rewiring {registry : Registry} (h : registry.Composed fun _ => True)
    (threshold : Option Float) (previous current : Graph) :
    let comparison : Comparison := ⟨registry, threshold⟩
    (∀ item other moved,
      Slot.paired item other moved
        ∈ align (fun node : Node => .named node.id) previous.nodes current.nodes →
      item.item.kind ≠ other.item.kind → ¬registry.Agree item.item.kind other.item.kind →
      ¬registry.Supplants item.item.kind other.item.kind →
      ¬registry.Supplants other.item.kind item.item.kind →
      let compared := (comparison.compareNodes item.item other.item moved).1
      compared ∈ (comparison.diff previous current).nodes
        ∧ (Change.Marks compared.change "type"
          ↔ Text.trim item.item.kind ≠ Text.trim other.item.kind))
    ∧ ∀ item other moved,
      Slot.paired item other moved
        ∈ align (fun edge : Edge => .named edge.id) previous.edges current.edges →
      let compared := edge (.paired item other moved)
      compared ∈ (comparison.diff previous current).edges
        ∧ (Change.Marks compared.change "sourceId"
          ↔ Text.trim item.item.source ≠ Text.trim other.item.source)
        ∧ (Change.Marks compared.change "targetId"
          ↔ Text.trim item.item.target ≠ Text.trim other.item.target) := by
  intro comparison
  constructor
  · intro item other moved hslot hne hagree hsupplants hsupplanted compared
    have hequates : registry.equates item.item.kind other.item.kind = false := by
      rw [← Bool.not_eq_true, h.equates_iff]
      rintro (heq | hboth | hfirst | hsecond)
      · exact hne heq
      · exact hagree hboth
      · exact hsupplants hfirst
      · exact hsupplanted hsecond
    refine ⟨?_, marks_type comparison moved hequates⟩
    rw [diff_nodes]
    exact List.mem_map.mpr ⟨_, hslot, rfl⟩
  · intro item other moved hslot compared
    refine ⟨?_, marks_ends item other moved⟩
    rw [diff_edges]
    exact List.mem_map.mpr ⟨_, hslot, rfl⟩

/-- A calculation that becomes a switch, under a tag of its own, and an edge that leaves it for another
node. -/
theorem diff_marks_rewiring_calculation :
    let registry := Registry.builtin.addAlias "calc" "expr"
    let node (kind : String) : Node := ⟨"a", kind, "A", .null, .origin⟩
    let link (target : String) : Edge := ⟨"e", "a", target, none, none⟩
    let comparison : Comparison := ⟨registry, none⟩
    registry.Composed (fun _ => True) ∧ ¬registry.Agree "calc" "switchNode"
      ∧ Change.Marks (comparison.compareNodes (node "calc") (node "switchNode") false).1.change "type"
      ∧ Change.Marks (edge (.paired ⟨0, link "b"⟩ ⟨0, link "c"⟩ false)).change "targetId" := by
  intro registry node link comparison
  have hcomposed : registry.Composed fun _ => True := .addAlias "calc" "expr" .builtin
  have hagree : ¬registry.Agree "calc" "switchNode" := by
    rintro ⟨behavior, hfirst, hsecond⟩
    have hkinds : (registry.get? "calc").map Behavior.kind
        ≠ (registry.get? "switchNode").map Behavior.kind := by decide
    exact hkinds (by rw [hfirst, hsecond])
  have hsupplants : ¬registry.Supplants "calc" "switchNode" := by
    rintro ⟨kind, _, htag, _⟩
    cases kind <;> exact absurd htag (by decide)
  have hsupplanted : ¬registry.Supplants "switchNode" "calc" := by
    rintro ⟨kind, behavior, htag, -, -, -, hget⟩
    have hkind : (registry.get? "calc").map Behavior.kind = some "expressionNode" := by decide
    rw [hget, Option.map_some, Behavior.kind_ofKind, ← htag] at hkind
    exact absurd (Option.some.inj hkind) (by decide)
  obtain ⟨hnodes, hedges⟩ := diff_marks_rewiring hcomposed none
    ⟨[node "calc"], [link "b"]⟩ ⟨[node "switchNode"], [link "c"]⟩
  refine ⟨hcomposed, hagree, ?_, ?_⟩
  · exact (hnodes ⟨0, node "calc"⟩ ⟨0, node "switchNode"⟩ false (List.mem_cons_self ..)
      (by decide) hagree hsupplants hsupplanted).2.mpr (by decide)
  · exact (hedges ⟨0, link "b"⟩ ⟨0, link "c"⟩ false (List.mem_cons_self ..)).2.2.mpr (by decide)

/-- A tag that nothing is registered under and an end that is no node are not told from the kind and the
node that they look like. -/
theorem diff_hides_white_space :
    let node (kind : String) : Node := ⟨"a", kind, "A", .null, .origin⟩
    let link (target : String) : Edge := ⟨"e", "a", target, none, none⟩
    let previous : Graph := ⟨[node "switchNode"], [link "a"]⟩
    let current : Graph := ⟨[node "switchNode "], [link "a "]⟩
    let compared := diff ⟨.builtin, none⟩ previous current
    Registry.builtin.equates "switchNode" "switchNode " = false
      ∧ Registry.builtin.contains "switchNode " = false
      ∧ current.flaw? = some (.danglingEdge "e" "a ")
      ∧ (compared.nodes.map fun node => node.change.map Change.status) = [none]
      ∧ (compared.edges.map fun edge => edge.change.map Change.status) = [none] := by
  decide

/-- A behavior from outside that has taken the tag of a known kind counts as that kind. -/
example :
    let registry := Registry.builtin.add { Behavior.custom with kind := "switchNode" }
    (registry.get? "switchNode").map (·.defaultContent.compact)
        ≠ (registry.get? "switch").map (·.defaultContent.compact)
      ∧ registry.equates "switchNode" "switch" = true := by
  decide

end Comparison

end DecisionGraph
