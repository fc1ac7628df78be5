import DecisionGraph.Diff.Graphs
import DecisionGraph.Proofs.Diff.Align

/-!
# A comparison keeps the current graph

Taking the changes and what was removed from a comparison leaves the current graph
(`Comparison.current_diff`). Two things go into this: the current side of an alignment is the current
sequence, and an entry is taken for removed exactly if it has no current item. The second is
`Restores`. It holds for nodes and for edges because the change of a pair is never `removed`, whatever
its fields.
-/

namespace DecisionGraph

/-- What is in both snapshots is not gone. -/
theorem Change.ofPair?_not_gone (fields : FieldChanges) (moved : Bool) :
    isGone (ofPair? fields moved) = false := by
  unfold ofPair?
  by_cases hempty : fields.isEmpty = true
  · rw [if_pos hempty]
    cases moved with
    | true => rfl
    | false => rfl
  · rw [if_neg hempty]
    rfl

/-- Comparing an entry keeps its current item, and tells whether there is one. -/
structure Restores {α β : Type} (compare : Slot α → β) (gone : β → Bool) (item : β → α) : Prop where
  /-- An entry counts as gone if it has no current item. -/
  gone_eq : ∀ slot, gone (compare slot) = slot.isRemoved
  /-- Any other entry stands with its current item. -/
  item_eq : ∀ {slot placed}, slot.current? = some placed → item (compare slot) = placed.item

/-- **From the compared entries of an alignment the current sequence comes back.** -/
theorem Restores.current {α β : Type} {compare : Slot α → β} {gone : β → Bool} {item : β → α}
    (h : Restores compare gone item) (label : α → Label) (previous current : List α) :
    (((align label previous current).map compare).filter fun entry => !gone entry).map item
      = current := by
  have hkept : ∀ slots : List (Slot α),
      ((slots.map compare).filter fun entry => !gone entry).map item
        = (slots.filterMap Slot.current?).map Placed.item := by
    intro slots
    induction slots with
    | nil => rfl
    | cons slot rest ih =>
        have hgone := h.gone_eq slot
        unfold Slot.isRemoved at hgone
        rw [List.map_cons, List.filter_cons]
        cases hcurrent : slot.current? with
        | none =>
            -- the entry is dropped on both sides: as gone, and for want of a current item
            rw [hcurrent, Option.isNone_none] at hgone
            rw [List.filterMap_cons_none hcurrent, ← ih, if_neg (by simp [hgone])]
        | some placed =>
            rw [hcurrent, Option.isNone_some] at hgone
            rw [List.filterMap_cons_some hcurrent, List.map_cons, ← ih, if_pos (by simp [hgone]),
              List.map_cons, h.item_eq hcurrent]
  rw [hkept, align_current, placed_item]

namespace Comparison

/-- A pair of nodes is not gone, and stands with its current node. -/
theorem compareNodes_spec (comparison : Comparison) (previous current : Node) (moved : Bool) :
    isGone (comparison.compareNodes previous current moved).1.change = false
      ∧ (comparison.compareNodes previous current moved).1.node = current := by
  unfold compareNodes
  dsimp only
  exact ⟨Change.ofPair?_not_gone _ _, rfl⟩

theorem node_restores (comparison : Comparison) :
    Restores (fun slot => (comparison.node slot).1) (fun node => isGone node.change)
      ComparedNode.node where
  gone_eq := by
    intro slot
    cases slot with
    | paired previous current moved => exact (comparison.compareNodes_spec ..).1
    | added current => rfl
    | removed previous => rfl
  item_eq := by
    intro slot placed hcurrent
    cases slot with
    | paired previous current moved =>
        obtain rfl := Option.some.inj hcurrent
        exact (comparison.compareNodes_spec ..).2
    | added current => exact congrArg Placed.item (Option.some.inj hcurrent)
    | removed previous => cases hcurrent

theorem edge_restores : Restores edge (fun edge => isGone edge.change) ComparedEdge.edge where
  gone_eq := by
    intro slot
    cases slot with
    | paired previous current moved =>
        dsimp only [edge]
        rw [Change.ofPair?_not_gone]
        rfl
    | added current => rfl
    | removed previous => rfl
  item_eq := by
    intro slot placed hcurrent
    cases slot with
    | paired previous current moved => exact congrArg Placed.item (Option.some.inj hcurrent)
    | added current => exact congrArg Placed.item (Option.some.inj hcurrent)
    | removed previous => cases hcurrent

/--
**A comparison loses nothing of the current graph.**

Its nodes and its edges come back as they were and in their order, whatever the two graphs, the
registry and the threshold are.
-/
theorem current_diff (comparison : Comparison) (previous current : Graph) :
    (comparison.diff previous current).current = current := by
  have hnodes := comparison.node_restores.current (fun node => .named node.id) previous.nodes
    current.nodes
  have hedges := edge_restores.current (fun edge => .named edge.id) previous.edges current.edges
  have hfirst : (fun compared : ComparedNode × List Issue => compared.1) ∘ comparison.node
      = fun slot => (comparison.node slot).1 := rfl
  unfold diff ComparedGraph.current
  dsimp only
  rw [List.map_map, hfirst, hnodes, hedges]

end Comparison

end DecisionGraph
