import DecisionGraph.Proofs.Diff.Conservation

/-!
# Comparing in the other direction

If all items have ids, the alignment of two sequences in the one direction is the mirror image of that in
the other (`align_mirrored`): the k-th item of an id on the one side is paired with the k-th item of that id
on the other side, whichever side is gone through.

* **Pairs** are the same, and so are their ranks: what counts for a rank is which places are paired, in
  whatever order they are listed (`Align.rank_eq_of_perm`).
* **What is left over** on the one side comes in the order of that side, whether it is reported as added,
  between the pairs, or as removed.

Nothing of this holds for items with fingerprints: those choose by nearness, and only one side chooses.
-/

namespace DecisionGraph

variable {α : Type} {label : α → Label} {previous current : List α}

/-! ## What is left over -/

/-- **Added is what is in the current sequence and paired with nothing.** -/
theorem added_iff_unpaired {item : Placed α} :
    Slot.added item ∈ align label previous current
      ↔ item ∈ placed current ∧ ∀ other, ¬Paired label previous current other item := by
  simp only [added_mem_align, paired_iff]
  constructor
  · intro hadded
    refine ⟨Align.mem_of_mem_pairUp hadded, fun other hpair => ?_⟩
    -- an item stands in one pair only
    obtain ⟨before, after, hsplit⟩ := List.append_of_mem (Align.mem_of_mem_pairUp hadded)
    have hitems := ascending_placed current
    rw [hsplit] at hadded hpair hitems
    have hnone := (Align.mem_pairUp_iff hitems).mp hadded
    have hsome := (Align.mem_pairUp_iff hitems).mp hpair
    rw [← hsome] at hnone
    cases hnone
  · intro ⟨hmem, hunpaired⟩
    rw [← Align.pairUp_current label (placed previous) (placed current)] at hmem
    obtain ⟨⟨partner, _⟩, hpair, rfl⟩ := List.mem_map.mp hmem
    cases partner with
    | none => exact hpair
    | some other => exact absurd hpair (hunpaired other)

/-- **Removed is what is in the previous sequence and paired with nothing.** -/
theorem removed_iff_unpaired {item : Placed α} :
    Slot.removed item ∈ align label previous current
      ↔ item ∈ placed previous ∧ ∀ other, ¬Paired label previous current item other := by
  simp only [removed_mem_align, paired_iff]
  exact Align.mem_left_iff (ascending_placed previous)

/-- The items that the current sequence alone has, as they come in the alignment. -/
def newcomers (slots : List (Slot α)) : List (Placed α) :=
  (slots.filter Slot.isAdded).filterMap Slot.current?

theorem mem_newcomers {slots : List (Slot α)} {item : Placed α} :
    item ∈ newcomers slots ↔ Slot.added item ∈ slots := by
  unfold newcomers
  rw [List.mem_filterMap]
  constructor
  · rintro ⟨slot, hslot, hitem⟩
    obtain ⟨hmem, hadded⟩ := List.mem_filter.mp hslot
    cases slot with
    | added other => exact Option.some.inj hitem ▸ hmem
    | paired | removed => cases hadded
  · exact fun hmem => ⟨_, List.mem_filter.mpr ⟨hmem, rfl⟩, rfl⟩

/-- They come in their order. -/
theorem ascending_newcomers (label : α → Label) (previous current : List α) :
    Ascending (newcomers (align label previous current)) := by
  have hsublist : (newcomers (align label previous current)).Sublist (placed current) := by
    rw [← align_current label previous current]
    exact List.filter_sublist.filterMap _
  exact List.Pairwise.sublist hsublist (ascending_placed current)

/-- Lists in the order of their places are equal if they hold the same items. -/
theorem Ascending.ext {items others : List (Placed α)} (h : Ascending items) (h' : Ascending others)
    (hmem : ∀ item, item ∈ items ↔ item ∈ others) : items = others := by
  refine List.Perm.eq_of_pairwise ?_ h h' ((List.perm_ext_iff_of_nodup h.nodup h'.nodup).mpr hmem)
  intro item other _ _ hlt hgt
  omega

/-! ## Places -/

namespace Align

theorem mem_previousPlaces {pairs : List (Option (Placed α) × Placed α)} {place : Nat} :
    place ∈ previousPlaces pairs
      ↔ ∃ item other : Placed α, (some item, other) ∈ pairs ∧ item.index = place := by
  unfold previousPlaces
  rw [List.mem_filterMap]
  constructor
  · rintro ⟨⟨partner, other⟩, hmem, hplace⟩
    obtain ⟨item, rfl, hindex⟩ := Option.map_eq_some_iff.mp hplace
    exact ⟨item, other, hmem, hindex⟩
  · rintro ⟨item, other, hmem, rfl⟩
    exact ⟨_, hmem, rfl⟩

theorem mem_currentPlaces {pairs : List (Option (Placed α) × Placed α)} {place : Nat} :
    place ∈ currentPlaces pairs
      ↔ ∃ item other : Placed α, (some item, other) ∈ pairs ∧ other.index = place := by
  unfold currentPlaces
  rw [List.mem_filterMap]
  constructor
  · rintro ⟨⟨partner, other⟩, hmem, hplace⟩
    obtain ⟨item, rfl, hindex⟩ := Option.map_eq_some_iff.mp hplace
    exact ⟨item, other, hmem, hindex⟩
  · rintro ⟨item, other, hmem, rfl⟩
    exact ⟨_, hmem, rfl⟩

end Align

/-! ## The mirror image -/

section Mirrored

open Align

/-- **Items with an id are paired with each other in both directions or in neither.** -/
theorem paired_swap_of_named {id : String} {item other : Placed α}
    (hid : label item.item = .named id ∨ label other.item = .named id) :
    Paired label current previous other item ↔ Paired label previous current item other := by
  rw [paired_named_iff hid, paired_named_iff hid.symm]
  exact exists_congr fun _ => and_comm

theorem paired_swap (key : α → String) (previous current : List α) {item other : Placed α} :
    Paired (fun item => .named (key item)) current previous other item
      ↔ Paired (fun item => .named (key item)) previous current item other :=
  paired_swap_of_named (Or.inl rfl)

/-- The places that are paired on a side are the same in both directions. -/
theorem previousPlaces_perm (key : α → String) (previous current : List α) :
    (previousPlaces (pairUp (fun item => .named (key item)) (placed current) (placed previous)).1).Perm
      (currentPlaces (pairUp (fun item => .named (key item)) (placed previous) (placed current)).1) := by
  refine (List.perm_ext_iff_of_nodup (nodup_previousPlaces ..) (nodup_currentPlaces ..)).mpr fun place => ?_
  rw [mem_previousPlaces, mem_currentPlaces]
  simp only [← paired_iff, paired_swap key previous current]
  rw [exists_comm]

/-- **Pairs are mirrored with their movement.** -/
theorem paired_mem_mirrored {key : α → String} {item other : Placed α} {moved : Bool} :
    Slot.paired other item moved ∈ align (fun item => .named (key item)) current previous
      ↔ Slot.paired item other moved ∈ align (fun item => .named (key item)) previous current := by
  have hswap : Paired (fun item => .named (key item)) current previous other item
      ↔ Paired (fun item => .named (key item)) previous current item other :=
    paired_swap key previous current
  rw [paired_iff, paired_iff] at hswap
  have hother := rank_eq_of_perm (previousPlaces_perm key previous current) other.index
  have hitem := rank_eq_of_perm (previousPlaces_perm key current previous) item.index
  simp only [paired_mem_align, paired_mem_entries, hswap, hother, ← hitem, ne_comm]

/-- **What is added in the one direction is removed in the other, in the same order.** -/
theorem newcomers_mirrored (key : α → String) (previous current : List α) :
    newcomers (align (fun item => .named (key item)) previous current)
      = (align (fun item => .named (key item)) current previous).filterMap Slot.gone? := by
  rw [align_gone]
  refine (ascending_newcomers ..).ext (ascending_left (ascending_placed current) _) fun item => ?_
  rw [mem_newcomers, ← removed_mem_align, added_iff_unpaired, removed_iff_unpaired]
  refine and_congr_right fun _ => forall_congr' fun other => not_congr ?_
  exact (paired_swap key previous current).symm

end Mirrored

/-! ## Comparisons in both directions -/

/-- What is said of a pair tells whether it has moved. -/
theorem Change.ofPair?_any_hasMoved (fields : FieldChanges) (moved : Bool) :
    (ofPair? fields moved).any hasMoved = moved := by
  cases fields with
  | nil => cases moved <;> rfl
  | cons field more => rfl

section Entries

variable {β : Type} {compare : Slot α → β} {change : β → Option Change} {item : β → α}
  {key : α → String}

/-- The entries that are new hold what the current sequence alone has. -/
theorem Reports.map_new (h : Reports compare change item) (label : α → Label)
    (previous current : List α) :
    (((align label previous current).map compare).filter fun entry => isNew (change entry)).map item
      = (newcomers (align label previous current)).map Placed.item := by
  unfold newcomers
  rw [List.filter_map, List.map_map, List.map_filterMap]
  have hnew : ((fun entry => isNew (change entry)) ∘ compare) = Slot.isAdded := funext h.new_eq
  rw [hnew, ← List.filterMap_eq_map]
  refine List.filterMap_congr fun slot hslot => ?_
  cases slot with
  | added current => exact congrArg some (h.item_eq rfl)
  | paired | removed => cases (List.mem_filter.mp hslot).2

/-- The entries that are gone hold what the previous sequence alone has. -/
theorem Reports.map_gone (h : Reports compare change item) (label : α → Label)
    (previous current : List α) :
    (((align label previous current).map compare).filter fun entry => isGone (change entry)).map item
      = ((align label previous current).filterMap Slot.gone?).map Placed.item := by
  have hgone : ((fun entry => isGone (change entry)) ∘ compare) = Slot.isRemoved := funext h.gone_eq
  rw [List.filter_map, hgone, List.map_map, List.map_filterMap, ← List.filterMap_eq_map,
    ← List.filterMap_eq_filter, List.filterMap_filterMap]
  refine List.filterMap_congr fun slot _ => ?_
  cases slot with
  | removed previous => exact congrArg some (h.removed_eq previous).2
  | paired | added => rfl

/-- One comparison is the mirror image of another: what is new in the one is gone in the other, in the same
order, and the pairs are the same with sides exchanged. -/
structure Mirrored (key : α → String) (change : β → Option Change) (item : β → α)
    (previous current : List α) (forth back : List β) : Prop where
  new : (forth.filter fun entry => isNew (change entry)).map item
    = (back.filter fun entry => isGone (change entry)).map item
  gone : (forth.filter fun entry => isGone (change entry)).map item
    = (back.filter fun entry => isNew (change entry)).map item
  paired : ∀ before after moved,
    Slot.paired before after moved ∈ align (fun item => .named (key item)) previous current
      ↔ Slot.paired after before moved ∈ align (fun item => .named (key item)) current previous

theorem Reports.mirrored (h : Reports compare change item) (key : α → String)
    (previous current : List α) :
    Mirrored key change item previous current
      ((align (fun item => .named (key item)) previous current).map compare)
      ((align (fun item => .named (key item)) current previous).map compare) where
  new := by rw [h.map_new, h.map_gone, newcomers_mirrored]
  gone := by rw [h.map_new, h.map_gone, newcomers_mirrored]
  paired := fun _ _ _ => paired_mem_mirrored.symm

end Entries

namespace Comparison

/--
**A comparison in the other direction is the mirror image.**

The nodes that are added in the one direction are removed in the other, in the same order and with the same
data, and the other way round. The pairs are the same with their sides exchanged, and a pair has moved in
both directions or in neither. All this holds of edges, too. Without a threshold the changes say of each
pair, and of nothing else, that it has moved if it has.
-/
theorem diff_mirrored (registry : Registry) (previous current : Graph) :
    let comparison : Comparison := ⟨registry, none⟩
    let forth := comparison.diff previous current
    let back := comparison.diff current previous
    Mirrored Node.id ComparedNode.change ComparedNode.node previous.nodes current.nodes forth.nodes
        back.nodes
      ∧ Mirrored Edge.id ComparedEdge.change ComparedEdge.edge previous.edges current.edges forth.edges
        back.edges
      ∧ (∀ slot, (comparison.node slot).1.change.any Change.hasMoved = slot.hasMoved)
      ∧ ∀ slot, (edge slot).change.any Change.hasMoved = slot.hasMoved := by
  intro comparison forth back
  refine ⟨?_, edge_reports.mirrored Edge.id previous.edges current.edges, fun slot => ?_, fun slot => ?_⟩
  · have hnodes := comparison.node_reports.mirrored Node.id previous.nodes current.nodes
    rwa [← diff_nodes, ← diff_nodes] at hnodes
  · cases slot with
    | added | removed => rfl
    | paired previous current moved =>
        have hplace : isRepositioned comparison.threshold previous.item current.item = false := rfl
        dsimp only [node, compareNodes]
        rw [Change.ofPair?_any_hasMoved, hplace, Bool.or_false]
        rfl
  · cases slot with
    | added | removed => rfl
    | paired previous current moved =>
        dsimp only [edge]
        rw [Change.ofPair?_any_hasMoved]
        rfl

end Comparison

end DecisionGraph
