import DecisionGraph.Diff.Align

/-!
# The current side of an alignment

An alignment is made in three steps: current items are paired (`Align.pairUp`), the pairs become
entries (`Align.slots`), and the removed items are put between them (`Align.place`). None of the
steps drops, repeats or exchanges a current item, so the current side of an alignment is the current
sequence (`align_current`). This holds for any labels and any pairing.
-/

namespace DecisionGraph

variable {α : Type}

theorem placed_item (items : List α) : (placed items).map Placed.item = items := by
  unfold placed
  rw [List.map_map]
  exact List.zipIdx_map_fst 0 items

namespace Align

/-- Pairing takes the current items one after the other. -/
theorem pairUp_current (label : α → Label) (pool items : List (Placed α)) :
    (pairUp label pool items).1.map Prod.snd = items := by
  induction items generalizing pool with
  | nil => rfl
  | cons current rest ih =>
      -- whether and with what the first item is paired only matters for the pool
      unfold pairUp
      cases partner? label pool (label current.item) current.index with
      | none => exact congrArg (current :: ·) (ih pool)
      | some previous => exact congrArg (current :: ·) (ih _)

theorem length_compareRanks (table : List Nat) (rank : Nat) (partners : List (Option Nat)) :
    (compareRanks table rank partners).length = partners.length := by
  induction partners generalizing rank with
  | nil => rfl
  | cons partner rest ih =>
      cases partner with
      | none => exact congrArg (· + 1) (ih rank)
      | some place => exact congrArg (· + 1) (ih (rank + 1))

theorem ofPair_current (pair : Option (Placed α) × Placed α) (moved : Bool) :
    (Slot.ofPair pair moved).current? = some pair.2 := by
  obtain ⟨previous, current⟩ := pair
  cases previous <;> rfl

/-- Pairs have their current items, whatever is said of their movement. -/
theorem zipWith_ofPair_current {pairs : List (Option (Placed α) × Placed α)} {moved : List Bool}
    (h : moved.length = pairs.length) :
    (pairs.zipWith Slot.ofPair moved).filterMap Slot.current? = pairs.map Prod.snd := by
  induction pairs generalizing moved with
  | nil => rfl
  | cons pair rest ih =>
      obtain ⟨first, more, rfl⟩ := List.exists_cons_of_length_eq_add_one h
      rw [List.zipWith_cons_cons, List.filterMap_cons_some (ofPair_current pair first),
        ih (Nat.succ.inj h), List.map_cons]

/-- Every pair becomes one entry, with the same current item. -/
theorem slots_current (length : Nat) (pairs : List (Option (Placed α) × Placed α)) :
    (slots length pairs).filterMap Slot.current? = pairs.map Prod.snd := by
  refine zipWith_ofPair_current ?_
  rw [movements, length_compareRanks, List.length_map]

/-- Removed items have no place in the current sequence. -/
theorem removed_current (removed : List (Placed α)) :
    (removed.map Slot.removed).filterMap Slot.current? = [] := by
  rw [List.filterMap_map, List.filterMap_eq_nil_iff]
  exact fun _ _ => rfl

/-- **Putting removed items between the entries leaves the current side alone.** -/
theorem place_current (removed : List (Placed α)) (slots : List (Slot α)) :
    (place removed slots).filterMap Slot.current? = slots.filterMap Slot.current? := by
  induction slots generalizing removed with
  | nil => exact removed_current removed
  | cons slot rest ih =>
      cases slot with
      | paired previous current moved =>
          have hfirst : (Slot.paired previous current moved).current? = some current := rfl
          unfold place
          rw [List.filterMap_append, removed_current, List.nil_append,
            List.filterMap_cons_some hfirst, List.filterMap_cons_some hfirst, ih]
      | added current =>
          have hfirst : (Slot.added current).current? = some current := rfl
          unfold place
          rw [List.filterMap_cons_some hfirst, List.filterMap_cons_some hfirst, ih]
      | removed previous =>
          have hfirst : (Slot.removed previous).current? = none := rfl
          unfold place
          rw [List.filterMap_cons_none hfirst, List.filterMap_cons_none hfirst, ih]

end Align

/-- **The current side of an alignment is the current sequence.** -/
theorem align_current (label : α → Label) (previous current : List α) :
    (align label previous current).filterMap Slot.current? = placed current := by
  unfold align
  dsimp only
  rw [Align.place_current, Align.slots_current, Align.pairUp_current]

/-- An item stands in the current sequence if it is on the current side of some entry. -/
theorem mem_align_current {label : α → Label} {previous current : List α} {item : α} :
    item ∈ current
      ↔ ∃ slot ∈ align label previous current, slot.current?.map Placed.item = some item := by
  have hitems : current = ((align label previous current).filterMap Slot.current?).map Placed.item := by
    rw [align_current, placed_item]
  rw [List.map_filterMap] at hitems
  rw [← List.mem_filterMap, ← hitems]

end DecisionGraph
