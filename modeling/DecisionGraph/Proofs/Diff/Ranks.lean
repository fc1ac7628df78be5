import DecisionGraph.Proofs.Diff.Pairing
import Mathlib.Data.List.Sort

/-!
# Ranks, written down and counted

Whether a pair has moved is found out with a table and a counter. The previous places of the pairs are sorted,
and the number of each of them is written into the table at that place (`Align.rankTable`). Then the current
items are gone through, and the counter says how many pairs have come by (`Align.compareRanks`). Both are
ranks: the rank of a place among others is how many of them come before it (`Align.rank`).

1. **The table has ranks in it** (`Align.getElem?_rankTable`). When a place is written, as many have been
   written before as come before it, and it is not written again.
2. **The counter is a rank** (`Align.compareRanks_eq`). Current items come in the order of their places, so
   the pairs that have come by are those at lower places.

So a pair has moved if the counted ranks of its places differ (`Align.slots_eq_entries`). Whatever is said about
movement is said of these (`align_eq`).
-/

namespace DecisionGraph

variable {α : Type}

namespace Align

/-! ## Counting -/

/-- How many of the places come before `place`. -/
def rank (places : List Nat) (place : Nat) : Nat := (places.filter (· < place)).length

section Counting

variable {places : List Nat}

theorem rank_eq_countP (places : List Nat) (place : Nat) :
    rank places place = places.countP (· < place) := List.countP_eq_length_filter.symm

theorem rank_cons (first : Nat) (places : List Nat) (place : Nat) :
    rank (first :: places) place = rank places place + if first < place then 1 else 0 := by
  simp [rank_eq_countP, List.countP_cons]

theorem rank_eq_zero {place : Nat} (h : ∀ other ∈ places, place ≤ other) : rank places place = 0 := by
  rw [rank_eq_countP, List.countP_eq_zero]
  intro other hother
  have hle := h other hother
  simp only [decide_eq_true_eq]
  omega

/-- A rank does not depend on the order in which places are listed. -/
theorem rank_eq_of_perm {others : List Nat} (h : places.Perm others) (place : Nat) :
    rank places place = rank others place := (h.filter _).length_eq

end Counting

/-! ## The table -/

section Table

variable {places : List Nat}

theorem insertPlace_eq (place : Nat) (places : List Nat) :
    insertPlace place places = places.orderedInsert (· ≤ ·) place := by
  induction places with
  | nil => rfl
  | cons first rest ih => rw [insertPlace, List.orderedInsert_cons, ih]

theorem ascend_eq (places : List Nat) : ascend places = places.insertionSort (· ≤ ·) := by
  have hinsert : insertPlace = List.orderedInsert (· ≤ ·) := funext₂ insertPlace_eq
  rw [ascend, hinsert]
  rfl

theorem ascend_perm (places : List Nat) : (ascend places).Perm places := by
  rw [ascend_eq]
  exact List.perm_insertionSort _ places

theorem pairwise_ascend (h : places.Nodup) : (ascend places).Pairwise (· < ·) := by
  have hle : (ascend places).Pairwise (· ≤ ·) := by
    rw [ascend_eq]
    exact List.pairwise_insertionSort _ places
  have hne : (ascend places).Nodup := (ascend_perm places).nodup_iff.mpr h
  exact (hle.and hne).imp fun ⟨hle, hne⟩ => Nat.lt_of_le_of_ne hle hne

/-- Only the places themselves are written. -/
theorem getElem?_writeRanks_of_not_mem {place : Nat} (h : place ∉ places) (table : List Nat) (start : Nat) :
    (writeRanks table start places)[place]? = table[place]? := by
  induction places generalizing table start with
  | nil => rfl
  | cons first rest ih =>
      have hne : place ≠ first := List.ne_of_not_mem_cons h
      rw [writeRanks, ih (List.not_mem_of_not_mem_cons h), List.getElem?_set_ne hne.symm]

/-- **At a place that is written there is its rank,** if places are written in order. -/
theorem getElem?_writeRanks (h : places.Pairwise (· < ·)) (table : List Nat)
    (hroom : ∀ place ∈ places, place < table.length) (start : Nat) {place : Nat} (hplace : place ∈ places) :
    (writeRanks table start places)[place]? = some (start + rank places place) := by
  induction places generalizing table start with
  | nil => cases hplace
  | cons first rest ih =>
      obtain ⟨hfirst, hrest⟩ := List.pairwise_cons.mp h
      rw [writeRanks, rank_cons]
      rcases List.mem_cons.mp hplace with rfl | hplace
      · -- what is written later is behind this place
        have hnot : place ∉ rest := fun hmem => Nat.lt_irrefl place (hfirst place hmem)
        have hzero : rank rest place = 0 := rank_eq_zero fun other hother => Nat.le_of_lt (hfirst other hother)
        rw [getElem?_writeRanks_of_not_mem hnot, List.getElem?_set_self (hroom place List.mem_cons_self),
          hzero, if_neg (Nat.lt_irrefl place)]
        rfl
      · have hroom' : ∀ other ∈ rest, other < (table.set first start).length := by
          intro other hother
          rw [List.length_set]
          exact hroom other (List.mem_cons_of_mem _ hother)
        rw [ih hrest _ hroom' _ hplace, if_pos (hfirst place hplace), Nat.add_right_comm, Nat.add_assoc]

/-- **The table has the rank of each place.** -/
theorem getElem?_rankTable {length : Nat} (hnodup : places.Nodup) (hroom : ∀ place ∈ places, place < length)
    {place : Nat} (hplace : place ∈ places) :
    (rankTable length places)[place]? = some (rank places place) := by
  have hperm := ascend_perm places
  have hroom' : ∀ other ∈ ascend places, other < (List.replicate length 0).length := by
    intro other hother
    rw [List.length_replicate]
    exact hroom other (hperm.mem_iff.mp hother)
  rw [rankTable, getElem?_writeRanks (pairwise_ascend hnodup) _ hroom' 0 (hperm.mem_iff.mpr hplace),
    Nat.zero_add, rank_eq_of_perm hperm]

end Table

/-! ## The counter -/

/-- The places of the pairs on the previous side. -/
def previousPlaces (pairs : List (Option (Placed α) × Placed α)) : List Nat :=
  pairs.filterMap fun pair => pair.1.map Placed.index

/-- The places of the pairs on the current side. -/
def currentPlaces (pairs : List (Option (Placed α) × Placed α)) : List Nat :=
  pairs.filterMap fun pair => pair.1.map fun _ => pair.2.index

/-- The entry of a pair, given the places of all pairs on both sides. -/
def entry (previousPlaces currentPlaces : List Nat) : Option (Placed α) × Placed α → Slot α
  | (none, current) => .added current
  | (some previous, current) =>
    .paired previous current (rank previousPlaces previous.index ≠ rank currentPlaces current.index)

/-- The entries of the current items, with ranks that are counted. -/
def entries (pairs : List (Option (Placed α) × Placed α)) : List (Slot α) :=
  pairs.map (entry (previousPlaces pairs) (currentPlaces pairs))

theorem currentPlaces_sublist (pairs : List (Option (Placed α) × Placed α)) :
    (currentPlaces pairs).Sublist ((pairs.map Prod.snd).map Placed.index) := by
  induction pairs with
  | nil => exact List.Sublist.refl _
  | cons first rest ih =>
      obtain ⟨partner, current⟩ := first
      cases partner with
      | none => exact ih.cons _
      | some partner => exact ih.cons_cons _

variable {pairs : List (Option (Placed α) × Placed α)}

/-- **What a rank in the table is compared with is the rank of the current place.** -/
theorem compareRanks_eq (table : List Nat) (h : Ascending (pairs.map Prod.snd)) (start : Nat) :
    compareRanks table start (pairs.map fun pair => pair.1.map Placed.index)
      = pairs.map fun pair => pair.1.any fun previous =>
        table[previous.index]? ≠ some (start + rank (currentPlaces pairs) pair.2.index) := by
  induction pairs generalizing start with
  | nil => rfl
  | cons pair rest ih =>
      obtain ⟨partner, current⟩ := pair
      obtain ⟨hcurrent, hrest⟩ := List.pairwise_cons.mp h
      cases partner with
      | none => exact congrArg (false :: ·) (ih hrest start)
      | some previous =>
          have hself : rank (current.index :: currentPlaces rest) current.index = 0 := by
            rw [rank_cons, if_neg (Nat.lt_irrefl _), rank_eq_zero]
            intro place hplace
            obtain ⟨other, hother, rfl⟩ := List.mem_map.mp ((currentPlaces_sublist rest).subset hplace)
            exact Nat.le_of_lt (hcurrent other hother)
          -- for what comes later one pair more has come by
          have hlater : ∀ pair ∈ rest, start + rank (current.index :: currentPlaces rest) pair.2.index
              = start + 1 + rank (currentPlaces rest) pair.2.index := by
            intro pair hpair
            rw [rank_cons, if_pos (hcurrent pair.2 (List.mem_map_of_mem hpair))]
            omega
          show (table[previous.index]? ≠ some start : Bool) :: compareRanks table (start + 1) _
            = (table[previous.index]? ≠ some (start + rank (current.index :: currentPlaces rest) current.index)
                : Bool) :: rest.map _
          rw [hself, ih hrest, Nat.add_zero]
          refine congrArg (_ :: ·) (List.map_congr_left fun pair hpair => ?_)
          rw [← hlater pair hpair]
          rfl

/-- **Ranks that are written down are counted,** if no place stands for two items. -/
theorem slots_eq_entries {length : Nat} (hnodup : (previousPlaces pairs).Nodup)
    (hroom : ∀ place ∈ previousPlaces pairs, place < length) (hcurrent : Ascending (pairs.map Prod.snd)) :
    slots length pairs = entries pairs := by
  have hplaces : (pairs.map fun pair => pair.1.map Placed.index).filterMap id = previousPlaces pairs := by
    rw [List.filterMap_map]
    rfl
  unfold slots movements entries
  rw [hplaces, compareRanks_eq _ hcurrent, List.zipWith_map_right, List.zipWith_self]
  refine List.map_congr_left fun pair hpair => ?_
  obtain ⟨partner, current⟩ := pair
  cases partner with
  | none => rfl
  | some previous =>
      have hmem : previous.index ∈ previousPlaces pairs := List.mem_filterMap.mpr ⟨_, hpair, rfl⟩
      rw [Option.any_some, getElem?_rankTable hnodup hroom hmem, Nat.zero_add]
      simp only [Slot.ofPair, entry, ne_eq, Option.some.injEq]

/-! ## The places of an alignment -/

variable (label : α → Label) (previous current : List α)

/-- The places of the previous sequence, paired and left over. -/
theorem previousPlaces_append_perm :
    (previousPlaces (pairUp label (placed previous) (placed current)).1
        ++ (pairUp label (placed previous) (placed current)).2.map Placed.index).Perm
      (List.range previous.length) := by
  have hperm := (pool_perm label (ascending_placed previous) (placed current)).map Placed.index
  rwa [List.map_append, placed_index, List.map_filterMap] at hperm

/-- No place of the previous sequence is paired twice. -/
theorem nodup_previousPlaces :
    (previousPlaces (pairUp label (placed previous) (placed current)).1).Nodup := by
  have hperm := previousPlaces_append_perm label previous current
  exact (List.nodup_append.mp (hperm.nodup_iff.mpr List.nodup_range)).1

theorem lt_of_mem_previousPlaces {place : Nat}
    (h : place ∈ previousPlaces (pairUp label (placed previous) (placed current)).1) :
    place < previous.length := by
  have hperm := previousPlaces_append_perm label previous current
  exact List.mem_range.mp (hperm.mem_iff.mp (List.mem_append_left _ h))

/-- No place of the current sequence is paired twice. -/
theorem nodup_currentPlaces :
    (currentPlaces (pairUp label (placed previous) (placed current)).1).Nodup := by
  refine List.Nodup.sublist (currentPlaces_sublist _) ?_
  rw [pairUp_current, placed_index]
  exact List.nodup_range

end Align

open Align

/-- **An alignment puts what is left over between the pairs, and a pair has moved if its ranks differ.** -/
theorem align_eq (label : α → Label) (previous current : List α) :
    align label previous current
      = place (pairUp label (placed previous) (placed current)).2
          (entries (pairUp label (placed previous) (placed current)).1) := by
  have hcurrent : Ascending ((pairUp label (placed previous) (placed current)).1.map Prod.snd) := by
    rw [pairUp_current]
    exact ascending_placed current
  unfold align
  dsimp only
  rw [slots_eq_entries (nodup_previousPlaces label previous current)
    (fun _ => lt_of_mem_previousPlaces label previous current) hcurrent]

end DecisionGraph
