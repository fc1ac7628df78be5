import DecisionGraph.Proofs.Diff.Mirror
import Mathlib.Algebra.BigOperators.Group.List.Basic
import Mathlib.Algebra.GroupWithZero.Nat

/-!
# Movement is a change of rank

A pair of an alignment has moved if another number of pairs comes before it on the one side than on the other
(`align_moved`). The numbers are ranks. An alignment looks them up in a table and in a counter, and finds what
one finds by counting (`Align.slots_eq_entries`). Two things are known of ranks:

1. **Ranks are in the order of the places** (`Align.rank_lt_rank`). So nothing has moved exactly if the pairs
   stand in one order on both sides (`Align.inOrder_iff_rank_eq`).
2. **Ranks add up.** On either side they are the numbers below the number of pairs, in some order, and have the
   same sum (`Align.sum_rank`). If all pairs but one have one rank on both sides, then so has that one, or the
   sums would differ. So it is never one pair alone that has moved.

What is added or removed counts for nothing in all this.
-/

namespace DecisionGraph

variable {α : Type}

/-- The items of an entry that has an item of both sequences. -/
def Slot.both? : Slot α → Option (Placed α × Placed α)
  | .paired previous current _ => some (previous, current)
  | _ => none

/-- The pairs of an alignment, in the order of the current sequence. -/
def pairsOf (slots : List (Slot α)) : List (Placed α × Placed α) := slots.filterMap Slot.both?

/-- The pairs stand in one order on both sides. -/
def InOrder (pairs : List (Placed α × Placed α)) : Prop :=
  ∀ pair ∈ pairs, ∀ other ∈ pairs, pair.1.index < other.1.index ↔ pair.2.index < other.2.index

namespace Align

/-! ## Ranks -/

section Ranks

variable {places : List Nat}

/-- **Ranks are in the order of the places.** -/
theorem rank_lt_rank {a b : Nat} (ha : a ∈ places) (hlt : a < b) : rank places a < rank places b := by
  -- what comes before the second place comes before the first, or else between them
  have hsplit : places.countP (· < b) = places.countP (· < a) + places.countP (fun c => a ≤ c ∧ c < b) := by
    refine countP_eq_add fun c _ => ?_
    by_cases hca : c < a
    · have hcb : c < b := by omega
      simp [hca, hcb, Nat.not_le.mpr hca]
    · simp [hca, Nat.not_lt.mp hca]
  have hpos : 0 < places.countP (fun c => a ≤ c ∧ c < b) :=
    List.countP_pos_iff.mpr ⟨a, ha, decide_eq_true ⟨Nat.le_refl a, hlt⟩⟩
  rw [rank_eq_countP, rank_eq_countP]
  omega

theorem rank_lt_rank_iff {a b : Nat} (ha : a ∈ places) (hb : b ∈ places) :
    rank places a < rank places b ↔ a < b := by
  refine ⟨fun hrank => ?_, rank_lt_rank ha⟩
  by_contra hge
  rcases Nat.eq_or_lt_of_le (Nat.not_lt.mp hge) with heq | hlt
  · rw [heq] at hrank
    omega
  · have hother := rank_lt_rank hb hlt
    omega

/-- One place more puts those behind it up by one. -/
theorem sum_rank_cons (first : Nat) (places others : List Nat) :
    (others.map (rank (first :: places))).sum
      = (others.map (rank places)).sum + others.countP (first < ·) := by
  induction others with
  | nil => rfl
  | cons place rest ih =>
      rw [List.map_cons, List.sum_cons, ih, rank_cons, List.map_cons, List.sum_cons, List.countP_cons]
      simp only [decide_eq_true_eq]
      omega

/-- **The ranks of distinct places add up to the same sum as the numbers below their number.** -/
theorem sum_rank (h : places.Nodup) :
    (places.map (rank places)).sum = (List.range places.length).sum := by
  induction places with
  | nil => rfl
  | cons first rest ih =>
      obtain ⟨hfirst, hrest⟩ := List.nodup_cons.mp h
      -- every other place is before the first one or behind it
      have hsides : rest.length = rest.countP (· < first) + rest.countP (first < ·) := by
        rw [List.length_eq_countP_add_countP (· < first)]
        refine congrArg _ (List.countP_congr fun place hplace => ?_)
        have hne : place ≠ first := fun heq => hfirst (heq ▸ hplace)
        simp only [decide_eq_true_eq]
        omega
      have hself : rank (first :: rest) first = rest.countP (· < first) := by
        rw [rank_cons, if_neg (Nat.lt_irrefl first), Nat.add_zero, rank_eq_countP]
      rw [List.map_cons, List.sum_cons, hself, sum_rank_cons, ih hrest, List.length_cons,
        List.range_succ, List.sum_append, List.sum_singleton]
      omega

end Ranks

/-! ## Ranks on both sides -/

/-- If two numbers of each item add up to one sum, then it is not at one item alone that they differ. -/
theorem countP_ne_one_of_sum_eq {β : Type} {items : List β} {f g : β → Nat}
    (h : (items.map f).sum = (items.map g).sum) : items.countP (fun item => f item ≠ g item) ≠ 1 := by
  induction items with
  | nil => simp
  | cons first rest ih =>
      rw [List.map_cons, List.sum_cons, List.map_cons, List.sum_cons] at h
      by_cases hfirst : f first = g first
      · rw [List.countP_cons_of_neg (by simp [hfirst])]
        exact ih (by omega)
      · -- the others have the same numbers, so their sums leave no room for the first
        rw [List.countP_cons_of_pos (by simp [hfirst])]
        intro hone
        have hrest : rest.countP (fun item => f item ≠ g item) = 0 := by omega
        have hsame : rest.map f = rest.map g := List.map_congr_left fun item hitem => by
          simpa using List.countP_eq_zero.mp hrest item hitem
        rw [hsame] at h
        omega

/-- How many of the pairs come before a place on the previous side. -/
theorem rank_previous (pairs : List (Placed α × Placed α)) (place : Nat) :
    rank (pairs.map (·.1.index)) place = pairs.countP (·.1.index < place) := by
  rw [rank_eq_countP, List.countP_map]
  rfl

/-- How many of the pairs come before a place on the current side. -/
theorem rank_current (pairs : List (Placed α × Placed α)) (place : Nat) :
    rank (pairs.map (·.2.index)) place = pairs.countP (·.2.index < place) := by
  rw [rank_eq_countP, List.countP_map]
  rfl

/-- The pair has not the same rank on both sides. -/
def changesRank (pairs : List (Placed α × Placed α)) (pair : Placed α × Placed α) : Bool :=
  rank (pairs.map (·.1.index)) pair.1.index ≠ rank (pairs.map (·.2.index)) pair.2.index

/-- **No pair changes its rank if and only if all stand in one order.** -/
theorem inOrder_iff_rank_eq {pairs : List (Placed α × Placed α)} :
    InOrder pairs ↔ ∀ pair ∈ pairs, changesRank pairs pair = false := by
  simp only [changesRank, decide_eq_false_iff_not, not_not]
  constructor
  · intro h pair hpair
    rw [rank_previous, rank_current]
    refine List.countP_congr fun other hother => ?_
    simpa using h other hother pair hpair
  · intro h pair hpair other hother
    have hprevious : rank (pairs.map (·.1.index)) pair.1.index < rank (pairs.map (·.1.index)) other.1.index
        ↔ pair.1.index < other.1.index :=
      rank_lt_rank_iff (List.mem_map_of_mem hpair) (List.mem_map_of_mem hother)
    have hcurrent : rank (pairs.map (·.2.index)) pair.2.index < rank (pairs.map (·.2.index)) other.2.index
        ↔ pair.2.index < other.2.index :=
      rank_lt_rank_iff (List.mem_map_of_mem hpair) (List.mem_map_of_mem hother)
    rw [← hprevious, ← hcurrent, h pair hpair, h other hother]

/-- **It is never one pair alone that changes its rank.** -/
theorem countP_changesRank_ne_one {pairs : List (Placed α × Placed α)}
    (hprevious : (pairs.map (·.1.index)).Nodup) (hcurrent : (pairs.map (·.2.index)).Nodup) :
    pairs.countP (changesRank pairs) ≠ 1 := by
  refine countP_ne_one_of_sum_eq ?_
  have hsum := (sum_rank hprevious).trans ((congrArg _ ?_).trans (sum_rank hcurrent).symm)
  · rwa [List.map_map, List.map_map] at hsum
  · rw [List.length_map, List.length_map]

/-! ## The pairs of an alignment -/

/-- Putting removed items between the entries leaves the pairs alone. -/
theorem pairsOf_place (removed : List (Placed α)) (slots : List (Slot α)) :
    pairsOf (place removed slots) = pairsOf slots := by
  have hremoved : ∀ items : List (Placed α), pairsOf (items.map Slot.removed) = [] := by
    intro items
    unfold pairsOf
    rw [List.filterMap_map, List.filterMap_eq_nil_iff]
    exact fun _ _ => rfl
  induction slots generalizing removed with
  | nil => exact hremoved removed
  | cons slot rest ih =>
      cases slot with
      | paired previous current moved =>
          rw [place_paired, pairsOf, List.filterMap_append]
          exact (congrArg (· ++ _) (hremoved _)).trans (congrArg ((previous, current) :: ·) (ih _))
      | added current => exact ih removed
      | removed previous => exact ih removed

theorem pairsOf_entries (pairs : List (Option (Placed α) × Placed α)) :
    pairsOf (entries pairs) = pairs.filterMap fun pair => pair.1.map fun previous => (previous, pair.2) := by
  unfold pairsOf entries
  rw [List.filterMap_map]
  refine List.filterMap_congr fun pair _ => ?_
  obtain ⟨previous, current⟩ := pair
  cases previous <;> rfl

end Align

open Align

variable {label : α → Label} {previous current : List α}

theorem pairsOf_align (label : α → Label) (previous current : List α) :
    pairsOf (align label previous current)
      = (pairUp label (placed previous) (placed current)).1.filterMap fun pair =>
        pair.1.map fun previous => (previous, pair.2) := by
  rw [align_eq, pairsOf_place, pairsOf_entries]

theorem previousPlaces_align (label : α → Label) (previous current : List α) :
    previousPlaces (pairUp label (placed previous) (placed current)).1
      = (pairsOf (align label previous current)).map (·.1.index) := by
  rw [pairsOf_align, List.map_filterMap]
  refine List.filterMap_congr fun pair _ => ?_
  rw [Option.map_map]
  rfl

theorem currentPlaces_align (label : α → Label) (previous current : List α) :
    currentPlaces (pairUp label (placed previous) (placed current)).1
      = (pairsOf (align label previous current)).map (·.2.index) := by
  rw [pairsOf_align, List.map_filterMap]
  refine List.filterMap_congr fun pair _ => ?_
  rw [Option.map_map]
  rfl

/-- The pairs of an alignment with their movement. -/
theorem paired_mem_align_iff {item other : Placed α} {moved : Bool} :
    Slot.paired item other moved ∈ align label previous current
      ↔ (item, other) ∈ pairsOf (align label previous current)
        ∧ moved = changesRank (pairsOf (align label previous current)) (item, other) := by
  have hpair : (item, other) ∈ pairsOf (align label previous current)
      ↔ (some item, other) ∈ (pairUp label (placed previous) (placed current)).1 := by
    simp [pairsOf_align, List.mem_filterMap]
  rw [paired_mem_align, paired_mem_entries, previousPlaces_align, currentPlaces_align, hpair]
  rfl

/-- An entry has moved if it is a pair that changes its rank. -/
theorem hasMoved_eq {slot : Slot α} (h : slot ∈ align label previous current) :
    slot.hasMoved
      = ((slot.both?.map (changesRank (pairsOf (align label previous current)))).getD false) := by
  cases slot with
  | paired item other moved => exact (paired_mem_align_iff.mp h).2
  | added | removed => rfl

/--
**A pair has moved if its rank among the pairs is not the same on both sides.**

* The rank on a side is the number of pairs that come before it there. What is added or removed has not moved.
* Nothing has moved if and only if the pairs stand in one order on both sides.
* It is never one entry alone that has moved.
-/
theorem align_moved (label : α → Label) (previous current : List α) :
    let slots := align label previous current
    let pairs := pairsOf slots
    (∀ item other moved, Slot.paired item other moved ∈ slots →
      (moved = true ↔ pairs.countP (fun pair => pair.1.index < item.index)
        ≠ pairs.countP fun pair => pair.2.index < other.index))
    ∧ (∀ slot ∈ slots, slot.isAdded ∨ slot.isRemoved → slot.hasMoved = false)
    ∧ ((∀ slot ∈ slots, slot.hasMoved = false) ↔ InOrder pairs)
    ∧ slots.countP Slot.hasMoved ≠ 1 := by
  intro slots pairs
  refine ⟨?ranks, ?unpaired, ?inOrder, ?notAlone⟩
  case ranks =>
    intro item other moved hslot
    rw [(paired_mem_align_iff.mp hslot).2, ← rank_previous, ← rank_current]
    exact decide_eq_true_iff
  case unpaired =>
    intro slot _ halone
    cases slot with
    | paired item other moved => simp [Slot.isAdded, Slot.isRemoved, Slot.previous?, Slot.current?] at halone
    | added | removed => rfl
  case inOrder =>
    rw [inOrder_iff_rank_eq]
    constructor
    · intro h pair hpair
      have hslot := paired_mem_align_iff.mpr ⟨hpair, rfl⟩
      exact h _ hslot
    · intro h slot hslot
      rw [hasMoved_eq hslot]
      cases hboth : slot.both? with
      | none => rfl
      | some pair => exact h pair (List.mem_filterMap.mpr ⟨slot, hslot, hboth⟩)
  case notAlone =>
    have hcount : slots.countP Slot.hasMoved
        = (slots.filterMap Slot.both?).countP (changesRank pairs) := by
      rw [List.countP_filterMap]
      exact List.countP_congr fun slot hslot => by rw [hasMoved_eq hslot]
    rw [hcount]
    refine countP_changesRank_ne_one ?_ ?_
    · rw [← previousPlaces_align]
      exact nodup_previousPlaces label previous current
    · rw [← currentPlaces_align]
      exact nodup_currentPlaces label previous current

/-- One item that goes behind two others moves all three. -/
example :
    ((align Label.named ["a", "b", "c", "d"] ["b", "c", "x", "a", "d"]).map fun slot =>
        (slot.current?.map Placed.index, slot.hasMoved))
      = [(some 0, true), (some 1, true), (some 2, false), (some 3, true), (some 4, false)] := by
  decide

end DecisionGraph
