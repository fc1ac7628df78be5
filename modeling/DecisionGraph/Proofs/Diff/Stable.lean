import DecisionGraph.Proofs.Diff.Placement
import Mathlib.Data.List.Forall2

/-!
# Alignments in which nothing happens

If nothing was added, removed or moved, every item is paired with the item at its own place, and the two
have one label. The converse holds too: items with the labels of the items at their places are paired
with them (`align_keeps_iff`).

From left to right this is counting: the pairs hold all places of both sides, so the rank of an item
among them is its place. From right to left the pairing takes the first item of the pool every time.
For an id it is the first of its queue; for a fingerprint it is at distance zero.

An item with no label is paired with nothing, so a sequence with such an item is never aligned with
itself without something happening. Nothing happens to any other sequence (`align_self`).
-/

namespace DecisionGraph

variable {α : Type}

/-- The entry is a pair that has not moved, and its items are in a relation. -/
def Slot.Keeps (R : α → α → Prop) : Slot α → Prop
  | .paired previous current moved => moved = false ∧ R previous.item current.item
  | _ => False

namespace Align

variable {label : α → Label} {pool : List (Placed α)}

/-! ## Ranks -/

/-- Among all places, the rank of a place is the place itself. -/
theorem rank_of_perm {places : List Nat} {n i : Nat} (h : places.Perm (List.range n)) (hi : i < n) :
    rank places i = i := by
  obtain ⟨more, rfl⟩ := Nat.exists_eq_add_of_lt hi
  have hbelow : (List.range i).filter (· < i) = List.range i := by
    rw [List.filter_eq_self]
    intro j hj
    exact decide_eq_true (List.mem_range.mp hj)
  have habove : ((List.range (more + 1)).map (i + ·)).filter (· < i) = [] := by
    rw [List.filter_eq_nil_iff]
    intro j hj
    obtain ⟨k, _, rfl⟩ := List.mem_map.mp hj
    simp
  rw [rank_eq_of_perm h]
  unfold rank
  rw [Nat.add_assoc, List.range_add, List.filter_append, hbelow, habove,
    List.append_nil, List.length_range]

/-! ## Pairs with an item on both sides -/

/-- Pairs of previous and current items, as pairing gives them. -/
def joined (both : List (Placed α × Placed α)) : List (Option (Placed α) × Placed α) :=
  both.map fun pair => (some pair.1, pair.2)

variable {both : List (Placed α × Placed α)}

theorem mem_joined {item : Option (Placed α)} {other : Placed α} :
    (item, other) ∈ joined both ↔ ∃ previous, item = some previous ∧ (previous, other) ∈ both := by
  unfold joined
  rw [List.mem_map]
  constructor
  · intro ⟨⟨previous, current⟩, hmem, heq⟩
    obtain ⟨hitem, rfl⟩ := Prod.mk.inj heq
    exact ⟨previous, hitem.symm, hmem⟩
  · intro ⟨previous, hitem, hmem⟩
    exact ⟨(previous, other), hmem, by rw [hitem]⟩

theorem previousPlaces_joined (both : List (Placed α × Placed α)) :
    previousPlaces (joined both) = (both.map Prod.fst).map Placed.index := by
  unfold previousPlaces joined
  rw [List.filterMap_map, List.map_map, ← List.filterMap_eq_map]
  rfl

theorem currentPlaces_joined (both : List (Placed α × Placed α)) :
    currentPlaces (joined both) = (both.map Prod.snd).map Placed.index := by
  unfold currentPlaces joined
  rw [List.filterMap_map, List.map_map, ← List.filterMap_eq_map]
  rfl

/-- If no current item is alone, all pairs have an item on both sides. -/
theorem exists_joined {pairs : List (Option (Placed α) × Placed α)}
    (h : ∀ current, (none, current) ∉ pairs) : ∃ both, pairs = joined both := by
  induction pairs with
  | nil => exact ⟨[], rfl⟩
  | cons first rest ih =>
      obtain ⟨both, hboth⟩ := ih fun current hmem => h current (List.mem_cons_of_mem _ hmem)
      obtain ⟨previous, current⟩ := first
      cases previous with
      | none => exact absurd (List.mem_cons_self ..) (h current)
      | some previous =>
          refine ⟨(previous, current) :: both, ?_⟩
          rw [hboth]
          rfl

/-! ## Items that stand where they stood -/

/-- The first item of a pool is the partner for its label and place. -/
theorem partner?_first {first : Placed α} {rest : List (Placed α)} (h : Ascending (first :: rest))
    {wanted : Label} (hlabel : label first.item = wanted) (hwanted : wanted ≠ .unmarked) :
    partner? label (first :: rest) wanted first.index = some first := by
  have hcarriers := carriers_cons_of_eq hlabel rest
  cases wanted with
  | named id => rw [partner?_named, hcarriers, List.head?_cons]
  | print fingerprint =>
      rw [partner?_print, nearest?_eq_some (ascending_carriers h _), hcarriers]
      refine ⟨List.mem_cons_self .., ?_⟩
      intro other hother
      have hlater : first.index ≤ other.index := by
        rcases List.mem_cons.mp hother with heq | hother
        · rw [heq]
        · exact Nat.le_of_lt ((List.pairwise_cons.mp h).1 other (mem_carriers.mp hother).1)
      unfold Preferred distance
      omega
  | unmarked => exact absurd rfl hwanted

theorem without_first {first : Placed α} {rest : List (Placed α)} (h : Ascending (first :: rest)) :
    without (first :: rest) (some first) = rest := by
  rw [without_some, List.filter_cons_of_neg (by simp), List.filter_eq_self]
  intro other hother
  have hlt := (List.pairwise_cons.mp h).1 other hother
  rw [decide_eq_true_eq]
  omega

/-- **Items with the labels of the items at their places are paired with those.** -/
theorem pairUp_same_places {items : List (Placed α)} (h : Ascending pool)
    (hsame : List.Forall₂ (fun previous current => previous.index = current.index
      ∧ label previous.item = label current.item ∧ label current.item ≠ .unmarked) pool items) :
    pairUp label pool items = (joined (pool.zip items), []) := by
  induction hsame with
  | nil => rfl
  | @cons previous current pool items hfirst _ ih =>
      obtain ⟨hindex, hlabel, hmarked⟩ := hfirst
      have hpartner : partner? label (previous :: pool) (label current.item) current.index
          = some previous := by
        rw [← hindex]
        exact partner?_first h hlabel hmarked
      rw [pairUp_cons, hpartner]
      dsimp only
      rw [without_first h, ih (List.pairwise_cons.mp h).2]
      rfl

end Align

open Align

variable {label : α → Label} {previous current : List α}

theorem forall₂_placed {R : α → α → Prop} (h : List.Forall₂ R previous current) :
    List.Forall₂ (fun item other => item.index = other.index ∧ R item.item other.item)
      (placed previous) (placed current) := by
  obtain ⟨hlength, hget⟩ := List.forall₂_iff_get.mp h
  have hplaced : ∀ items : List α, (placed items).length = items.length := by
    intro items
    rw [← List.length_map Placed.index, placed_index, List.length_range]
  refine List.forall₂_iff_get.mpr ⟨by rw [hplaced, hplaced, hlength], ?_⟩
  intro i hi hi'
  rw [hplaced] at hi hi'
  simpa [placed] using hget i hi hi'

theorem placed_index_lt {items : List α} {item : Placed α} (h : item ∈ placed items) :
    item.index < items.length := by
  have hget := mem_placed.mp h
  exact (List.getElem?_eq_some_iff.mp hget).1

section Pairs

variable (h : ∀ slot ∈ align label previous current, ∃ item other moved, slot = .paired item other moved)
include h

/-- If nothing is added and nothing is removed, the pairs hold all items of both sides. -/
theorem exists_joined_of_paired :
    ∃ both, (pairUp label (placed previous) (placed current)).1 = joined both
      ∧ (both.map Prod.fst).Perm (placed previous) ∧ both.map Prod.snd = placed current := by
  have hleft : (pairUp label (placed previous) (placed current)).2 = [] := by
    refine List.eq_nil_iff_forall_not_mem.mpr fun item hmem => ?_
    obtain ⟨_, _, _, heq⟩ := h _ (removed_mem_align.mpr hmem)
    cases heq
  obtain ⟨both, hboth⟩ := exists_joined fun current hmem => by
    obtain ⟨_, _, _, heq⟩ := h _ (added_mem_align.mpr hmem)
    cases heq
  refine ⟨both, hboth, ?_, ?_⟩
  · have hperm := pool_perm label (ascending_placed previous) (placed current)
    rw [hleft, List.append_nil, hboth] at hperm
    unfold joined at hperm
    rw [List.filterMap_map] at hperm
    rwa [← List.filterMap_eq_map]
  · rw [← pairUp_current label (placed previous) (placed current), hboth]
    unfold joined
    rw [List.map_map]
    rfl

/-- **Partners have moved if they stand at different places,** where nothing is added and nothing is removed:
the ranks among all items are the places. -/
theorem moved_of_paired {item other : Placed α} {moved : Bool}
    (hslot : Slot.paired item other moved ∈ align label previous current) :
    moved = decide (item.index ≠ other.index) := by
  obtain ⟨both, hboth, hprevious, hcurrent⟩ := exists_joined_of_paired h
  rw [paired_mem_align, hboth] at hslot
  obtain ⟨hmem, hmoved⟩ := paired_mem_entries.mp hslot
  obtain ⟨_, hitem, hpair⟩ := mem_joined.mp hmem
  obtain rfl := Option.some.inj hitem
  have hitem : item.index < previous.length :=
    placed_index_lt (hprevious.mem_iff.mp (List.mem_map_of_mem hpair))
  have hother : other.index < current.length := by
    refine placed_index_lt ?_
    rw [← hcurrent]
    exact List.mem_map_of_mem hpair
  have hpreviousPlaces : (previousPlaces (joined both)).Perm (List.range previous.length) := by
    rw [previousPlaces_joined, ← placed_index]
    exact hprevious.map Placed.index
  have hcurrentPlaces : currentPlaces (joined both) = List.range current.length := by
    rw [currentPlaces_joined, hcurrent, placed_index]
  rw [hmoved, rank_of_perm hpreviousPlaces hitem, hcurrentPlaces, rank_of_perm (.refl _) hother]

end Pairs

/-- Two sequences aligned without anything happening are in relation item by item. -/
theorem forall₂_of_keeps {R : α → α → Prop}
    (h : ∀ slot ∈ align label previous current, slot.Keeps R) :
    List.Forall₂ (fun item other => label item = label other ∧ label other ≠ .unmarked
      ∧ R item other) previous current := by
  have hpaired : ∀ slot ∈ align label previous current,
      ∃ item other moved, slot = .paired item other moved := by
    intro slot hslot
    cases slot with
    | paired item other moved => exact ⟨item, other, moved, rfl⟩
    | added other => exact absurd (h _ hslot) id
    | removed item => exact absurd (h _ hslot) id
  obtain ⟨both, hboth, hprevious, hcurrent⟩ := exists_joined_of_paired hpaired
  have hpairs : ∀ pair ∈ both, pair.1.index = pair.2.index ∧ R pair.1.item pair.2.item := by
    intro pair hpair
    have hmem : (some pair.1, pair.2) ∈ (pairUp label (placed previous) (placed current)).1 := by
      rw [hboth]
      exact mem_joined.mpr ⟨pair.1, rfl, hpair⟩
    have hslot := paired_mem_align.mpr (paired_mem_entries.mpr ⟨hmem, rfl⟩)
    obtain ⟨hmoved, hR⟩ := h _ hslot
    rw [moved_of_paired hpaired hslot] at hmoved
    exact ⟨not_not.mp (of_decide_eq_false hmoved), hR⟩
  have hlabels : ∀ pair ∈ both, label pair.1.item = label pair.2.item
      ∧ label pair.2.item ≠ .unmarked := by
    intro pair hpair
    have hmem : (some pair.1, pair.2) ∈ (pairUp label (placed previous) (placed current)).1 := by
      rw [hboth]
      exact mem_joined.mpr ⟨pair.1, rfl, hpair⟩
    exact (label_eq_of_mem_pairUp (ascending_placed previous) hmem).2
  -- the partners have the places of the current items, so they stand in their order
  have hplaces : (both.map Prod.fst).map Placed.index = List.range current.length := by
    rw [← placed_index, ← hcurrent, List.map_map, List.map_map]
    exact List.map_congr_left fun pair hpair => (hpairs pair hpair).1
  have hascending : Ascending (both.map Prod.fst) := by
    refine List.pairwise_map.mp ?_
    rw [hplaces]
    exact List.pairwise_lt_range
  have hordered : both.map Prod.fst = placed previous := by
    refine List.Perm.eq_of_pairwise ?_ hascending (ascending_placed previous) hprevious
    intro item other _ _ hlt hgt
    omega
  rw [← placed_item previous, ← placed_item current, ← hordered, ← hcurrent]
  simp only [List.forall₂_map_left_iff, List.forall₂_map_right_iff, List.forall₂_same]
  intro pair hpair
  exact ⟨(hlabels pair hpair).1, (hlabels pair hpair).2, (hpairs pair hpair).2⟩

/--
**When nothing happens in an alignment.**

Every entry is a pair that has not moved, and its items are in a relation, if and only if that is so of
the items at the same places, and these have one label each.
-/
theorem align_keeps_iff {R : α → α → Prop} :
    (∀ slot ∈ align label previous current, slot.Keeps R)
      ↔ List.Forall₂ (fun item other => label item = label other ∧ label other ≠ .unmarked
          ∧ R item other) previous current := by
  refine ⟨forall₂_of_keeps, fun h => ?_⟩
  have hplaced := forall₂_placed h
  have hpairs : pairUp label (placed previous) (placed current)
      = (joined ((placed previous).zip (placed current)), []) := by
    refine pairUp_same_places (ascending_placed previous) (hplaced.imp fun item other hboth => ?_)
    exact ⟨hboth.1, hboth.2.1, hboth.2.2.1⟩
  have hzip : ∀ item other, (item, other) ∈ (placed previous).zip (placed current) →
      item.index = other.index ∧ R item.item other.item := by
    intro item other hmem
    obtain ⟨hindex, _, _, hR⟩ := (List.forall₂_iff_zip.mp hplaced).2 hmem
    exact ⟨hindex, hR⟩
  have hplaces : previousPlaces (joined ((placed previous).zip (placed current)))
      = currentPlaces (joined ((placed previous).zip (placed current))) := by
    rw [previousPlaces_joined, currentPlaces_joined, List.map_map, List.map_map]
    exact List.map_congr_left fun pair hpair => (hzip pair.1 pair.2 hpair).1
  intro slot hslot
  cases slot with
  | paired item other moved =>
      rw [paired_mem_align, hpairs, paired_mem_entries, hplaces] at hslot
      obtain ⟨hmem, hmoved⟩ := hslot
      obtain ⟨_, hitem, hpair⟩ := mem_joined.mp hmem
      obtain rfl := Option.some.inj hitem
      obtain ⟨hindex, hR⟩ := hzip item other hpair
      rw [hindex] at hmoved
      exact ⟨by simpa using hmoved, hR⟩
  | added other =>
      rw [added_mem_align, hpairs] at hslot
      obtain ⟨_, hnone, _⟩ := mem_joined.mp hslot
      cases hnone
  | removed item =>
      rw [removed_mem_align, hpairs] at hslot
      cases hslot

/-! ## A sequence and itself -/

/-- An alignment is stable if every entry is a pair that has not moved. -/
theorem isStable_iff_keeps {slots : List (Slot α)} :
    isStable slots = true ↔ ∀ slot ∈ slots, slot.Keeps fun _ _ => True := by
  unfold isStable
  rw [List.all_eq_true]
  refine forall_congr' fun slot => imp_congr_right fun _ => ?_
  cases slot with
  | paired previous current moved =>
      simp [Slot.Keeps, Slot.hasMoved, Slot.isAdded, Slot.isRemoved, Slot.previous?, Slot.current?]
  | added current => simp [Slot.Keeps, Slot.isAdded, Slot.previous?]
  | removed previous => simp [Slot.Keeps, Slot.isRemoved, Slot.current?]

/-- Where a sequence is aligned with itself, a pair that has not moved is one item twice. -/
theorem eq_of_stable {items : List α} (h : isStable (align label items items) = true) {slot : Slot α}
    (hslot : slot ∈ align label items items) : ∃ item, slot = .paired item item false := by
  have hkeeps := isStable_iff_keeps.mp h
  have hpaired : ∀ slot ∈ align label items items, ∃ item other moved, slot = .paired item other moved := by
    intro slot hslot
    cases slot with
    | paired item other moved => exact ⟨item, other, moved, rfl⟩
    | added | removed => exact (hkeeps _ hslot).elim
  obtain ⟨item, other, moved, rfl⟩ := hpaired slot hslot
  obtain ⟨rfl, -⟩ := hkeeps _ hslot
  have hindex : item.index = other.index := by
    have hmoved := moved_of_paired hpaired hslot
    exact not_not.mp (of_decide_eq_false hmoved.symm)
  have hpair := (paired_mem_entries.mp (paired_mem_align.mp hslot)).1
  have hitem : item ∈ placed items := (label_eq_of_mem_pairUp (ascending_placed items) hpair).1
  have hother : other ∈ placed items := mem_of_mem_pairUp hpair
  rw [(ascending_placed items).eq_of_index hitem hother hindex]
  exact ⟨other, rfl⟩

/--
**A sequence and itself.**

The alignment of a sequence with itself is stable if and only if every item has an id or a fingerprint, and
just then every place is paired with itself, in order, and nothing else happens.
-/
theorem align_self (label : α → Label) (items : List α) :
    (isStable (align label items items) = true ↔ ∀ item ∈ items, label item ≠ .unmarked)
    ∧ (align label items items = (placed items).map (fun item => .paired item item false)
      ↔ ∀ item ∈ items, label item ≠ .unmarked) := by
  have hstable : isStable (align label items items) = true ↔ ∀ item ∈ items, label item ≠ .unmarked := by
    rw [isStable_iff_keeps, align_keeps_iff, List.forall₂_same]
    simp
  refine ⟨hstable, ?_⟩
  rw [← hstable]
  constructor
  · intro heq
    rw [heq, isStable, List.all_map]
    exact List.all_eq_true.mpr fun _ _ => rfl
  · intro h
    have hcurrent : ∀ slot ∈ align label items items,
        some slot = slot.current?.map fun item => Slot.paired item item false := by
      intro slot hslot
      obtain ⟨item, rfl⟩ := eq_of_stable h hslot
      rfl
    rw [← align_current label items items, List.map_filterMap, ← List.filterMap_congr hcurrent,
      List.filterMap_some]

/-- Items known by ids and by fingerprints, some of them by the same, are all paired with themselves. -/
example :
    let items : List Label := [.print "x", .named "a", .print "x", .named "a", .print "y"]
    isStable (align id items items) = true
      ∧ isStable (align id (.unmarked :: items) (.unmarked :: items)) = false := by
  decide

end DecisionGraph
