import DecisionGraph.Proofs.Diff.Ranks
import Mathlib.Data.List.TakeWhile

/-!
# Where the entries of an alignment stand

An alignment is a partition of both sequences with a fixed order (`align_partition`): every item of
either sequence stands in exactly one entry, the current items in their order, the removed items in
theirs, and each removed item right before the first pair that comes from further back in the previous
sequence.

The last is `Align.Stands`. Putting the removed items between the entries walks along both lists once
(`Align.place`), and every pair that is passed takes the removed items with lower places along, so what is
still to be put down lies behind all pairs that have been passed.
-/

namespace DecisionGraph

variable {α : Type}

/-- The item of an entry that is in the previous sequence alone. -/
def Slot.gone? : Slot α → Option (Placed α)
  | .removed previous => some previous
  | _ => none

namespace Align

/-! ## The entries of the pairs -/

variable {pairs : List (Option (Placed α) × Placed α)}

/-- Every pair becomes one entry, with the same previous item. -/
theorem entries_previous (pairs : List (Option (Placed α) × Placed α)) :
    (entries pairs).filterMap Slot.previous? = pairs.filterMap Prod.fst := by
  unfold entries
  rw [List.filterMap_map]
  refine congrArg (List.filterMap · pairs) ?_
  funext pair
  obtain ⟨previous, current⟩ := pair
  cases previous with
  | none => rfl
  | some previous => rfl

/-- A pair without a previous item is an entry of an added one. -/
theorem added_mem_entries {current : Placed α} :
    Slot.added current ∈ entries pairs ↔ (none, current) ∈ pairs := by
  unfold entries
  rw [List.mem_map]
  constructor
  · intro ⟨⟨previous, other⟩, hmem, heq⟩
    cases previous with
    | none =>
        obtain rfl := Slot.added.inj heq
        exact hmem
    | some previous => cases heq
  · intro hmem
    exact ⟨_, hmem, rfl⟩

/-- **A pair has moved if its rank among the pairs is not the same on both sides.** -/
theorem paired_mem_entries {previous current : Placed α} {moved : Bool} :
    Slot.paired previous current moved ∈ entries pairs
      ↔ (some previous, current) ∈ pairs
        ∧ moved = decide (rank (previousPlaces pairs) previous.index
          ≠ rank (currentPlaces pairs) current.index) := by
  unfold entries
  rw [List.mem_map]
  constructor
  · intro ⟨⟨other, current'⟩, hmem, heq⟩
    cases other with
    | none => cases heq
    | some other =>
        obtain ⟨rfl, rfl, hmoved⟩ := Slot.paired.inj heq
        exact ⟨hmem, hmoved.symm⟩
  · intro ⟨hmem, hmoved⟩
    exact ⟨_, hmem, by rw [hmoved, entry]⟩

theorem removed_not_mem_entries {previous : Placed α} : Slot.removed previous ∉ entries pairs := by
  unfold entries
  intro hmem
  obtain ⟨⟨other, current⟩, _, heq⟩ := List.mem_map.mp hmem
  cases other with
  | none => cases heq
  | some other => cases heq

theorem entries_gone (pairs : List (Option (Placed α) × Placed α)) :
    (entries pairs).filterMap Slot.gone? = [] := by
  rw [List.filterMap_eq_nil_iff]
  intro slot hmem
  cases slot with
  | paired previous current moved => rfl
  | added current => rfl
  | removed previous => exact absurd hmem removed_not_mem_entries

/-! ## Putting removed items between entries -/

variable {removed : List (Placed α)} {slots : List (Slot α)}

theorem place_paired (removed : List (Placed α)) (previous current : Placed α) (moved : Bool)
    (rest : List (Slot α)) :
    place removed (.paired previous current moved :: rest)
      = (removed.takeWhile fun item => item.index < previous.index).map .removed ++
        .paired previous current moved ::
          place (removed.dropWhile fun item => item.index < previous.index) rest := rfl

theorem place_added (removed : List (Placed α)) (current : Placed α) (rest : List (Slot α)) :
    place removed (.added current :: rest) = .added current :: place removed rest := rfl

theorem place_removed (removed : List (Placed α)) (previous : Placed α) (rest : List (Slot α)) :
    place removed (.removed previous :: rest) = .removed previous :: place removed rest := rfl

/-- Both lists come out together. -/
theorem place_perm (removed : List (Placed α)) (slots : List (Slot α)) :
    (place removed slots).Perm (removed.map Slot.removed ++ slots) := by
  induction slots generalizing removed with
  | nil => rw [place, List.append_nil]
  | cons slot rest ih =>
      cases slot with
      | paired previous current moved =>
          rw [place_paired]
          -- what is passed and what is still to come make up the removed items
          have hsplit := List.takeWhile_append_dropWhile
            (p := fun item : Placed α => decide (item.index < previous.index)) (l := removed)
          conv => rhs; rw [← hsplit, List.map_append, List.append_assoc]
          refine List.Perm.append_left _ ?_
          exact ((ih _).cons _).trans List.perm_middle.symm
      | added current =>
          rw [place_added]
          exact ((ih removed).cons _).trans List.perm_middle.symm
      | removed previous =>
          rw [place_removed]
          exact ((ih removed).cons _).trans List.perm_middle.symm

/-- Nothing stands in an alignment but the entries and the removed items. -/
theorem mem_place {slot : Slot α} :
    slot ∈ place removed slots ↔ slot ∈ slots ∨ ∃ item ∈ removed, Slot.removed item = slot := by
  rw [(place_perm removed slots).mem_iff, List.mem_append, List.mem_map, or_comm]

/-- If nothing is gone from the entries, then what is gone from the alignment are the removed items. -/
theorem removed_mem_place (hgone : slots.filterMap Slot.gone? = []) {item : Placed α} :
    Slot.removed item ∈ place removed slots ↔ item ∈ removed := by
  rw [mem_place]
  constructor
  · intro hmem
    rcases hmem with hmem | ⟨other, hother, heq⟩
    · have hnone := List.filterMap_eq_nil_iff.mp hgone _ hmem
      cases hnone
    · rw [← Slot.removed.inj heq]
      exact hother
  · intro hmem
    exact Or.inr ⟨item, hmem, rfl⟩

theorem filterMap_gone_removed (removed : List (Placed α)) :
    (removed.map Slot.removed).filterMap Slot.gone? = removed := by
  rw [List.filterMap_map]
  exact List.filterMap_some

theorem filterMap_previous_removed (removed : List (Placed α)) :
    (removed.map Slot.removed).filterMap Slot.previous? = removed := by
  rw [List.filterMap_map]
  exact List.filterMap_some

/-- **The removed items stay in their order.** -/
theorem place_gone (removed : List (Placed α)) (h : slots.filterMap Slot.gone? = []) :
    (place removed slots).filterMap Slot.gone? = removed := by
  induction slots generalizing removed with
  | nil => exact filterMap_gone_removed removed
  | cons slot rest ih =>
      cases slot with
      | paired previous current moved =>
          have hfirst : (Slot.paired previous current moved).gone? = none := rfl
          rw [List.filterMap_cons_none hfirst] at h
          rw [place_paired, List.filterMap_append, filterMap_gone_removed,
            List.filterMap_cons_none hfirst, ih _ h, List.takeWhile_append_dropWhile]
      | added current =>
          have hfirst : (Slot.added current).gone? = none := rfl
          rw [List.filterMap_cons_none hfirst] at h
          rw [place_added, List.filterMap_cons_none hfirst, ih _ h]
      | removed previous =>
          have hfirst : (Slot.removed previous).gone? = some previous := rfl
          rw [List.filterMap_cons_some hfirst] at h
          cases h

/-- **How a removed item stands between the entries before it and after it.**

No pair before it comes from further back in the previous sequence. After it there are other removed
items, and then a pair that comes from further back, or nothing at all. -/
structure Stands (before : List (Slot α)) (item : Placed α) (after : List (Slot α)) : Prop where
  not_after : ∀ previous current moved, Slot.paired previous current moved ∈ before →
    ¬item.index < previous.index
  next : ∃ (others : List (Placed α)) (rest : List (Slot α)), after = others.map .removed ++ rest
    ∧ (rest = [] ∨ ∃ previous current moved more,
        rest = .paired previous current moved :: more ∧ item.index < previous.index)

theorem Stands.first {item : Placed α} {others : List (Placed α)} {rest : List (Slot α)}
    (h : rest = [] ∨ ∃ previous current moved more,
      rest = .paired previous current moved :: more ∧ item.index < previous.index) :
    Stands [] item (others.map .removed ++ rest) where
  not_after := by
    intro previous current moved hmem
    cases hmem
  next := ⟨others, rest, rfl, h⟩

/-- An entry that is no pair from further back makes no difference to what stands behind it. -/
theorem Stands.cons {slot : Slot α} {before after : List (Slot α)} {item : Placed α}
    (h : Stands before item after)
    (hslot : ∀ previous current moved, slot = .paired previous current moved →
      ¬item.index < previous.index) : Stands (slot :: before) item after where
  not_after := by
    intro previous current moved hmem
    rcases List.mem_cons.mp hmem with heq | hmem
    · exact hslot previous current moved heq.symm
    · exact h.not_after previous current moved hmem
  next := h.next

/-- Neither do removed items before it. -/
theorem Stands.append_removed {before after : List (Slot α)} {item : Placed α}
    (h : Stands before item after) (others : List (Placed α)) :
    Stands (others.map Slot.removed ++ before) item after := by
  induction others with
  | nil => exact h
  | cons other rest ih =>
      refine ih.cons ?_
      intro _ _ _ heq
      cases heq

/-- In a list of removed items alone every item is followed by others only. -/
theorem map_removed_eq_append {items : List (Placed α)} {before after : List (Slot α)}
    {item : Placed α} (h : items.map Slot.removed = before ++ .removed item :: after) :
    ∃ first last, items = first ++ item :: last ∧ before = first.map Slot.removed
      ∧ after = last.map Slot.removed := by
  obtain ⟨first, others, hitems, hfirst, hothers⟩ := List.map_eq_append_iff.mp h
  obtain ⟨other, last, hothers', hother, hlast⟩ := List.map_eq_cons_iff.mp hothers
  obtain rfl := Slot.removed.inj hother
  exact ⟨first, last, hitems.trans (congrArg (first ++ ·) hothers'), hfirst.symm, hlast.symm⟩

/-- What is dropped from a list in order does not come before the pair that is passed. -/
theorem not_lt_of_mem_dropWhile {place : Nat} {items : List (Placed α)} (h : Ascending items)
    {item : Placed α} (hmem : item ∈ items.dropWhile fun item => item.index < place) :
    ¬item.index < place := by
  induction items with
  | nil => cases hmem
  | cons first rest ih =>
      obtain ⟨hfirst, hrest⟩ := List.pairwise_cons.mp h
      rw [List.dropWhile_cons] at hmem
      split at hmem
      · exact ih hrest hmem
      · rename_i hge
        rw [decide_eq_true_eq] at hge
        rcases List.mem_cons.mp hmem with heq | hmem
        · rw [heq]
          exact hge
        · have hlt := hfirst item hmem
          omega

/-- An item that a pair takes along stands right before that pair. -/
theorem stands_of_taken {previous current item : Placed α} {moved : Bool}
    {before middle rest : List (Slot α)}
    (htaken : (removed.takeWhile fun item => item.index < previous.index).map Slot.removed
      = before ++ .removed item :: middle) :
    Stands before item (middle ++ .paired previous current moved :: rest) := by
  obtain ⟨taken, others, htaken', hbefore, hmiddle⟩ := map_removed_eq_append htaken
  have hlt : item.index < previous.index := by
    have hmem : item ∈ removed.takeWhile fun item => item.index < previous.index := by
      rw [htaken']
      exact List.mem_append_right _ (List.mem_cons_self ..)
    have htest := List.mem_takeWhile_imp hmem
    exact of_decide_eq_true htest
  have hstands : Stands [] item (middle ++ .paired previous current moved :: rest) := by
    rw [hmiddle]
    exact .first (Or.inr ⟨previous, current, moved, rest, rfl, hlt⟩)
  have hfirst := hstands.append_removed taken
  rwa [List.append_nil, ← hbefore] at hfirst

/-- An item that a pair leaves behind may stand anywhere behind that pair. -/
theorem Stands.behind_pair (h : Ascending removed) {previous current item : Placed α} {moved : Bool}
    {before after : List (Slot α)} (hstands : Stands before item after)
    (hitem : item ∈ removed.dropWhile fun item => item.index < previous.index)
    (taken : List (Placed α)) :
    Stands (taken.map Slot.removed ++ .paired previous current moved :: before) item after := by
  refine (hstands.cons ?_).append_removed taken
  intro other _ _ heq
  rw [← (Slot.paired.inj heq).1]
  exact not_lt_of_mem_dropWhile h hitem

/-- **Removed items are put right before the first pair that comes from further back.** -/
theorem place_stands (h : Ascending removed) (hgone : slots.filterMap Slot.gone? = [])
    {before after : List (Slot α)} {item : Placed α}
    (hsplit : place removed slots = before ++ .removed item :: after) : Stands before item after := by
  induction slots generalizing removed before with
  | nil =>
      rw [place] at hsplit
      obtain ⟨first, last, _, rfl, rfl⟩ := map_removed_eq_append hsplit
      have hstands : Stands [] item (last.map Slot.removed ++ []) := .first (Or.inl rfl)
      have hfirst := hstands.append_removed first
      rwa [List.append_nil, List.append_nil] at hfirst
  | cons slot rest ih =>
      cases slot with
      | paired previous current moved =>
          have hrest : rest.filterMap Slot.gone? = [] := hgone
          have hdropped : Ascending (removed.dropWhile fun item => item.index < previous.index) :=
            List.Pairwise.sublist (List.dropWhile_sublist _) h
          rw [place_paired] at hsplit
          rcases List.append_eq_append_iff.mp hsplit with
            ⟨middle, hbefore, hmiddle⟩ | ⟨middle, htaken, hmiddle⟩
          · -- behind the pair, or the pair itself, which is no removed item
            cases middle with
            | nil =>
                rw [List.nil_append] at hmiddle
                cases (List.cons.inj hmiddle).1
            | cons first middle =>
                obtain ⟨hpair, hrest'⟩ := List.cons.inj hmiddle
                have hitem : item ∈ removed.dropWhile fun item => item.index < previous.index := by
                  rw [← removed_mem_place hrest, hrest']
                  exact List.mem_append_right _ (List.mem_cons_self ..)
                rw [hbefore, ← hpair]
                exact (ih hdropped hrest hrest').behind_pair h hitem _
          · -- before the pair
            cases middle with
            | nil =>
                rw [List.nil_append] at hmiddle
                cases (List.cons.inj hmiddle).1
            | cons first middle =>
                obtain ⟨hitem, hafter⟩ := List.cons.inj hmiddle
                rw [← hitem] at htaken
                rw [hafter]
                exact stands_of_taken htaken
      | added current =>
          rw [place_added] at hsplit
          cases before with
          | nil => cases (List.cons.inj hsplit).1
          | cons first before =>
              obtain ⟨hfirst, hrest⟩ := List.cons.inj hsplit
              rw [← hfirst]
              refine (ih h hgone hrest).cons ?_
              intro _ _ _ heq
              cases heq
      | removed previous => cases hgone

end Align

/-! ## The whole alignment -/

section Whole

open Align

variable {label : α → Label} {previous current : List α}

theorem removed_mem_align {item : Placed α} :
    Slot.removed item ∈ align label previous current
      ↔ item ∈ (pairUp label (placed previous) (placed current)).2 := by
  rw [align_eq]
  exact removed_mem_place (entries_gone _)

theorem added_mem_align {item : Placed α} :
    Slot.added item ∈ align label previous current
      ↔ (none, item) ∈ (pairUp label (placed previous) (placed current)).1 := by
  rw [align_eq, mem_place, added_mem_entries]
  constructor
  · intro hmem
    rcases hmem with hmem | ⟨_, _, heq⟩
    · exact hmem
    · cases heq
  · exact Or.inl

theorem paired_mem_align {item other : Placed α} {moved : Bool} :
    Slot.paired item other moved ∈ align label previous current
      ↔ Slot.paired item other moved
        ∈ entries (pairUp label (placed previous) (placed current)).1 := by
  rw [align_eq, mem_place]
  constructor
  · intro hmem
    rcases hmem with hmem | ⟨_, _, heq⟩
    · exact hmem
    · cases heq
  · exact Or.inl

/-- **The previous side of an alignment is the previous sequence, in some order.** -/
theorem align_previous_perm (label : α → Label) (previous current : List α) :
    ((align label previous current).filterMap Slot.previous?).Perm (placed previous) := by
  have hplaced := (place_perm (pairUp label (placed previous) (placed current)).2
    (entries (pairUp label (placed previous) (placed current)).1)).filterMap Slot.previous?
  rw [← align_eq, List.filterMap_append, filterMap_previous_removed, entries_previous] at hplaced
  exact hplaced.trans (List.perm_append_comm.trans (pool_perm label (ascending_placed previous) _))

theorem align_gone (label : α → Label) (previous current : List α) :
    (align label previous current).filterMap Slot.gone?
      = (pairUp label (placed previous) (placed current)).2 := by
  rw [align_eq]
  exact place_gone _ (entries_gone _)

/--
**An alignment is a partition of both sequences, with a fixed place for every entry.**

Every place of the previous sequence and every place of the current one occurs once, with the item that
is there. No entry is empty. The current items come in their order, the removed ones in theirs, and each
removed item stands right before the first pair that comes from further back in the previous sequence.
-/
theorem align_partition (label : α → Label) (previous current : List α) :
    let slots := align label previous current
    (slots.filterMap fun slot => slot.previous?.map Placed.index).Perm (List.range previous.length)
      ∧ (slots.filterMap fun slot => slot.current?.map Placed.index) = List.range current.length
      ∧ (∀ slot ∈ slots, (∀ item ∈ slot.previous?, previous[item.index]? = some item.item)
          ∧ (∀ item ∈ slot.current?, current[item.index]? = some item.item)
          ∧ (slot.previous?.isSome ∨ slot.current?.isSome))
      ∧ Ascending (slots.filterMap Slot.gone?)
      ∧ ∀ before item after, slots = before ++ .removed item :: after →
          Stands before item after := by
  intro slots
  have hmap : ∀ side : Slot α → Option (Placed α),
      (slots.filterMap fun slot => (side slot).map Placed.index)
        = (slots.filterMap side).map Placed.index := by
    intro side
    rw [List.map_filterMap]
  refine ⟨?_, ?_, ?_, ?_, ?_⟩
  · rw [hmap, ← placed_index]
    exact (align_previous_perm label previous current).map Placed.index
  · rw [hmap, ← placed_index, align_current]
  · intro slot hslot
    refine ⟨?_, ?_, ?_⟩
    · intro item hitem
      refine mem_placed.mp ((align_previous_perm label previous current).mem_iff.mp ?_)
      exact List.mem_filterMap.mpr ⟨slot, hslot, hitem⟩
    · intro item hitem
      refine mem_placed.mp ?_
      rw [← align_current label previous current]
      exact List.mem_filterMap.mpr ⟨slot, hslot, hitem⟩
    · cases slot with
      | paired previous current moved => exact Or.inl rfl
      | added current => exact Or.inr rfl
      | removed previous => exact Or.inl rfl
  · rw [align_gone]
    exact ascending_left (ascending_placed previous) _
  · intro before item after hsplit
    exact place_stands (ascending_left (ascending_placed previous) _) (entries_gone _)
      ((align_eq label previous current).symm.trans hsplit)

/-- What is gone stands before what was behind it, although that has come to the front. -/
example :
    ((align Label.named ["a", "b", "c"] ["c", "d", "a"]).map fun slot =>
        (slot.previous?.map Placed.index, slot.current?.map Placed.index))
      = [(some 1, none), (some 2, some 0), (none, some 1), (some 0, some 2)] := by
  decide

end Whole

end DecisionGraph
