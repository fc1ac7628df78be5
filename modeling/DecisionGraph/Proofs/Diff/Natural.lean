import DecisionGraph.Proofs.Diff.Ranks

/-!
# Alignments see nothing but labels

Items can be replaced, all of them in the same way, before two sequences are aligned or after that
(`align_map`): if each keeps its label, the entries are the same. Every step of an alignment looks at the
labels and the places of items and at nothing else, so each step has a lemma here that says so.
-/

namespace DecisionGraph

variable {α β : Type}

/-- The item that another one is replaced with, at its place. -/
def Placed.map (f : α → β) (item : Placed α) : Placed β := ⟨item.index, f item.item⟩

/-- The entry with its items replaced. -/
def Slot.map (f : α → β) : Slot α → Slot β
  | .paired previous current moved => .paired (previous.map f) (current.map f) moved
  | .added current => .added (current.map f)
  | .removed previous => .removed (previous.map f)

theorem placed_map (f : α → β) (items : List α) :
    placed (items.map f) = (placed items).map (Placed.map f) := by
  unfold placed
  rw [List.zipIdx_map, List.map_map, List.map_map]
  rfl

namespace Align

variable (f : α → β) (label : β → Label)

theorem nearest?_map (place : Nat) (items : List (Placed α)) :
    nearest? place (items.map (Placed.map f)) = (nearest? place items).map (Placed.map f) := by
  induction items with
  | nil => rfl
  | cons first rest ih =>
      rw [List.map_cons, nearest?, nearest?, ih]
      cases nearest? place rest with
      | none => rfl
      | some other =>
          dsimp only [Option.map_some]
          rw [apply_ite (Option.map (Placed.map f))]
          rfl

theorem carriers_map (wanted : Label) (pool : List (Placed α)) :
    carriers label wanted (pool.map (Placed.map f))
      = (carriers (label ∘ f) wanted pool).map (Placed.map f) := List.filter_map ..

theorem partner?_map (pool : List (Placed α)) (wanted : Label) (place : Nat) :
    partner? label (pool.map (Placed.map f)) wanted place
      = (partner? (label ∘ f) pool wanted place).map (Placed.map f) := by
  cases wanted with
  | named id => rw [partner?_named, partner?_named, carriers_map, List.head?_map]
  | print fingerprint => rw [partner?_print, partner?_print, carriers_map, nearest?_map]
  | unmarked => rfl

theorem without_map (pool : List (Placed α)) (partner : Option (Placed α)) :
    without (pool.map (Placed.map f)) (partner.map (Placed.map f))
      = (without pool partner).map (Placed.map f) := by
  cases partner with
  | none => rfl
  | some partner => exact List.filter_map ..

/-- Items are paired with the same items. -/
theorem pairUp_map (pool items : List (Placed α)) :
    pairUp label (pool.map (Placed.map f)) (items.map (Placed.map f))
      = ((pairUp (label ∘ f) pool items).1.map (Prod.map (Option.map (Placed.map f)) (Placed.map f)),
        (pairUp (label ∘ f) pool items).2.map (Placed.map f)) := by
  induction items generalizing pool with
  | nil => rfl
  | cons current rest ih =>
      have hpartner := partner?_map f label pool (label (f current.item)) current.index
      rw [List.map_cons, pairUp_cons, pairUp_cons]
      dsimp only [Placed.map, Function.comp_apply] at hpartner ⊢
      rw [hpartner, without_map, ih]
      rfl

/-- Places are the same for other items. -/
theorem places_map (pairs : List (Option (Placed α) × Placed α)) :
    previousPlaces (pairs.map (Prod.map (Option.map (Placed.map f)) (Placed.map f))) = previousPlaces pairs
    ∧ currentPlaces (pairs.map (Prod.map (Option.map (Placed.map f)) (Placed.map f))) = currentPlaces pairs := by
  unfold previousPlaces currentPlaces
  rw [List.filterMap_map, List.filterMap_map]
  constructor
  all_goals
    refine List.filterMap_congr fun pair _ => ?_
    rw [Function.comp_apply, Prod.map_fst, Option.map_map]
    rfl

/-- Whether a pair has moved is seen from places. -/
theorem entries_map (pairs : List (Option (Placed α) × Placed α)) :
    entries (pairs.map (Prod.map (Option.map (Placed.map f)) (Placed.map f)))
      = (entries pairs).map (Slot.map f) := by
  obtain ⟨hprevious, hcurrent⟩ := places_map f pairs
  unfold entries
  rw [hprevious, hcurrent, List.map_map, List.map_map]
  refine List.map_congr_left fun pair _ => ?_
  obtain ⟨partner, current⟩ := pair
  cases partner <;> rfl

/-- Removed items are put at the same places. -/
theorem place_map (removed : List (Placed α)) (slots : List (Slot α)) :
    place (removed.map (Placed.map f)) (slots.map (Slot.map f)) = (place removed slots).map (Slot.map f) := by
  induction slots generalizing removed with
  | nil =>
      rw [List.map_nil, place, place, List.map_map, List.map_map]
      rfl
  | cons slot rest ih =>
      cases slot with
      | added current => exact congrArg (Slot.map f (.added current) :: ·) (ih removed)
      | removed previous => exact congrArg (Slot.map f (.removed previous) :: ·) (ih removed)
      | paired previous current moved =>
          rw [List.map_cons, Slot.map, place, place, List.takeWhile_map, List.dropWhile_map, List.map_map,
            List.map_append, List.map_map, List.map_cons]
          exact congrArg (_ ++ _ :: ·) (ih _)

end Align

/-- **Items can be replaced before an alignment or after it.** -/
theorem align_map (f : α → β) (label : β → Label) (previous current : List α) :
    align label (previous.map f) (current.map f)
      = (align (label ∘ f) previous current).map (Slot.map f) := by
  rw [align_eq, align_eq, placed_map, placed_map, Align.pairUp_map, Align.entries_map, Align.place_map]

/-- Only the labels of the items themselves count. -/
theorem align_congr {label label' : α → Label} {previous current : List α}
    (hprevious : ∀ item ∈ previous, label item = label' item)
    (hcurrent : ∀ item ∈ current, label item = label' item) :
    align label previous current = align label' previous current := by
  -- the items as items that have one label by both
  have hlabels : label ∘ Subtype.val
      = label' ∘ (Subtype.val : {item // label item = label' item} → α) := funext Subtype.prop
  rw [← List.attachWith_map_subtype_val hprevious, ← List.attachWith_map_subtype_val hcurrent, align_map,
    align_map, hlabels]

end DecisionGraph
