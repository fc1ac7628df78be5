import DecisionGraph.Proofs.Diff.Align
import Mathlib.Data.List.Nodup
import Mathlib.Data.List.Perm.Basic

/-!
# How items are paired

Pairing goes through the current items and takes a partner out of a pool for each of them. Whatever is
said about it rests on two facts:

1. **What an item is paired with** is its partner in the pool that the items before it have left
   (`Align.mem_pairUp_iff`). This says everything about one item, if one knows what they have left.
2. **What is left of a pool** is what has been paired with nothing (`Align.mem_left_iff`), and no item
   of the pool is paired twice (`Align.pool_perm`).

Both need that a place stands for one item, so all pools here are in the order of their places
(`Ascending`).
-/

namespace DecisionGraph

variable {α : Type}

/-! ## Items in the order of their places -/

/-- The places of the items ascend. -/
def Ascending (items : List (Placed α)) : Prop := items.Pairwise fun a b => a.index < b.index

/-- The places of a sequence are counted from zero. -/
theorem placed_index (items : List α) :
    (placed items).map Placed.index = List.range items.length := by
  have hcount : (placed items).map Placed.index = items.zipIdx.map Prod.snd := by
    unfold placed
    rw [List.map_map]
    rfl
  rw [hcount, List.zipIdx_map_snd, List.range_eq_range']

/-- An item stands at its place. -/
theorem mem_placed {items : List α} {item : Placed α} :
    item ∈ placed items ↔ items[item.index]? = some item.item := by
  unfold placed
  rw [List.mem_map]
  constructor
  · intro ⟨⟨value, index⟩, hmem, heq⟩
    rw [← heq]
    exact List.mem_zipIdx_iff_getElem?.mp hmem
  · intro hget
    exact ⟨(item.item, item.index), List.mem_zipIdx_iff_getElem?.mpr hget, rfl⟩

theorem ascending_placed (items : List α) : Ascending (placed items) := by
  have hrange : ((placed items).map Placed.index).Pairwise (· < ·) := by
    rw [placed_index]
    exact List.pairwise_lt_range
  exact List.pairwise_map.mp hrange

theorem Ascending.nodup {items : List (Placed α)} (h : Ascending items) : items.Nodup := by
  refine List.Pairwise.imp ?_ h
  intro a b hlt heq
  rw [heq] at hlt
  omega

/-- In a list like this a place stands for one item. -/
theorem Ascending.eq_of_index {items : List (Placed α)} (h : Ascending items) {a b : Placed α}
    (ha : a ∈ items) (hb : b ∈ items) (hindex : a.index = b.index) : a = b := by
  induction items with
  | nil => cases ha
  | cons first rest ih =>
      obtain ⟨hfirst, hrest⟩ := List.pairwise_cons.mp h
      rcases List.mem_cons.mp ha with ha' | ha'
      · rcases List.mem_cons.mp hb with hb' | hb'
        · rw [ha', hb']
        · have hlt := hfirst b hb'
          rw [← ha'] at hlt
          omega
      · rcases List.mem_cons.mp hb with hb' | hb'
        · have hlt := hfirst a ha'
          rw [← hb'] at hlt
          omega
        · exact ih hrest ha' hb'

/-- The items before an item are those with lower places. -/
theorem Ascending.mem_before_iff {before after : List (Placed α)} {item other : Placed α}
    (h : Ascending (before ++ item :: after)) (hother : other ∈ before ++ item :: after) :
    other ∈ before ↔ other.index < item.index := by
  obtain ⟨_, hafter, hlt⟩ := List.pairwise_append.mp h
  constructor
  · intro hmem
    exact hlt other hmem item (List.mem_cons_self ..)
  · intro hindex
    rcases List.mem_append.mp hother with hmem | hmem
    · exact hmem
    · rcases List.mem_cons.mp hmem with heq | hmem
      · rw [heq] at hindex
        omega
      · have hgt := (List.pairwise_cons.mp hafter).1 other hmem
        omega

namespace Align

/-! ## The nearest item -/

/-- The one item is chosen before the other for a place: it is nearer, or as near and comes first. -/
def Preferred (place : Nat) (item other : Placed α) : Prop :=
  distance item.index place < distance other.index place
    ∨ (distance item.index place = distance other.index place ∧ item.index ≤ other.index)

theorem Preferred.index_eq {place : Nat} {a b : Placed α} (h : Preferred place a b)
    (h' : Preferred place b a) : a.index = b.index := by
  unfold Preferred at h h'
  omega

theorem nearest?_eq_none {place : Nat} {items : List (Placed α)} :
    nearest? place items = none ↔ items = [] := by
  cases items with
  | nil => exact ⟨fun _ => rfl, fun _ => rfl⟩
  | cons first rest =>
      have hsome : nearest? place (first :: rest) ≠ none := by
        unfold nearest?
        split
        · exact Option.some_ne_none _
        · split <;> exact Option.some_ne_none _
      exact ⟨fun h => absurd h hsome, fun h => absurd h (List.cons_ne_nil _ _)⟩

/-- What is found is preferred to everything else. -/
theorem nearest?_spec {place : Nat} {items : List (Placed α)} (h : Ascending items)
    {item : Placed α} (hitem : nearest? place items = some item) :
    item ∈ items ∧ ∀ other ∈ items, Preferred place item other := by
  induction items generalizing item with
  | nil => cases hitem
  | cons first rest ih =>
      obtain ⟨hfirst, hrest⟩ := List.pairwise_cons.mp h
      have hself : Preferred place first first := Or.inr ⟨rfl, Nat.le_refl _⟩
      unfold nearest? at hitem
      cases hnearest : nearest? place rest with
      | none =>
          rw [hnearest] at hitem
          obtain rfl := Option.some.inj hitem
          rw [nearest?_eq_none.mp hnearest]
          refine ⟨List.mem_cons_self .., ?_⟩
          intro other hother
          rw [List.mem_singleton.mp hother]
          exact hself
      | some best =>
          obtain ⟨hbest, hleast⟩ := ih hrest hnearest
          have hafter := hfirst best hbest
          rw [hnearest] at hitem
          dsimp only at hitem
          split at hitem
          · -- something further on is strictly nearer
            rename_i hnearer
            obtain rfl := Option.some.inj hitem
            refine ⟨List.mem_cons_of_mem _ hbest, ?_⟩
            intro other hother
            rcases List.mem_cons.mp hother with heq | hother
            · rw [heq]
              exact Or.inl hnearer
            · exact hleast other hother
          · rename_i hnearer
            obtain rfl := Option.some.inj hitem
            refine ⟨List.mem_cons_self .., ?_⟩
            intro other hother
            rcases List.mem_cons.mp hother with heq | hother
            · rw [heq]
              exact hself
            · have hother' := hleast other hother
              have hlater := hfirst other hother
              unfold Preferred at hother' ⊢
              omega

/-- **The nearest item is the one that is preferred to all.** -/
theorem nearest?_eq_some {place : Nat} {items : List (Placed α)} (h : Ascending items)
    {item : Placed α} :
    nearest? place items = some item ↔ item ∈ items ∧ ∀ other ∈ items, Preferred place item other := by
  constructor
  · exact nearest?_spec h
  · intro ⟨hitem, hleast⟩
    cases hnearest : nearest? place items with
    | none =>
        rw [nearest?_eq_none.mp hnearest] at hitem
        cases hitem
    | some best =>
        obtain ⟨hbest, hleast'⟩ := nearest?_spec h hnearest
        have hindex := (hleast' item hitem).index_eq (hleast best hbest)
        rw [h.eq_of_index hbest hitem hindex]

/-! ## The partner of one item -/

/-- The items of a pool that have a label. -/
def carriers (label : α → Label) (wanted : Label) (pool : List (Placed α)) : List (Placed α) :=
  pool.filter fun candidate => label candidate.item = wanted

variable {label : α → Label} {pool : List (Placed α)}

theorem mem_carriers {wanted : Label} {item : Placed α} :
    item ∈ carriers label wanted pool ↔ item ∈ pool ∧ label item.item = wanted := by
  simp [carriers]

theorem carriers_cons_of_eq {wanted : Label} {item : Placed α} (h : label item.item = wanted)
    (rest : List (Placed α)) :
    carriers label wanted (item :: rest) = item :: carriers label wanted rest :=
  List.filter_cons_of_pos (decide_eq_true h)

theorem carriers_cons_of_ne {wanted : Label} {item : Placed α} (h : label item.item ≠ wanted)
    (rest : List (Placed α)) :
    carriers label wanted (item :: rest) = carriers label wanted rest :=
  List.filter_cons_of_neg (by simp [h])

theorem ascending_carriers (h : Ascending pool) (wanted : Label) :
    Ascending (carriers label wanted pool) := List.Pairwise.filter _ h

theorem partner?_named (id : String) (place : Nat) :
    partner? label pool (.named id) place = (carriers label (.named id) pool).head? := rfl

theorem partner?_print (fingerprint : String) (place : Nat) :
    partner? label pool (.print fingerprint) place
      = nearest? place (carriers label (.print fingerprint) pool) := rfl

/-- A partner has the label that it was chosen for, and that is one. -/
theorem partner?_spec (h : Ascending pool) {wanted : Label} {place : Nat} {item : Placed α}
    (hitem : partner? label pool wanted place = some item) :
    item ∈ pool ∧ label item.item = wanted ∧ wanted ≠ .unmarked := by
  cases wanted with
  | named id =>
      rw [partner?_named] at hitem
      obtain ⟨hpool, hlabel⟩ := mem_carriers.mp (List.mem_of_mem_head? hitem)
      exact ⟨hpool, hlabel, Label.noConfusion⟩
  | print fingerprint =>
      rw [partner?_print] at hitem
      obtain ⟨hpool, hlabel⟩ := mem_carriers.mp (nearest?_spec (ascending_carriers h _) hitem).1
      exact ⟨hpool, hlabel, Label.noConfusion⟩
  | unmarked => cases hitem

/-- A label that the pool has is found in it. -/
theorem partner?_eq_none {wanted : Label} (hwanted : wanted ≠ .unmarked) {place : Nat} :
    partner? label pool wanted place = none ↔ carriers label wanted pool = [] := by
  cases wanted with
  | named id => rw [partner?_named, List.head?_eq_none_iff]
  | print fingerprint => rw [partner?_print, nearest?_eq_none]
  | unmarked => exact absurd rfl hwanted

/-! ## All items in turn -/

/-- A pool without the partner of an item, if it has one. -/
def without (pool : List (Placed α)) : Option (Placed α) → List (Placed α)
  | none => pool
  | some partner => pool.filter fun other => other.index ≠ partner.index

theorem without_some (pool : List (Placed α)) (partner : Placed α) :
    without pool (some partner) = pool.filter fun other => other.index ≠ partner.index := rfl

theorem without_sublist (pool : List (Placed α)) (partner : Option (Placed α)) :
    (without pool partner).Sublist pool := by
  cases partner with
  | none => exact List.Sublist.refl _
  | some partner => exact List.filter_sublist

theorem mem_without (h : Ascending pool) {partner : Option (Placed α)}
    (hpartner : ∀ item ∈ partner, item ∈ pool) {item : Placed α} :
    item ∈ without pool partner ↔ item ∈ pool ∧ partner ≠ some item := by
  cases partner with
  | none => simp [without]
  | some partner =>
      have hmem : partner ∈ pool := hpartner partner rfl
      rw [without_some, List.mem_filter, decide_eq_true_eq]
      refine and_congr_right fun hitem => ?_
      constructor
      · intro hne heq
        exact hne (congrArg Placed.index (Option.some.inj heq)).symm
      · intro hne hindex
        exact hne (congrArg some (h.eq_of_index hmem hitem hindex.symm))

/-- Taking a partner out of the pool loses nothing else. -/
theorem perm_without (h : Ascending pool) {partner : Option (Placed α)}
    (hpartner : ∀ item ∈ partner, item ∈ pool) :
    (partner.toList ++ without pool partner).Perm pool := by
  have hwithout : (without pool partner).Nodup := h.nodup.sublist (without_sublist pool partner)
  cases partner with
  | none => exact List.Perm.refl _
  | some partner =>
      have hnot : partner ∉ without pool (some partner) := by
        rw [mem_without h hpartner]
        exact fun hmem => hmem.2 rfl
      refine (List.perm_ext_iff_of_nodup (List.nodup_cons.mpr ⟨hnot, hwithout⟩) h.nodup).mpr ?_
      intro item
      rw [List.mem_cons, mem_without h hpartner]
      by_cases heq : item = partner
      · rw [heq]
        simp [hpartner partner rfl]
      · have hne : some partner ≠ some item := fun hsome => heq (Option.some.inj hsome).symm
        simp [heq, hne]

variable (label pool)

theorem pairUp_cons (current : Placed α) (rest : List (Placed α)) :
    pairUp label pool (current :: rest)
      = let partner := partner? label pool (label current.item) current.index
        ((partner, current) :: (pairUp label (without pool partner) rest).1,
          (pairUp label (without pool partner) rest).2) := by
  rw [pairUp]
  cases partner? label pool (label current.item) current.index with
  | none => rfl
  | some partner => rfl

/-- The items that come later find what the earlier ones have left. -/
theorem pairUp_append (before after : List (Placed α)) :
    pairUp label pool (before ++ after)
      = ((pairUp label pool before).1 ++ (pairUp label (pairUp label pool before).2 after).1,
          (pairUp label (pairUp label pool before).2 after).2) := by
  induction before generalizing pool with
  | nil => rfl
  | cons current rest ih =>
      rw [List.cons_append, pairUp_cons, pairUp_cons]
      dsimp only
      rw [ih]
      rfl

theorem left_sublist (items : List (Placed α)) : (pairUp label pool items).2.Sublist pool := by
  induction items generalizing pool with
  | nil => exact List.Sublist.refl _
  | cons current rest ih =>
      rw [pairUp_cons]
      exact (ih _).trans (without_sublist pool _)

variable {label pool}

theorem ascending_left (h : Ascending pool) (items : List (Placed α)) :
    Ascending (pairUp label pool items).2 :=
  List.Pairwise.sublist (left_sublist label pool items) h

theorem mem_partner? (h : Ascending pool) {wanted : Label} {place : Nat} :
    ∀ item ∈ partner? label pool wanted place, item ∈ pool :=
  fun _ hitem => (partner?_spec h hitem).1

/-- **No item of the pool is lost, and none is paired twice.** -/
theorem pool_perm (label : α → Label) (h : Ascending pool) (items : List (Placed α)) :
    ((pairUp label pool items).1.filterMap Prod.fst ++ (pairUp label pool items).2).Perm pool := by
  induction items generalizing pool with
  | nil => exact List.Perm.refl _
  | cons current rest ih =>
      have hpartner : ∀ item ∈ partner? label pool (label current.item) current.index, item ∈ pool :=
        mem_partner? h
      rw [pairUp_cons]
      dsimp only
      generalize partner? label pool (label current.item) current.index = partner at hpartner ⊢
      have hrest := ih (List.Pairwise.sublist (without_sublist pool partner) h)
      have hstep : (partner.toList ++ without pool partner).Perm pool := perm_without h hpartner
      refine List.Perm.trans ?_ hstep
      cases partner with
      | none => exact hrest
      | some partner => exact hrest.cons partner

/-- **What is left is what has been paired with nothing.** -/
theorem mem_left_iff (h : Ascending pool) {items : List (Placed α)} {item : Placed α} :
    item ∈ (pairUp label pool items).2
      ↔ item ∈ pool ∧ ∀ current, (some item, current) ∉ (pairUp label pool items).1 := by
  have hperm := pool_perm label h items
  have hnodup := hperm.nodup_iff.mpr h.nodup
  have hpaired : (∃ current, (some item, current) ∈ (pairUp label pool items).1)
      ↔ item ∈ (pairUp label pool items).1.filterMap Prod.fst := by
    simp [List.mem_filterMap]
  rw [← hperm.mem_iff, List.mem_append, ← not_exists, hpaired]
  constructor
  · intro hleft
    exact ⟨Or.inr hleft, fun hmem => List.disjoint_of_nodup_append hnodup hmem hleft⟩
  · intro ⟨hmem, hnot⟩
    exact hmem.resolve_left hnot

/-- The items that are paired are the items that were given. -/
theorem mem_of_mem_pairUp {items : List (Placed α)} {pair : Option (Placed α) × Placed α}
    (h : pair ∈ (pairUp label pool items).1) : pair.2 ∈ items := by
  have hcurrent := pairUp_current label pool items
  rw [← hcurrent]
  exact List.mem_map_of_mem h

/-- **An item is paired with its partner in what the items before it have left.** -/
theorem mem_pairUp_iff {before after : List (Placed α)} {current : Placed α}
    (h : Ascending (before ++ current :: after)) {partner : Option (Placed α)} :
    (partner, current) ∈ (pairUp label pool (before ++ current :: after)).1
      ↔ partner
        = partner? label (pairUp label pool before).2 (label current.item) current.index := by
  have hnodup := h.nodup
  have hbefore : current ∉ before := fun hmem =>
    List.disjoint_of_nodup_append hnodup hmem (List.mem_cons_self ..)
  have hafter : current ∉ after :=
    (List.nodup_cons.mp (List.nodup_append.mp hnodup).2.1).1
  rw [pairUp_append, pairUp_cons]
  dsimp only
  rw [List.mem_append, List.mem_cons]
  constructor
  · intro hmem
    rcases hmem with hmem | heq | hmem
    · exact absurd (mem_of_mem_pairUp hmem) hbefore
    · exact (Prod.mk.inj heq).1
    · exact absurd (mem_of_mem_pairUp hmem) hafter
  · intro heq
    rw [heq]
    exact Or.inr (Or.inl rfl)

/-- Partners have one label. -/
theorem label_eq_of_mem_pairUp (h : Ascending pool) {items : List (Placed α)}
    {item current : Placed α} (hmem : (some item, current) ∈ (pairUp label pool items).1) :
    item ∈ pool ∧ label item.item = label current.item ∧ label current.item ≠ .unmarked := by
  induction items generalizing pool with
  | nil => cases hmem
  | cons first rest ih =>
      rw [pairUp_cons] at hmem
      dsimp only at hmem
      rcases List.mem_cons.mp hmem with heq | hmem
      · obtain ⟨hpartner, rfl⟩ := Prod.mk.inj heq
        exact partner?_spec h hpartner.symm
      · have hrest := without_sublist pool
          (partner? label pool (label first.item) first.index)
        obtain ⟨hpool, hlabels⟩ := ih (List.Pairwise.sublist hrest h) hmem
        exact ⟨hrest.subset hpool, hlabels⟩

end Align

end DecisionGraph
