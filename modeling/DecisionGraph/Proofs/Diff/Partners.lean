import DecisionGraph.Proofs.Diff.Placement

/-!
# Who is paired with whom

The pairs of an alignment are determined by the labels of the items and their places (`align_pairs`).

* **Ids** are queues: whatever else happens to the pool, the items with an id leave it one by one from
  the front, one for each current item with that id (`Align.carriers_left`). So the items with an id are
  paired in the order in which they stand.
* **Fingerprints** go by nearness: what an item finds in the pool is what no item before it has been
  paired with (`Align.mem_left_before_iff`), and of that it takes the nearest.

Nothing is left over on both sides of a label.
-/

namespace DecisionGraph

variable {α : Type}

/-- The two items are paired in the alignment of the two sequences. -/
def Paired (label : α → Label) (previous current : List α) (item other : Placed α) : Prop :=
  ∃ moved, Slot.paired item other moved ∈ align label previous current

/-- A previous item that a current one can be paired with: it has the same label, and is paired with
none of the items before that. -/
structure Free (label : α → Label) (previous current : List α) (other item : Placed α) : Prop where
  mem : item ∈ placed previous
  label_eq : label item.item = label other.item
  unpaired : ∀ earlier : Placed α, earlier.index < other.index →
    ¬Paired label previous current item earlier

namespace Align

variable {label : α → Label} {pool : List (Placed α)}

/-! ## Queues of one id -/

theorem carriers_append (wanted : Label) (before after : List (Placed α)) :
    carriers label wanted (before ++ after)
      = carriers label wanted before ++ carriers label wanted after := List.filter_append ..

/-- Taking out an item of another label changes nothing. -/
theorem carriers_without_of_ne (h : Ascending pool) {wanted : Label} {partner : Option (Placed α)}
    (hpartner : ∀ item ∈ partner, item ∈ pool ∧ label item.item ≠ wanted) :
    carriers label wanted (without pool partner) = carriers label wanted pool := by
  cases partner with
  | none => rfl
  | some partner =>
      obtain ⟨hmem, hne⟩ := hpartner partner rfl
      unfold carriers without
      rw [List.filter_filter]
      refine List.filter_congr fun item hitem => ?_
      by_cases hlabel : label item.item = wanted
      · have hindex : item.index ≠ partner.index := by
          intro heq
          rw [h.eq_of_index hitem hmem heq] at hlabel
          exact hne hlabel
        simp [hlabel, hindex]
      · simp [hlabel]

/-- Taking out the first item of a label leaves the others. -/
theorem carriers_without_head (h : Ascending pool) (wanted : Label) :
    carriers label wanted (without pool (carriers label wanted pool).head?)
      = (carriers label wanted pool).tail := by
  have hascending : Ascending (carriers label wanted pool) := ascending_carriers h wanted
  cases hcarriers : carriers label wanted pool with
  | nil => exact hcarriers
  | cons first rest =>
      rw [hcarriers] at hascending
      have hlater := (List.pairwise_cons.mp hascending).1
      have hcomm : carriers label wanted (without pool (some first))
          = (carriers label wanted pool).filter fun item => item.index ≠ first.index := by
        unfold carriers without
        rw [List.filter_filter, List.filter_filter]
        exact List.filter_congr fun item _ => Bool.and_comm ..
      rw [List.head?_cons, List.tail_cons, hcomm, hcarriers, List.filter_cons_of_neg (by simp),
        List.filter_eq_self]
      intro item hitem
      have hlt := hlater item hitem
      rw [decide_eq_true_eq]
      omega

/-- **The items with an id leave the pool one by one from the front.** -/
theorem carriers_left (h : Ascending pool) (id : String) (before : List (Placed α)) :
    carriers label (.named id) (pairUp label pool before).2
      = (carriers label (.named id) pool).drop (carriers label (.named id) before).length := by
  induction before generalizing pool with
  | nil => rfl
  | cons current rest ih =>
      have hpool : ∀ partner : Option (Placed α), Ascending (without pool partner) :=
        fun partner => List.Pairwise.sublist (without_sublist pool partner) h
      rw [pairUp_cons]
      dsimp only
      rw [ih (hpool _)]
      by_cases hlabel : label current.item = .named id
      · rw [carriers_cons_of_eq hlabel, List.length_cons, hlabel, partner?_named,
          carriers_without_head h, List.drop_tail]
      · have hother : ∀ item ∈ partner? label pool (label current.item) current.index,
            item ∈ pool ∧ label item.item ≠ .named id := by
          intro item hitem
          obtain ⟨hmem, heq, _⟩ := partner?_spec h hitem
          exact ⟨hmem, heq ▸ hlabel⟩
        rw [carriers_cons_of_ne hlabel, carriers_without_of_ne h hother]

/-- **The items with an id are paired in the order in which they stand.** -/
theorem mem_pairUp_named (h : Ascending pool) {items : List (Placed α)} (hitems : Ascending items)
    {id : String} {k : Nat} {current : Placed α}
    (hcurrent : (carriers label (.named id) items)[k]? = some current)
    {partner : Option (Placed α)} :
    (partner, current) ∈ (pairUp label pool items).1
      ↔ partner = (carriers label (.named id) pool)[k]? := by
  obtain ⟨hmem, hlabel⟩ := mem_carriers.mp (List.mem_of_getElem? hcurrent)
  obtain ⟨before, after, hsplit⟩ := List.append_of_mem hmem
  rw [hsplit] at hitems
  -- the item's place among those with its id is the number of such items before it
  have hk : k = (carriers label (.named id) before).length := by
    have hnodup : (carriers label (.named id) items).Nodup := by
      rw [hsplit]
      exact hitems.nodup.filter _
    have hplace : (carriers label (.named id) items)[(carriers label (.named id) before).length]?
        = some current := by
      rw [hsplit, carriers_append, carriers_cons_of_eq hlabel]
      rw [List.getElem?_append_right (Nat.le_refl _), Nat.sub_self, List.getElem?_cons_zero]
    have hlt : k < (carriers label (.named id) items).length := by
      rw [List.getElem?_eq_some_iff] at hcurrent
      exact hcurrent.1
    exact (List.getElem?_inj hlt hnodup).mp (hcurrent.trans hplace.symm)
  rw [hsplit, mem_pairUp_iff hitems, hlabel, partner?_named, carriers_left h, List.head?_drop, hk]

/-! ## What the items before an item have left -/

/-- **What an item finds in the pool is what no item before it has been paired with.** -/
theorem mem_left_before_iff (h : Ascending pool) {before after : List (Placed α)}
    {current : Placed α} (hitems : Ascending (before ++ current :: after)) {item : Placed α} :
    item ∈ (pairUp label pool before).2
      ↔ item ∈ pool ∧ ∀ earlier : Placed α, earlier.index < current.index →
          (some item, earlier) ∉ (pairUp label pool (before ++ current :: after)).1 := by
  rw [mem_left_iff h]
  refine and_congr_right fun _ => forall_congr' fun earlier => ?_
  rw [pairUp_append]
  dsimp only
  rw [List.mem_append, not_or]
  constructor
  · intro hnot hindex
    refine ⟨hnot, fun hmem => ?_⟩
    -- whoever stands at the item or behind it has no lower place
    have hbehind := mem_of_mem_pairUp hmem
    have hbefore := (hitems.mem_before_iff (List.mem_append_right _ hbehind)).mpr hindex
    exact List.disjoint_of_nodup_append hitems.nodup hbefore hbehind
  · intro hnot hmem
    have hbefore := mem_of_mem_pairUp hmem
    have hindex := (hitems.mem_before_iff (List.mem_append_left _ hbefore)).mp hbefore
    exact (hnot hindex).1 hmem

end Align

open Align

variable {label : α → Label} {previous current : List α}

theorem paired_iff {item other : Placed α} :
    Paired label previous current item other
      ↔ (some item, other) ∈ (pairUp label (placed previous) (placed current)).1 := by
  unfold Paired
  simp only [paired_mem_align, paired_mem_entries]
  exact ⟨fun ⟨_, hmem, _⟩ => hmem, fun hmem => ⟨_, hmem, rfl⟩⟩

/-- A pair has an item of each side, with one label that is a label. -/
theorem Paired.spec {item other : Placed α} (h : Paired label previous current item other) :
    item ∈ placed previous ∧ other ∈ placed current ∧ label item.item = label other.item
      ∧ label other.item ≠ .unmarked := by
  have hpair := paired_iff.mp h
  obtain ⟨hitem, hlabels⟩ := label_eq_of_mem_pairUp (ascending_placed previous) hpair
  exact ⟨hitem, mem_of_mem_pairUp hpair, hlabels⟩

/-- **What can be paired is what the items before have left.** -/
theorem free_iff {before after : List (Placed α)} {other : Placed α}
    (hsplit : placed current = before ++ other :: after) {item : Placed α} :
    Free label previous current other item
      ↔ item ∈ carriers label (label other.item) (pairUp label (placed previous) before).2 := by
  have hitems := ascending_placed current
  rw [hsplit] at hitems
  rw [mem_carriers, mem_left_before_iff (ascending_placed previous) hitems, ← hsplit]
  simp only [← paired_iff]
  constructor
  · intro h
    exact ⟨⟨h.mem, h.unpaired⟩, h.label_eq⟩
  · intro ⟨⟨hmem, hunpaired⟩, hlabel⟩
    exact ⟨hmem, hlabel, hunpaired⟩

/-- An item with a label is added only if there is nothing to pair it with. -/
theorem not_free_of_added {other : Placed α} (hlabel : label other.item ≠ .unmarked)
    (h : Slot.added other ∈ align label previous current) (item : Placed α) :
    ¬Free label previous current other item := by
  have hadded := added_mem_align.mp h
  obtain ⟨before, after, hsplit⟩ := List.append_of_mem (mem_of_mem_pairUp hadded)
  have hitems := ascending_placed current
  rw [hsplit] at hadded hitems
  rw [mem_pairUp_iff hitems, eq_comm, partner?_eq_none hlabel] at hadded
  rw [free_iff hsplit, hadded]
  exact List.not_mem_nil

/-- **Ids: the items with an id are paired in the order in which they stand, and in no other way.** -/
theorem paired_named_iff {id : String} {item other : Placed α}
    (hid : label item.item = .named id ∨ label other.item = .named id) :
    Paired label previous current item other
      ↔ ∃ k : Nat, (carriers label (.named id) (placed previous))[k]? = some item
        ∧ (carriers label (.named id) (placed current))[k]? = some other := by
  constructor
  · intro h
    obtain ⟨_, hother, hlabels, _⟩ := h.spec
    have hlabel : label other.item = .named id := by
      rcases hid with hid | hid
      · rw [← hlabels, hid]
      · exact hid
    obtain ⟨k, hk⟩ := List.mem_iff_getElem?.mp (mem_carriers.mpr ⟨hother, hlabel⟩)
    have hpair := (mem_pairUp_named (ascending_placed _) (ascending_placed _) hk).mp
      (paired_iff.mp h)
    exact ⟨k, hpair.symm, hk⟩
  · intro ⟨k, hitem, hother⟩
    refine paired_iff.mpr ?_
    rw [mem_pairUp_named (ascending_placed _) (ascending_placed _) hother, hitem]

/-- An item with a fingerprint is paired with the nearest of the items that it can be paired with. -/
theorem paired_iff_nearest {fingerprint : String} {before after : List (Placed α)} {other : Placed α}
    (hsplit : placed current = before ++ other :: after)
    (hlabel : label other.item = .print fingerprint) (item : Placed α) :
    Paired label previous current item other
      ↔ nearest? other.index
          (carriers label (label other.item) (pairUp label (placed previous) before).2)
        = some item := by
  have hitems := ascending_placed current
  rw [hsplit] at hitems
  rw [paired_iff, hsplit, mem_pairUp_iff hitems, hlabel, partner?_print, eq_comm]

/-- **Fingerprints: an item is paired if there is anything to pair it with.** -/
theorem exists_paired_print_iff {fingerprint : String} {other : Placed α}
    (hother : other ∈ placed current) (hlabel : label other.item = .print fingerprint) :
    (∃ item, Paired label previous current item other)
      ↔ ∃ item, Free label previous current other item := by
  obtain ⟨before, after, hsplit⟩ := List.append_of_mem hother
  simp only [paired_iff_nearest hsplit hlabel, free_iff hsplit]
  rw [← Option.isSome_iff_exists, Option.isSome_iff_ne_none, Ne, nearest?_eq_none,
    List.eq_nil_iff_forall_not_mem, not_forall_not]

/-- **Fingerprints: what an item is paired with is preferred to everything it can be paired with.** -/
theorem paired_print_iff {fingerprint : String} {other : Placed α} (hother : other ∈ placed current)
    (hlabel : label other.item = .print fingerprint) (item : Placed α) :
    Paired label previous current item other
      ↔ Free label previous current other item
        ∧ ∀ rival, Free label previous current other rival → Preferred other.index item rival := by
  obtain ⟨before, after, hsplit⟩ := List.append_of_mem hother
  have hcandidates : Ascending
      (carriers label (label other.item) (pairUp label (placed previous) before).2) :=
    ascending_carriers (ascending_left (ascending_placed previous) before) _
  rw [paired_iff_nearest hsplit hlabel, nearest?_eq_some hcandidates]
  simp only [free_iff hsplit]

/-- **Nothing is left over on both sides of a label.** -/
theorem unmarked_of_left_over {item other : Placed α}
    (hremoved : Slot.removed item ∈ align label previous current)
    (hadded : Slot.added other ∈ align label previous current)
    (hlabels : label item.item = label other.item) : label other.item = .unmarked := by
  by_contra hmarked
  -- the removed item would have been there for the added one
  obtain ⟨hmem, hunpaired⟩ :=
    (mem_left_iff (ascending_placed previous)).mp (removed_mem_align.mp hremoved)
  refine not_free_of_added hmarked hadded item ⟨hmem, hlabels, ?_⟩
  intro earlier _ hearlier
  exact hunpaired earlier (paired_iff.mp hearlier)

/--
**The pairs of an alignment.**

* Paired items have one label.
* Ids: the first previous item with an id is paired with the first current item with that id, the second
  with the second, and so on, and an item with an id is paired in no other way.
* Fingerprints: going through the current items in order, one with a fingerprint and no id is paired if
  some previous item with that fingerprint and no id is not yet paired, and then with the nearest such
  item, of two equally near ones with the first.
* No removed item and no added item have one id, or for lack of ids one fingerprint.
-/
theorem align_pairs (label : α → Label) (previous current : List α) :
    (∀ item other, Paired label previous current item other →
      label item.item = label other.item ∧ label other.item ≠ .unmarked)
    ∧ (∀ id item other, label item.item = .named id ∨ label other.item = .named id →
      (Paired label previous current item other
        ↔ ∃ k : Nat, (carriers label (.named id) (placed previous))[k]? = some item
          ∧ (carriers label (.named id) (placed current))[k]? = some other))
    ∧ (∀ fingerprint, ∀ other ∈ placed current, label other.item = .print fingerprint →
      ((∃ item, Paired label previous current item other)
          ↔ ∃ item, Free label previous current other item)
        ∧ ∀ item, Paired label previous current item other
          ↔ Free label previous current other item
            ∧ ∀ rival, Free label previous current other rival →
                Preferred other.index item rival)
    ∧ ∀ item other, Slot.removed item ∈ align label previous current →
        Slot.added other ∈ align label previous current →
        label item.item = label other.item → label other.item = .unmarked := by
  refine ⟨?_, ?_, ?_, ?_⟩
  · intro item other h
    exact h.spec.2.2
  · intro id item other hid
    exact paired_named_iff hid
  · intro fingerprint other hother hlabel
    exact ⟨exists_paired_print_iff hother hlabel, paired_print_iff hother hlabel⟩
  · intro item other hremoved hadded hlabels
    exact unmarked_of_left_over hremoved hadded hlabels

/-- Of two items that are as near, the first one is the partner. -/
example :
    ((align Label.print ["x", "a", "x"] ["b", "x"]).map fun slot =>
        (slot.previous?.map Placed.index, slot.current?.map Placed.index))
      = [(none, some 0), (some 0, some 1), (some 1, none), (some 2, none)] := by
  decide

end DecisionGraph
