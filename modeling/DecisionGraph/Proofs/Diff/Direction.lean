import DecisionGraph.Proofs.Diff.Mirror
import DecisionGraph.Proofs.Diff.Tolerance
import DecisionGraph.Proofs.Json.Reread
import Mathlib.Data.List.Zip

/-!
# Whether anything changed, seen from the other side

Does it depend on the direction of a comparison whether it finds changes? Nodes and edges have ids, so they
are paired alike in both directions (`Mirror`), and no comparison of fields depends on what comes first
(`Tolerance`). **Rows without ids** are paired by nearness, though, and the two directions may pair them
differently, as soon as a fingerprint stands for several rows.

If nothing was added or removed in the one direction, nothing is in the other (`align_joins_swap`): as many
rows with a label stand on both sides, and no row with a label is left over on both. What remains are rows
that are paired with another row of their fingerprint.

* **Branches and rules** with one fingerprint differ in no field: it is made of all that is compared. For
  rules this takes that the text of the cells determines them (`Json.compact_injective`).
* **Expression rows and columns** have fields beyond their fingerprint. It makes no difference which of
  several rows is paired if they are equal among themselves, on one side at least (`RowRule.Settled`). Where
  they are not, it can make a difference (`Comparison.diff_changes_one_way`).

With that condition on repeated rows the direction does not matter (`Comparison.diff_hasChanges_swap`).
-/

namespace DecisionGraph

variable {α : Type}

/-! ## Alignments without additions and removals -/

/-- The entry is a pair, whether it has moved or not, and its items are in a relation. -/
def Slot.Joins (R : α → α → Prop) : Slot α → Prop
  | .paired previous current _ => R previous.item current.item
  | _ => False

/-- The labels of placed items, in their order. -/
def labels (label : α → Label) (items : List (Placed α)) : List Label :=
  items.map fun placed => label placed.item

/-- **Both sides of an alignment have the same labels, but for what is left over on the other.** -/
theorem labels_perm {label : α → Label} {slots : List (Slot α)}
    (h : ∀ item other moved, Slot.paired item other moved ∈ slots → label item.item = label other.item) :
    (labels label (slots.filterMap Slot.previous?) ++ labels label (newcomers slots)).Perm
      (labels label (slots.filterMap Slot.current?) ++ labels label (slots.filterMap Slot.gone?)) := by
  induction slots with
  | nil => exact List.Perm.refl _
  | cons slot rest ih =>
      have ih := ih fun item other moved hmem => h item other moved (List.mem_cons_of_mem _ hmem)
      cases slot with
      | paired item other moved =>
          have hlabel := h item other moved (List.mem_cons_self ..)
          refine (ih.cons (label item.item)).trans ?_
          rw [hlabel]
          exact List.Perm.refl _
      | added other => exact List.perm_middle.trans (ih.cons _)
      | removed item => exact (ih.cons _).trans List.perm_middle.symm

section Swap

variable {label : α → Label} {previous current : List α} {R : α → α → Prop}

theorem labels_placed (label : α → Label) (items : List α) :
    labels label (placed items) = items.map label := by
  conv_rhs => rw [← placed_item items, List.map_map]
  rfl

/-- What the one side has more of is added, what the other has more of is removed. -/
theorem map_label_perm (label : α → Label) (previous current : List α) :
    (previous.map label ++ labels label (newcomers (align label previous current))).Perm
      (current.map label ++ labels label ((align label previous current).filterMap Slot.gone?)) := by
  have hpaired : ∀ item other moved, Slot.paired item other moved ∈ align label previous current →
      label item.item = label other.item := fun _ _ moved hslot => (Paired.spec ⟨moved, hslot⟩).2.2.1
  have hperm := labels_perm hpaired
  rw [align_current, labels_placed] at hperm
  refine List.Perm.trans (List.Perm.append_right _ ?_) hperm
  rw [← labels_placed]
  exact ((align_previous_perm label previous current).map _).symm

/-- If all entries are pairs, both sides have the same labels, and each item has one. -/
theorem map_label_perm_of_joins (h : ∀ slot ∈ align label previous current, slot.Joins R) :
    (previous.map label).Perm (current.map label) ∧ .unmarked ∉ current.map label := by
  have hnew : newcomers (align label previous current) = [] :=
    List.eq_nil_iff_forall_not_mem.mpr fun item hmem => h _ (mem_newcomers.mp hmem)
  have hgone : (align label previous current).filterMap Slot.gone? = [] := by
    rw [List.filterMap_eq_nil_iff]
    intro slot hslot
    cases slot with
    | paired | added => rfl
    | removed item => exact absurd (h _ hslot) id
  have hperm := map_label_perm label previous current
  rw [hnew, hgone] at hperm
  refine ⟨by simpa [labels] using hperm, fun hmem => ?_⟩
  rw [← labels_placed, ← align_current label previous current] at hmem
  obtain ⟨other, hother, hunmarked⟩ := List.mem_map.mp hmem
  -- the entry of the item is a pair, and the items of pairs are marked
  obtain ⟨slot, hslot, hcurrent⟩ := List.mem_filterMap.mp hother
  cases slot with
  | removed item => cases hcurrent
  | added item => exact h _ hslot
  | paired item other moved =>
      obtain rfl := Option.some.inj hcurrent
      exact (Paired.spec ⟨moved, hslot⟩).2.2.2 hunmarked

/-- Nothing is added or removed between sequences with the same labels. -/
theorem exists_paired_of_perm (h : (previous.map label).Perm (current.map label))
    (hmarked : .unmarked ∉ current.map label) {slot : Slot α} (hslot : slot ∈ align label previous current) :
    ∃ item other moved, slot = .paired item other moved := by
  have hcancel : (labels label (newcomers (align label previous current))).Perm
      (labels label ((align label previous current).filterMap Slot.gone?)) :=
    (List.perm_append_left_iff _).mp ((h.append_right _).symm.trans (map_label_perm label previous current))
  -- a label that is left over on the one side is left over on the other, and no label is
  have hnone : ∀ {new gone : Placed α}, Slot.added new ∈ align label previous current →
      Slot.removed gone ∈ align label previous current → label gone.item ≠ label new.item := by
    intro new gone hnew hgone hlabel
    have hunmarked := unmarked_of_left_over hgone hnew hlabel
    have hmem := (added_iff_unpaired.mp hnew).1
    exact hmarked (hunmarked ▸ labels_placed label current ▸ List.mem_map_of_mem hmem)
  cases slot with
  | paired item other moved => exact ⟨item, other, moved, rfl⟩
  | added new =>
      have hmem := hcancel.mem_iff.mp (List.mem_map_of_mem (mem_newcomers.mpr hslot))
      obtain ⟨gone, hgone, hlabel⟩ := List.mem_map.mp hmem
      rw [align_gone, ← removed_mem_align] at hgone
      exact absurd hlabel (hnone hslot hgone)
  | removed gone =>
      rw [removed_mem_align, ← align_gone] at hslot
      have hmem := hcancel.mem_iff.mpr (List.mem_map_of_mem hslot)
      obtain ⟨new, hnew, hlabel⟩ := List.mem_map.mp hmem
      rw [align_gone, ← removed_mem_align] at hslot
      exact absurd hlabel.symm (hnone (mem_newcomers.mp hnew) hslot)

/--
**If all entries are pairs in the one direction, they are in the other.**

The pairs need not be the same. An item with an id has its partner in both directions; one with a fingerprint
may have another, so the relation has to hold between all items that take part.
-/
theorem align_joins_swap
    (hcross : ∀ fingerprint, ∀ a ∈ previous, ∀ a' ∈ previous, ∀ b ∈ current, ∀ b' ∈ current,
      label a = .print fingerprint → label a' = .print fingerprint → label b = .print fingerprint →
      label b' = .print fingerprint → R a b' → R a' b → R a b)
    (h : ∀ slot ∈ align label previous current, slot.Joins R) :
    ∀ slot ∈ align label current previous, slot.Joins fun a b => R b a := by
  obtain ⟨hperm, hmarked⟩ := map_label_perm_of_joins h
  have hpair : ∀ {item other : Placed α}, Paired label previous current item other →
      R item.item other.item := fun ⟨moved, hslot⟩ => h _ hslot
  intro slot hslot
  obtain ⟨other, item, moved, rfl⟩ := exists_paired_of_perm hperm.symm
    (fun hmem => hmarked (hperm.mem_iff.mp hmem)) hslot
  have hback : Paired label current previous other item := ⟨moved, hslot⟩
  obtain ⟨hother, hitem, hlabels, hlabel⟩ := hback.spec
  show R item.item other.item
  -- an id has one partner whichever side chooses; only fingerprints can have changed theirs
  cases hkind : label other.item with
  | named id => exact hpair ((paired_swap_of_named (Or.inr hkind)).mp hback)
  | unmarked => exact absurd (hlabels ▸ hkind) hlabel
  | print fingerprint =>
      -- the partners that the two have in the direction that is given
      obtain ⟨otherPartner, hotherPair⟩ : ∃ before, Paired label previous current before other := by
        by_contra hnone
        have hadded := added_iff_unpaired.mpr ⟨hother, not_exists.mp hnone⟩
        exact h _ hadded
      obtain ⟨itemPartner, hitemPair⟩ : ∃ after, Paired label previous current item after := by
        by_contra hnone
        have hremoved := removed_iff_unpaired.mpr ⟨hitem, not_exists.mp hnone⟩
        exact h _ hremoved
      have hmem : ∀ {items : List α} {placedItem : Placed α}, placedItem ∈ placed items →
          placedItem.item ∈ items := fun hplaced => List.mem_of_getElem? (mem_placed.mp hplaced)
      exact hcross fingerprint _ (hmem hitem) _ (hmem hotherPair.spec.1) _ (hmem hother) _
        (hmem hitemPair.spec.2.1) (hlabels ▸ hkind) (hotherPair.spec.2.2.1.trans hkind) hkind
        (hitemPair.spec.2.2.1.symm.trans (hlabels ▸ hkind)) (hpair hitemPair) (hpair hotherPair)

end Swap

/-! ## Rows -/

/-- The fingerprint of an item that has no id. -/
def Label.print? : Label → Option String
  | .print fingerprint => some fingerprint
  | _ => none

namespace RowRule

variable {rule : RowRule α} {previous current : List α}

/-- No row was added, removed or modified. Rows may have moved. -/
def Unchanged (rule : RowRule α) (previous current : List α) : Prop :=
  ∀ row ∈ rule.rows previous current, row.isChanged = false

theorem row_isChanged_eq_false {slot : Slot α} :
    (rule.row slot).isChanged = false
      ↔ slot.Joins fun previous current => rule.compare previous current = [] := by
  cases slot with
  | added | removed => exact iff_of_false (fun h => Bool.noConfusion h) id
  | paired previous current moved =>
      unfold row ComparedRow.isChanged Slot.Joins
      dsimp only
      cases rule.compare previous.item current.item with
      | nil => exact iff_of_true (by cases moved <;> rfl) rfl
      | cons field more => exact iff_of_false (fun h => Bool.noConfusion h) (List.cons_ne_nil _ _)

theorem unchanged_iff :
    rule.Unchanged previous current ↔ ∀ slot ∈ align rule.label previous current,
      slot.Joins fun previous current => rule.compare previous current = [] := by
  unfold Unchanged rows
  rw [List.forall_mem_map]
  exact forall₂_congr fun _ _ => row_isChanged_eq_false

/-- Rows with one label differ in no field. -/
def Uniform (rule : RowRule α) (label : Label) (rows : List α) : Prop :=
  ∀ row ∈ rows, rule.label row = label → ∀ other ∈ rows, rule.label other = label →
    rule.compare row other = []

/-- Rows known by one fingerprint differ in no field, on one side at least. -/
def Settled (rule : RowRule α) (previous current : List α) : Prop :=
  ∀ fingerprint, rule.Uniform (.print fingerprint) previous ∨ rule.Uniform (.print fingerprint) current

theorem settled_iff :
    rule.Settled previous current ↔ ∀ row ∈ previous, ∀ fingerprint ∈ (rule.label row).print?,
      rule.Uniform (.print fingerprint) previous ∨ rule.Uniform (.print fingerprint) current := by
  refine ⟨fun h row _ fingerprint _ => h fingerprint, fun h fingerprint => ?_⟩
  by_cases hrow : ∃ row ∈ previous, rule.label row = .print fingerprint
  · obtain ⟨row, hrow, hlabel⟩ := hrow
    exact h row hrow fingerprint (by rw [hlabel]; rfl)
  · exact Or.inl fun row hmem hlabel => absurd ⟨row, hmem, hlabel⟩ hrow

instance (rule : RowRule α) (label : Label) (rows : List α) : Decidable (rule.Uniform label rows) :=
  inferInstanceAs (Decidable (∀ _ ∈ _, _ → ∀ _ ∈ _, _ → _ = []))

instance (rule : RowRule α) (previous current : List α) : Decidable (rule.Settled previous current) :=
  decidable_of_iff _ settled_iff.symm

theorem Settled.symm (h : rule.Settled previous current) : rule.Settled current previous :=
  fun fingerprint => (h fingerprint).symm

theorem Unchanged.swap (hsymm : ∀ {a b}, rule.compare a b = [] → rule.compare b a = [])
    (hcross : ∀ fingerprint, ∀ a ∈ previous, ∀ a' ∈ previous, ∀ b ∈ current, ∀ b' ∈ current,
      rule.label a = .print fingerprint → rule.label a' = .print fingerprint →
      rule.label b = .print fingerprint → rule.label b' = .print fingerprint →
      rule.compare a b' = [] → rule.compare a' b = [] → rule.compare a b = [])
    (h : rule.Unchanged previous current) : rule.Unchanged current previous := by
  rw [unchanged_iff] at h ⊢
  intro slot hslot
  have hjoins := align_joins_swap hcross h slot hslot
  cases slot with
  | added | removed => exact hjoins
  | paired => exact hsymm hjoins

/-- **It does not matter which of several rows is paired if those are settled.** -/
theorem Unchanged.swap_of_settled (hequiv : Equivalence fun a b => rule.compare a b = [])
    (hsettled : rule.Settled previous current) (h : rule.Unchanged previous current) :
    rule.Unchanged current previous := by
  refine h.swap hequiv.symm fun fingerprint a ha a' ha' b hb b' hb' hlabel hlabel' hlabelb hlabelb'
    hab' ha'b => ?_
  rcases hsettled fingerprint with huniform | huniform
  · exact hequiv.trans (huniform a ha hlabel a' ha' hlabel') ha'b
  · exact hequiv.trans hab' (huniform b' hb' hlabelb' b hb hlabelb)

/-- **Nor does it if a fingerprint holds all that is compared.** -/
theorem Unchanged.swap_of_print (hsymm : ∀ {a b}, rule.compare a b = [] → rule.compare b a = [])
    (hprint : ∀ {a b fingerprint}, rule.label a = .print fingerprint → rule.label b = .print fingerprint →
      rule.compare a b = [])
    (h : rule.Unchanged previous current) : rule.Unchanged current previous :=
  h.swap hsymm fun _ _ _ _ _ _ _ _ _ hlabel _ hlabelb _ _ _ => hprint hlabel hlabelb

end RowRule

theorem Label.of_eq_print {id print : Option String} {fingerprint : String}
    (h : Label.of id print = .print fingerprint) : print = some fingerprint := by
  unfold Label.of at h
  split at h
  · cases h
  · rw [Label.print.inj h]
  · cases h

/-- Branches with one fingerprint have one condition. -/
theorem SwitchStatement.compare_of_print {a b : SwitchStatement} {fingerprint : String}
    (ha : rule.label a = .print fingerprint) (hb : rule.label b = .print fingerprint) :
    rule.compare a b = [] := by
  obtain ⟨condition, hcondition, htrim⟩ := Option.map_eq_some_iff.mp (Label.of_eq_print ha)
  obtain ⟨condition', hcondition', htrim'⟩ := Option.map_eq_some_iff.mp (Label.of_eq_print hb)
  show changedFields _ = []
  rw [changedFields_eq_nil, List.forall_mem_singleton, FieldChange.ofTexts?_eq_none, hcondition,
    hcondition', Option.getD_some, Option.getD_some, htrim, htrim']

/-- **Rules with one fingerprint have the same cells.** -/
theorem Rule.compare_of_print {a b : Rule} {fingerprint : String}
    (ha : rowRule.label a = .print fingerprint) (hb : rowRule.label b = .print fingerprint) :
    rowRule.compare a b = [] := by
  have htexts : (Json.object a.cells).compact = (Json.object b.cells).compact :=
    Option.some.inj ((Label.of_eq_print ha).trans (Label.of_eq_print hb).symm)
  -- the printed text leaves nothing out, so the cells themselves are the same
  have hcells : Keyed.erase idKey a = Keyed.erase idKey b :=
    Json.object.inj (Json.compact_injective htexts)
  refine Rule.compare_eq_nil.mpr fun column hcolumn => ?_
  rw [← Keyed.get?_erase_of_ne hcolumn a, ← Keyed.get?_erase_of_ne hcolumn b, hcells]
  exact compareCells_self _

/-! ## Contents -/

theorem ExpressionContent.compare_fields_eq_nil {a b : ExpressionContent} :
    (a.compare b).fields = []
      ↔ Silent compared a b ∧ ExpressionRow.rule.Unchanged a.expressions b.expressions := by
  unfold compare
  rw [ComparedContent.of_fields_eq_nil, List.forall_mem_singleton]
  exact Iff.rfl

theorem DecisionTableContent.compare_fields_eq_nil {a b : DecisionTableContent} :
    (a.compare b).fields = [] ↔ Silent compared a b
      ∧ TableColumn.rule.Unchanged a.inputs b.inputs ∧ TableColumn.rule.Unchanged a.outputs b.outputs
      ∧ Rule.rowRule.Unchanged a.rules b.rules := by
  unfold compare
  rw [ComparedContent.of_fields_eq_nil]
  refine and_congr Iff.rfl ?_
  rw [List.forall_mem_cons, List.forall_mem_cons, List.forall_mem_singleton]
  exact Iff.rfl

theorem SwitchContent.compare_fields_eq_nil {a b : SwitchContent} :
    (a.compare b).fields = []
      ↔ Silent compared a b ∧ SwitchStatement.rule.Unchanged a.statements b.statements := by
  unfold compare
  rw [ComparedContent.of_fields_eq_nil]
  refine and_congr Iff.rfl ?_
  rw [List.forall_mem_singleton]
  exact Iff.rfl

def ExpressionContent.Settled (a b : ExpressionContent) : Prop :=
  ExpressionRow.rule.Settled a.expressions b.expressions

def DecisionTableContent.Settled (a b : DecisionTableContent) : Prop :=
  TableColumn.rule.Settled a.inputs b.inputs ∧ TableColumn.rule.Settled a.outputs b.outputs

/-- Rows in contents of a kind that are known by one fingerprint differ in no field, on one side at least.
This is asked of expression rows and of columns alone. Content that cannot be read has no rows. -/
def Kind.Settled (kind : Kind) (a b : Json) : Prop :=
  match kind with
  | .expression =>
    ∀ before ∈ (decodeContent kind.tag ExpressionContent.decode a).toOption,
      ∀ after ∈ (decodeContent kind.tag ExpressionContent.decode b).toOption, before.Settled after
  | .decisionTable =>
    ∀ before ∈ (decodeContent kind.tag DecisionTableContent.decode a).toOption,
      ∀ after ∈ (decodeContent kind.tag DecisionTableContent.decode b).toOption, before.Settled after
  | _ => True

instance (a b : ExpressionContent) : Decidable (a.Settled b) :=
  inferInstanceAs (Decidable (RowRule.Settled _ _ _))

instance (a b : DecisionTableContent) : Decidable (a.Settled b) :=
  inferInstanceAs (Decidable (RowRule.Settled _ _ _ ∧ RowRule.Settled _ _ _))

instance (kind : Kind) (a b : Json) : Decidable (kind.Settled a b) :=
  match kind with
  | .expression => inferInstanceAs (Decidable (∀ _ ∈ _, ∀ _ ∈ _, ExpressionContent.Settled _ _))
  | .decisionTable => inferInstanceAs (Decidable (∀ _ ∈ _, ∀ _ ∈ _, DecisionTableContent.Settled _ _))
  | .input | .output | .switch | .function | .decision | .custom => isTrue trivial

theorem Kind.Settled.symm {kind : Kind} {a b : Json} (h : kind.Settled a b) : kind.Settled b a := by
  cases kind with
  | expression => exact fun after hafter before hbefore => (h before hbefore after hafter).symm
  | decisionTable =>
      exact fun after hafter before hbefore => (h before hbefore after hafter).imp .symm .symm
  | input | output | switch | function | decision | custom => trivial

/-- What is compared as a whole is compared alike in both directions. -/
theorem Behavior.compareWhole_swap {a b : Node} (h : (compareWhole a b).fields = []) :
    (compareWhole b a).fields = [] :=
  compareWhole_fields_eq_nil.mpr (Json.same_symm (compareWhole_fields_eq_nil.mp h))

theorem Behavior.compareRead_swap {decode : Decoder α} {kind : String}
    {compare : α → α → ComparedContent} {a b : Node}
    (hread : ∀ x y, decodeContent kind decode a.content = .ok x →
      decodeContent kind decode b.content = .ok y → (compare x y).fields = [] → (compare y x).fields = [])
    (h : (compareRead kind decode compare a b).fields = []) :
    (compareRead kind decode compare b a).fields = [] := by
  -- content that cannot be read makes both directions compare the whole
  cases ha : decodeContent kind decode a.content with
  | error error =>
      rw [compareRead_error_left compare ha] at h
      rw [compareRead_error_right compare ha]
      exact compareWhole_swap h
  | ok x =>
      cases hb : decodeContent kind decode b.content with
      | error error =>
          rw [compareRead_error_right compare hb] at h
          rw [compareRead_error_left compare hb]
          exact compareWhole_swap h
      | ok y =>
          rw [compareRead_ok compare ha hb] at h
          rw [compareRead_ok compare hb ha]
          exact hread x y ha hb h

/-- Contents without rows are compared alike in both directions. -/
theorem Behavior.compareFields_swap {decode : Decoder α} {kind : String}
    {fields : α → α → List (String × Option FieldChange)} (hequiv : Equivalence (Silent fields)) {a b : Node}
    (h : (compareRead kind decode (fun x y => .of (fields x y) []) a b).fields = []) :
    (compareRead kind decode (fun x y => .of (fields x y) []) b a).fields = [] := by
  refine compareRead_swap (fun x y _ _ hxy => ?_) h
  rw [ComparedContent.of_fields_eq_nil] at hxy ⊢
  exact ⟨hequiv.symm hxy.1, List.forall_mem_nil _⟩

/-- **Contents of a known kind are compared alike in both directions if their rows are settled.** -/
theorem Kind.compare_swap {kind : Kind} {a b : Node} (hsettled : kind.Settled a.content b.content)
    (h : (kind.compare a b).fields = []) : (kind.compare b a).fields = [] := by
  rw [Kind.compare_eq] at h ⊢
  cases kind with
  | input | output => exact Behavior.compareFields_swap SchemaContent.compared_equivalence h
  | function => exact Behavior.compareFields_swap FunctionContent.compared_equivalence h
  | decision => exact Behavior.compareFields_swap DecisionContent.compared_equivalence h
  | custom => exact Behavior.compareFields_swap CustomContent.compared_equivalence h
  | expression =>
      refine Behavior.compareRead_swap (fun x y hx hy hxy => ?_) h
      obtain ⟨hfields, hrows⟩ := ExpressionContent.compare_fields_eq_nil.mp hxy
      have hsettled : x.Settled y := hsettled x (by rw [hx]; rfl) y (by rw [hy]; rfl)
      refine ExpressionContent.compare_fields_eq_nil.mpr ⟨?_, ?_⟩
      · exact ExpressionContent.compared_equivalence.symm hfields
      · exact hrows.swap_of_settled ExpressionRow.compare_equivalence hsettled
  | decisionTable =>
      refine Behavior.compareRead_swap (fun x y hx hy hxy => ?_) h
      obtain ⟨hfields, hinputs, houtputs, hrules⟩ := DecisionTableContent.compare_fields_eq_nil.mp hxy
      have hsettled : x.Settled y := hsettled x (by rw [hx]; rfl) y (by rw [hy]; rfl)
      refine DecisionTableContent.compare_fields_eq_nil.mpr ⟨?_, ?_, ?_, ?_⟩
      · exact DecisionTableContent.compared_equivalence.symm hfields
      · exact hinputs.swap_of_settled TableColumn.compare_equivalence hsettled.1
      · exact houtputs.swap_of_settled TableColumn.compare_equivalence hsettled.2
      · -- the comparison of rules is no equivalence, so being settled would not help here
        exact hrules.swap_of_print Rule.compare_symm Rule.compare_of_print
  | switch =>
      refine Behavior.compareRead_swap (fun x y _ _ hxy => ?_) h
      obtain ⟨hfields, hrows⟩ := SwitchContent.compare_fields_eq_nil.mp hxy
      refine SwitchContent.compare_fields_eq_nil.mpr ⟨?_, ?_⟩
      · exact SwitchContent.compared_equivalence.symm hfields
      · exact hrows.swap_of_print SwitchStatement.compare_equivalence.symm SwitchStatement.compare_of_print

/-! ## Nodes, edges and graphs -/

/-- If two nodes have one id and their tags are names of one kind, their rows are settled. -/
def Node.Settled (node other : Node) : Prop :=
  node.id = other.id → ∀ kind ∈ Kind.ofName? node.kind, kind ∈ Kind.ofName? other.kind →
    kind.Settled node.content other.content

instance (node other : Node) : Decidable (node.Settled other) :=
  inferInstanceAs (Decidable (_ → ∀ _ ∈ _, _ → _))

theorem Node.Settled.symm {node other : Node} (h : node.Settled other) : other.Settled node :=
  fun hid kind hother hkind => (h hid.symm kind hkind hother).symm

/-- The rows of all nodes that stand at one place are settled. -/
def Graph.Settled (previous current : Graph) : Prop :=
  ∀ pair ∈ previous.nodes.zip current.nodes, pair.1.Settled pair.2

instance (previous current : Graph) : Decidable (previous.Settled current) :=
  inferInstanceAs (Decidable (∀ _ ∈ _, _))

theorem Graph.Settled.symm {previous current : Graph} (h : previous.Settled current) :
    current.Settled previous := by
  intro pair hpair
  have hswap := List.zip_swap current.nodes previous.nodes
  exact (h pair.swap (hswap ▸ List.mem_map_of_mem hpair)).symm

/-- A comparison has changes unless no change is recorded. -/
theorem ChangeCounts.hasChanges_ofChanges {changes : List (Option Change)} :
    (ofChanges changes).hasChanges = false ↔ ∀ change ∈ changes, change = none := by
  induction changes with
  | nil => exact iff_of_true rfl (List.forall_mem_nil _)
  | cons first rest ih =>
      rw [List.forall_mem_cons, ← ih]
      unfold hasChanges ofChanges
      simp only [List.countP_cons]
      cases first with
      | none => simp
      | some change => cases change <;> simp [Change.status]

namespace Comparison

variable {comparison : Comparison}

theorem node_unchanged {slot : Slot Node} :
    (comparison.node slot).1.change = none
      ↔ slot.Keeps fun previous current =>
          (comparison.compareNodes previous current false).1.change = none := by
  cases slot with
  | added | removed => exact iff_of_false (Option.some_ne_none _) id
  | paired previous current moved =>
      cases moved with
      | false => exact (and_iff_right rfl).symm
      | true =>
          refine iff_of_false ?_ fun h => Bool.noConfusion h.1
          exact comparison.compareNodes_moved previous.item current.item

/-- **When a comparison of two graphs has no changes.** Nodes and edges stand at their places, and none of
them changed. -/
theorem diff_unchanged {previous current : Graph} :
    (comparison.diff previous current).counts.hasChanges = false
      ↔ List.Forall₂ (fun node other => node.id = other.id
          ∧ (comparison.compareNodes node other false).1.change = none) previous.nodes current.nodes
        ∧ List.Forall₂ (fun edge other => edge.id = other.id ∧ compareEdges edge other = [])
          previous.edges current.edges := by
  unfold ComparedGraph.counts ComparedGraph.changes
  rw [ChangeCounts.hasChanges_ofChanges, List.forall_mem_append, List.forall_mem_map,
    List.forall_mem_map, diff_edges_unannotated, diff_nodes, List.forall_mem_map]
  simp only [node_unchanged]
  rw [align_keeps_iff]
  simp

/-- **Nodes without changes in the one direction have none in the other if their rows are settled.** -/
theorem compareNodes_swap {a b : Node} (hid : a.id = b.id) (hsettled : a.Settled b)
    (h : (compareNodes ⟨.builtin, none⟩ a b false).1.change = none) :
    (compareNodes ⟨.builtin, none⟩ b a false).1.change = none := by
  obtain ⟨_, hname, hcontent⟩ := compareNodes_unchanged.mp h
  refine compareNodes_unchanged.mpr ⟨rfl, hname.symm, ?_⟩
  by_cases hequates : Registry.builtin.equates a.kind b.kind = true
  · rw [if_pos hequates, compareContents_builtin] at hcontent
    rw [if_pos (Registry.equates_builtin_symm hequates), compareContents_builtin]
    have hkind := Registry.ofName?_of_equates hequates
    rw [← hkind] at hcontent
    cases hknown : Kind.ofName? a.kind with
    | none =>
        rw [hknown] at hcontent
        exact Behavior.compareWhole_swap hcontent
    | some kind =>
        rw [hknown] at hcontent
        exact Kind.compare_swap (hsettled hid kind hknown (hkind ▸ hknown)) hcontent
  · rw [if_neg hequates] at hcontent
    rw [if_neg fun hback => hequates (Registry.equates_builtin_symm hback)]
    exact ⟨hcontent.1.symm, Json.same_symm hcontent.2⟩

theorem diff_unchanged_swap {previous current : Graph} (hsettled : previous.Settled current)
    (h : (diff ⟨.builtin, none⟩ previous current).counts.hasChanges = false) :
    (diff ⟨.builtin, none⟩ current previous).counts.hasChanges = false := by
  obtain ⟨hnodes, hedges⟩ := diff_unchanged.mp h
  refine diff_unchanged.mpr ⟨?_, ?_⟩
  · obtain ⟨hlength, hpairs⟩ := List.forall₂_iff_zip.mp hnodes
    refine List.Forall₂.flip (List.forall₂_iff_zip.mpr ⟨hlength, fun hmem => ?_⟩)
    obtain ⟨hid, hnode⟩ := hpairs hmem
    exact ⟨hid.symm, compareNodes_swap hid (hsettled (_, _) hmem) hnode⟩
  · refine List.Forall₂.flip (hedges.imp fun edge other hedge => ?_)
    exact ⟨hedge.1.symm, compareEdges_equivalence.symm hedge.2⟩

/--
**Whether anything changed does not depend on the direction,** settled rows provided.

Of two graphs whose nodes hold no different rows under one fingerprint, on one side at least, the comparison
has changes in both directions or in neither. Only rows without ids have fingerprints, and only of
expression rows and of columns this is asked.
-/
theorem diff_hasChanges_swap {previous current : Graph} (hsettled : previous.Settled current) :
    (diff ⟨.builtin, none⟩ previous current).counts.hasChanges
      = (diff ⟨.builtin, none⟩ current previous).counts.hasChanges := by
  rw [Bool.eq_iff_iff, ← not_iff_not, Bool.not_eq_true, Bool.not_eq_true]
  exact ⟨diff_unchanged_swap hsettled, diff_unchanged_swap hsettled.symm⟩

/-- Two rows of one key that are the same but for white space, put behind another row. -/
theorem diff_hasChanges_swap_repeated_key :
    let row (key value : String) : Json := .object [("key", .text key), ("value", .text value)]
    let graph (rows : List Json) : Graph :=
      ⟨[⟨"a", "expressionNode", "A", .object [("expressions", .array rows)], .origin⟩], []⟩
    let previous := graph [row "k" "1", row "k" "1 ", row "x" "0"]
    let current := graph [row "x" "0", row "k" "1 ", row "k" "1"]
    previous.Settled current
      ∧ (diff ⟨.builtin, none⟩ previous current).counts.hasChanges = false
      ∧ (diff ⟨.builtin, none⟩ current previous).counts.hasChanges = false := by
  intro row graph previous current
  have hsettled : previous.Settled current := by decide
  have hforth : (diff ⟨.builtin, none⟩ previous current).counts.hasChanges = false := by decide
  exact ⟨hsettled, hforth, (diff_hasChanges_swap hsettled).symm.trans hforth⟩

/-- Two rows of one key that differ, turned around behind another row: in the one direction each finds its
like, in the other the nearest is the other one. -/
theorem diff_changes_one_way :
    let row (key value : String) : Json := .object [("key", .text key), ("value", .text value)]
    let graph (rows : List Json) : Graph :=
      ⟨[⟨"a", "expressionNode", "A", .object [("expressions", .array rows)], .origin⟩], []⟩
    let previous := graph [row "k" "1", row "k" "2", row "x" "0"]
    let current := graph [row "x" "0", row "k" "2", row "k" "1"]
    (diff ⟨.builtin, none⟩ previous current).counts.hasChanges = false
      ∧ (diff ⟨.builtin, none⟩ current previous).counts.hasChanges = true := by
  decide

end Comparison

end DecisionGraph
