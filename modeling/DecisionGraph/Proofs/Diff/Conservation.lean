import DecisionGraph.Proofs.Diff.Current
import DecisionGraph.Proofs.Diff.Partners
import DecisionGraph.Proofs.Diff.Unannotated

/-!
# A comparison conserves nodes and edges

However often an id stands in two graphs, a comparison pairs as many of its nodes as both graphs have, and
calls what one of them has more of added or removed (`Comparison.diff_conserves`). The argument counts the
entries of an id three times:

1. Those that are **not gone** are the current items, so they are as many as there (`Reports.countP_kept`).
2. Those that are **not new** are the previous items in some order (`Reports.countP_old`).
3. An id is **not on both sides** of what is left over (`Reports.not_new_and_gone`).

This settles how many are gone, new and neither. The counts of a whole comparison add up for the same reason.
-/

namespace DecisionGraph

/-- Whether an entry is in the current snapshot alone. -/
def isNew : Option Change → Bool
  | some .added => true
  | _ => false

/-- What is in both snapshots is not new. -/
theorem Change.ofPair?_not_new (fields : FieldChanges) (moved : Bool) :
    isNew (ofPair? fields moved) = false := by
  unfold ofPair?
  cases fields.isEmpty with
  | false => rfl
  | true => cases moved <;> rfl

/-- What goes with each status of a change. -/
structure Change.WellFormed (change : Change) : Prop where
  added : change.status = "added" → change.fields = [] ∧ change.hasMoved = false
  removed : change.status = "removed" → change.fields = [] ∧ change.hasMoved = false
  moved : change.status = "moved" → change.fields = [] ∧ change.hasMoved = true
  modified : change.status = "modified" → change.fields ≠ []

theorem Change.added_wellFormed : Change.added.WellFormed :=
  ⟨fun _ => ⟨rfl, rfl⟩, fun _ => ⟨rfl, rfl⟩, by decide, by decide⟩

theorem Change.removed_wellFormed : Change.removed.WellFormed :=
  ⟨fun _ => ⟨rfl, rfl⟩, fun _ => ⟨rfl, rfl⟩, by decide, by decide⟩

/-- The change of a pair has moved or changed fields, and is none of a pair without either. -/
theorem Change.ofPair?_wellFormed {fields : FieldChanges} {moved : Bool} {change : Change}
    (h : ofPair? fields moved = some change) : change.WellFormed := by
  unfold ofPair? at h
  split at h
  · split at h
    · obtain rfl := Option.some.inj h
      exact ⟨by decide, by decide, fun _ => ⟨rfl, rfl⟩, by decide⟩
    · cases h
  · rename_i hfields
    obtain rfl := Option.some.inj h
    have hstatus : (modified fields moved).status = "modified" := rfl
    rw [List.isEmpty_iff] at hfields
    refine ⟨?_, ?_, ?_, fun _ => hfields⟩
    all_goals
      intro hother
      rw [hstatus] at hother
      exact absurd hother (by decide)

/-! ## Counting entries -/

section Counting

variable {α β : Type}

/-- What is one of two things, but never both, is counted with the one or with the other. -/
theorem countP_eq_add {p q r : α → Bool} {items : List α}
    (h : ∀ item ∈ items, (p item).toNat = (q item).toNat + (r item).toNat) :
    items.countP p = items.countP q + items.countP r := by
  induction items with
  | nil => rfl
  | cons first rest ih =>
      obtain ⟨hfirst, hrest⟩ := List.forall_mem_cons.mp h
      have hone : ∀ b : Bool, (if b = true then 1 else 0) = b.toNat := by decide
      rw [List.countP_cons, List.countP_cons, List.countP_cons, ih hrest, hone, hone, hone, hfirst]
      omega

/-- Comparing an entry tells on which sides it is: it is added, removed, or has the change of a pair. -/
structure Reports (compare : Slot α → β) (change : β → Option Change) (item : β → α) : Prop
    extends Restores compare (fun entry => isGone (change entry)) item where
  added_eq : ∀ current, change (compare (.added current)) = some .added
  /-- A removed entry stands with what it was. -/
  removed_eq : ∀ previous, change (compare (.removed previous)) = some .removed
    ∧ item (compare (.removed previous)) = previous.item
  paired_eq : ∀ previous current moved, ∃ fields alsoMoved,
    change (compare (.paired previous current moved)) = Change.ofPair? fields alsoMoved

/-- As many entries of each id are paired as there are on both sides, and the others are new or gone. -/
structure Conserves (key : α → String) (change : β → Option Change) (item : β → α)
    (previous current : List α) (entries : List β) : Prop where
  gone : ∀ id, (entries.countP fun entry => key (item entry) == id && isGone (change entry))
    = (previous.map key).count id - (current.map key).count id
  new : ∀ id, (entries.countP fun entry => key (item entry) == id && isNew (change entry))
    = (current.map key).count id - (previous.map key).count id
  paired : ∀ id, (entries.countP fun entry =>
      key (item entry) == id && !isGone (change entry) && !isNew (change entry))
    = min ((previous.map key).count id) ((current.map key).count id)

namespace Reports

variable {compare : Slot α → β} {change : β → Option Change} {item : β → α} {key : α → String}
  {previous current : List α}

/-- An entry counts as new if it has no previous item. -/
theorem new_eq (h : Reports compare change item) (slot : Slot α) :
    isNew (change (compare slot)) = slot.isAdded := by
  cases slot with
  | added current => rw [h.added_eq]; rfl
  | removed previous => rw [(h.removed_eq previous).1]; rfl
  | paired previous current moved =>
      obtain ⟨fields, alsoMoved, heq⟩ := h.paired_eq previous current moved
      rw [heq, Change.ofPair?_not_new]
      rfl

theorem wellFormed (h : Reports compare change item) {slot : Slot α} {reported : Change}
    (hreported : change (compare slot) = some reported) : reported.WellFormed := by
  cases slot with
  | added current =>
      rw [h.added_eq] at hreported
      exact Option.some.inj hreported ▸ Change.added_wellFormed
  | removed previous =>
      rw [(h.removed_eq previous).1] at hreported
      exact Option.some.inj hreported ▸ Change.removed_wellFormed
  | paired previous current moved =>
      obtain ⟨fields, alsoMoved, heq⟩ := h.paired_eq previous current moved
      exact Change.ofPair?_wellFormed (heq.symm.trans hreported)

/-- Nothing is new and gone. -/
theorem not_gone_of_new (h : Reports compare change item) (slot : Slot α)
    (hnew : isNew (change (compare slot)) = true) : isGone (change (compare slot)) = false := by
  rw [h.new_eq] at hnew
  rw [h.gone_eq]
  cases slot with
  | added current => rfl
  | paired previous current moved => cases hnew
  | removed previous => cases hnew

/-- **What is not gone is the current sequence.** -/
theorem countP_kept (h : Reports compare change item) (label : α → Label) (previous current : List α)
    (p : α → Bool) :
    ((align label previous current).map compare).countP
        (fun entry => p (item entry) && !isGone (change entry)) = current.countP p := by
  have hcurrent := h.toRestores.current label previous current
  rw [← List.countP_filter]
  conv_rhs => rw [← hcurrent, List.countP_map]
  rfl

/-- An entry that has a previous item goes by the key of that item. -/
theorem key_eq (h : Reports compare change item) {slot : Slot α}
    (hslot : slot ∈ align (fun item => .named (key item)) previous current) {old : Placed α}
    (hold : slot.previous? = some old) : key (item (compare slot)) = key old.item := by
  cases slot with
  | added current => cases hold
  | removed previous =>
      obtain rfl := Option.some.inj hold
      exact congrArg key (h.removed_eq _).2
  | paired previous current moved =>
      obtain rfl := Option.some.inj hold
      have hlabels := (Paired.spec ⟨moved, hslot⟩).2.2.1
      rw [h.item_eq rfl, Label.named.inj hlabels]

/-- **What is not new is the previous sequence in some order.** -/
theorem countP_old (h : Reports compare change item) (key : α → String) (previous current : List α)
    (p : String → Bool) :
    ((align (fun item => .named (key item)) previous current).map compare).countP
        (fun entry => p (key (item entry)) && !isNew (change entry))
      = previous.countP fun item => p (key item) := by
  have hperm := align_previous_perm (fun item => .named (key item)) previous current
  have hplaced : previous.countP (fun item => p (key item))
      = (placed previous).countP fun old => p (key old.item) := by
    conv_lhs => rw [← placed_item previous]
    exact List.countP_map
  rw [hplaced, ← hperm.countP_eq, List.countP_filterMap, List.countP_map]
  refine List.countP_congr fun slot hslot => ?_
  rw [Function.comp_apply, h.new_eq, Slot.isAdded]
  cases hold : slot.previous? with
  | none => simp
  | some old => simp [h.key_eq hslot hold]

/-- **No id is left over on both sides.** -/
theorem not_new_and_gone (h : Reports compare change item) (key : α → String)
    (previous current : List α) (id : String) :
    (((align (fun item => .named (key item)) previous current).map compare).countP
        fun entry => key (item entry) == id && isNew (change entry)) = 0
      ∨ (((align (fun item => .named (key item)) previous current).map compare).countP
        fun entry => key (item entry) == id && isGone (change entry)) = 0 := by
  rw [List.countP_eq_zero, List.countP_eq_zero]
  by_contra hboth
  push Not at hboth
  obtain ⟨⟨new, hnew, hnewId⟩, gone, hgone, hgoneId⟩ := hboth
  obtain ⟨slot, hslot, rfl⟩ := List.mem_map.mp hnew
  obtain ⟨slot', hslot', rfl⟩ := List.mem_map.mp hgone
  rw [Bool.and_eq_true, beq_iff_eq, h.new_eq] at hnewId
  rw [Bool.and_eq_true, beq_iff_eq, h.gone_eq] at hgoneId
  cases slot with
  | paired | removed => cases hnewId.2
  | added other =>
      cases slot' with
      | paired | added => cases hgoneId.2
      | removed old =>
          -- the two would have been paired
          have hids : key old.item = key other.item := by
            rw [← (h.removed_eq old).2, hgoneId.1, ← hnewId.1, h.item_eq rfl]
          cases unmarked_of_left_over hslot' hslot (congrArg Label.named hids)

/-- The entries of an id on both sides: the paired ones, and those that only that side has. -/
theorem countP_sides (h : Reports compare change item) (key : α → String) (previous current : List α)
    (id : String) :
    let entries := (align (fun item => .named (key item)) previous current).map compare
    let paired := entries.countP fun entry =>
      key (item entry) == id && !isGone (change entry) && !isNew (change entry)
    (current.map key).count id
        = paired + entries.countP (fun entry => key (item entry) == id && isNew (change entry))
      ∧ (previous.map key).count id
        = paired + entries.countP fun entry => key (item entry) == id && isGone (change entry) := by
  intro entries paired
  have hcount : ∀ items : List α,
      (items.map key).count id = items.countP fun item => key item == id := by
    intro items
    rw [List.count, List.countP_map]
    rfl
  have hnot : ∀ entry ∈ entries, isNew (change entry) = true → isGone (change entry) = false := by
    intro entry hentry
    obtain ⟨slot, _, rfl⟩ := List.mem_map.mp hentry
    exact h.not_gone_of_new slot
  constructor
  · rw [hcount, ← h.countP_kept (fun item => .named (key item)) previous]
    refine countP_eq_add fun entry hentry => ?_
    have hentry := hnot entry hentry
    cases key (item entry) == id <;> cases hnew : isNew (change entry) <;> simp_all
  · rw [hcount, ← h.countP_old key previous current (· == id)]
    refine countP_eq_add fun entry hentry => ?_
    have hentry := hnot entry hentry
    cases key (item entry) == id <;> cases hgone : isGone (change entry) <;> simp_all

/-- **Entries are conserved.** -/
theorem conserves (h : Reports compare change item) :
    Conserves key change item previous current
      ((align (fun item => .named (key item)) previous current).map compare) := by
  refine ⟨fun id => ?_, fun id => ?_, fun id => ?_⟩
  all_goals
    obtain ⟨hcurrent, hprevious⟩ := h.countP_sides key previous current id
    have hleft := h.not_new_and_gone key previous current id
    omega

theorem length_kept (h : Reports compare change item) (label : α → Label) (previous current : List α) :
    (((align label previous current).map compare).map change).countP (fun change => !isGone change)
      = current.length := by
  have hkept := h.countP_kept label previous current fun _ => true
  rw [List.countP_true] at hkept
  rw [List.countP_map, ← hkept]
  rfl

theorem length_old (h : Reports compare change item) (key : α → String) (previous current : List α) :
    (((align (fun item => .named (key item)) previous current).map compare).map change).countP
      (fun change => !isNew change) = previous.length := by
  have hold := h.countP_old key previous current fun _ => true
  rw [List.countP_true] at hold
  rw [List.countP_map, ← hold]
  rfl

end Reports

end Counting

/-! ## Counting changes -/

/-- **Every change counts once.** What is gone does not count for the current side, and what is new not for
the previous one. -/
theorem ChangeCounts.ofChanges_sides (changes : List (Option Change)) :
    let counts := ofChanges changes
    counts.added + counts.modified + counts.moved + counts.unchanged
        = changes.countP (fun change => !isGone change)
      ∧ counts.removed + counts.modified + counts.moved + counts.unchanged
        = changes.countP fun change => !isNew change := by
  intro counts
  induction changes with
  | nil => exact ⟨rfl, rfl⟩
  | cons first rest ih =>
      unfold ofChanges at ih
      simp only [counts, ofChanges, List.countP_cons]
      cases first with
      | none =>
          simp [isGone, isNew] at ih ⊢
          omega
      | some change =>
          cases change with
          | added | removed | moved | modified =>
              simp [isGone, isNew, Change.isRemoved, Change.status] at ih ⊢
              omega

namespace Comparison

theorem node_reports (comparison : Comparison) :
    Reports (fun slot => (comparison.node slot).1) ComparedNode.change ComparedNode.node where
  toRestores := comparison.node_restores
  added_eq := fun _ => rfl
  removed_eq := fun _ => ⟨rfl, rfl⟩
  paired_eq := fun _ _ _ => ⟨_, _, rfl⟩

theorem edge_reports : Reports edge ComparedEdge.change ComparedEdge.edge where
  toRestores := edge_restores
  added_eq := fun _ => rfl
  removed_eq := fun _ => ⟨rfl, rfl⟩
  paired_eq := by
    intro previous current moved
    refine ⟨compareEdges previous.item current.item, moved, ?_⟩
    dsimp only [edge]

/--
**A comparison conserves nodes and edges.**

Of every id, as many nodes are paired as both graphs have, those that only the previous graph has more of are
removed, and those that only the current graph has more of are added; likewise for edges. So the changes
that are not removals count the current graph, and those that are not additions count the previous one. No
change says more than its status allows.
-/
theorem diff_conserves (comparison : Comparison) (previous current : Graph) :
    let result := comparison.diff previous current
    let counts := result.counts
    Conserves Node.id ComparedNode.change ComparedNode.node previous.nodes current.nodes result.nodes
      ∧ Conserves Edge.id ComparedEdge.change ComparedEdge.edge previous.edges current.edges result.edges
      ∧ counts.added + counts.modified + counts.moved + counts.unchanged
        = current.nodes.length + current.edges.length
      ∧ counts.removed + counts.modified + counts.moved + counts.unchanged
        = previous.nodes.length + previous.edges.length
      ∧ ∀ change, some change ∈ result.changes → change.WellFormed := by
  intro result counts
  have hnodes : result.nodes = _ := diff_nodes comparison previous current
  have hedges : result.edges = _ := diff_edges comparison previous current
  have hchanges : result.changes = result.nodes.map ComparedNode.change
      ++ result.edges.map ComparedEdge.change := rfl
  rw [hnodes, hedges] at hchanges
  obtain ⟨hcurrent, hprevious⟩ := ChangeCounts.ofChanges_sides result.changes
  refine ⟨hnodes ▸ comparison.node_reports.conserves, hedges ▸ edge_reports.conserves,
    hcurrent.trans ?_, hprevious.trans ?_, ?_⟩
  · rw [hchanges, List.countP_append, comparison.node_reports.length_kept, edge_reports.length_kept]
  · rw [hchanges, List.countP_append, comparison.node_reports.length_old, edge_reports.length_old]
  · intro change hchange
    rw [hchanges, List.mem_append, List.map_map, List.map_map] at hchange
    cases hchange with
    | inl hnode =>
        obtain ⟨slot, _, hslot⟩ := List.mem_map.mp hnode
        exact comparison.node_reports.wellFormed hslot
    | inr hedge =>
        obtain ⟨slot, _, hslot⟩ := List.mem_map.mp hedge
        exact edge_reports.wellFormed hslot

end Comparison

end DecisionGraph
