import DecisionGraph.Proofs.Diff.Tolerance

/-!
# Taking back the edit of a rule

A change of a rule records, for every cell that it names, what the cell held before. This is enough to undo the
edit (`Rule.compare_undo`): where the recorded values are put back, and cells without a recorded value taken
out, nothing is found any more between the rule and what it was.

It need not be the very same rule. A missing cell is recorded as `null` if what stands there now is no text, and
it comes back as `null`, which passes for a missing cell (`Rule.compareCells_recorded`). Nor are all cells put
back: where the comparison tolerates an edit, it records nothing, and the edit stays.
-/

namespace DecisionGraph

namespace Rule

/-- Two cells between which nothing is found: values that tolerate each other, or a missing cell and a value that
passes for one. -/
def Agree : Option Json → Option Json → Prop
  | some value, some other => Tolerates value other
  | some value, none => PassesForNone value
  | none, some value => PassesForNone value
  | none, none => True

theorem compareCells_eq_none {previous current : Option Json} :
    compareCells previous current = none ↔ Agree previous current := by
  cases previous with
  | none =>
      cases current with
      | none => exact iff_of_true rfl trivial
      | some value => exact compareCells_none_left
  | some value =>
      cases current with
      | none => exact compareCells_none_right
      | some other => exact compareCells_some

/-! ## What is recorded -/

/-- **What is recorded of a cell passes for what it held.** It is the same, or the cell was missing and `null` is
recorded. -/
theorem compareCells_recorded {previous current : Option Json} {change : FieldChange}
    (h : compareCells previous current = some change) : compareCells previous change.previous = none := by
  unfold compareCells at h
  split at h
  · -- text, or nothing at all, is recorded as it is
    rename_i htextual
    obtain rfl := Option.some.inj (Option.ite_none_left_eq_some.mp h).2
    cases previous with
    | none => rfl
    | some value =>
        cases value with
        | text text => exact compareCells_self _
        | _ => cases htextual
  · obtain rfl := Option.some.inj (Option.ite_none_left_eq_some.mp h).2
    cases previous with
    | none => exact compareCells_none_left.mpr (Or.inr rfl)
    | some value => exact compareCells_self _

/-- **The changes between two rules are those between their cells,** all but the id. -/
theorem get?_compare (previous current : Rule) (column : String) :
    Keyed.get? column (Rule.compare previous current)
      = if column = idKey then none
        else compareCells (Keyed.get? column previous) (Keyed.get? column current) := by
  have hcolumns : column ∈ sortedDistinct (Keyed.names (cells previous) ++ Keyed.names (cells current))
      ↔ (column ∈ Keyed.names previous ∨ column ∈ Keyed.names current) ∧ column ≠ idKey := by
    simp only [mem_sortedDistinct, List.mem_append, cells, Keyed.names_erase, List.mem_filter,
      decide_eq_true_eq, or_and_right]
  unfold Rule.compare changedFields
  dsimp only
  rw [List.filterMap_map]
  refine (Keyed.get?_ofList_filterMap
    (fun column => compareCells (Keyed.get? column previous) (Keyed.get? column current)) _ column).trans ?_
  by_cases hid : column = idKey
  · rw [if_pos hid, if_neg fun hmem => (hcolumns.mp hmem).2 hid]
  · rw [if_neg hid]
    by_cases hmem : column ∈ Keyed.names previous ∨ column ∈ Keyed.names current
    · rw [if_pos (hcolumns.mpr ⟨hmem, hid⟩)]
    · -- a column that neither rule has
      rw [if_neg fun h => hmem (hcolumns.mp h).1]
      rw [not_or, Keyed.mem_names, Keyed.mem_names, Option.not_isSome_iff_eq_none,
        Option.not_isSome_iff_eq_none] at hmem
      rw [hmem.1, hmem.2]
      rfl

/-! ## Putting it back -/

/-- The rule with the recorded value in a cell again, or without the cell if no value is recorded. -/
def putBack (rule : Rule) (column : String) (change : FieldChange) : Rule :=
  match change.previous with
  | some value => Keyed.insert column value rule
  | none => Keyed.erase column rule

/-- The rule with every cell that the changes name put back. -/
def undo (current : Rule) (changes : FieldChanges) : Rule :=
  changes.foldl (fun rule change => putBack rule change.1 change.2) current

theorem get?_putBack (rule : Rule) (column other : String) (change : FieldChange) :
    Keyed.get? other (putBack rule column change)
      = if column = other then change.previous else Keyed.get? other rule := by
  unfold putBack
  cases change.previous with
  | some value => exact Keyed.get?_insert ..
  | none => exact Keyed.get?_erase ..

/-- **Undoing changes what the changes name and nothing else.** -/
theorem get?_undo {changes : FieldChanges} (hdistinct : (Keyed.names changes).Nodup) (current : Rule)
    (column : String) :
    Keyed.get? column (undo current changes)
      = (Keyed.get? column changes).elim (Keyed.get? column current) FieldChange.previous := by
  induction changes generalizing current with
  | nil => rfl
  | cons entry rest ih =>
      obtain ⟨name, change⟩ := entry
      obtain ⟨hfirst, hrest⟩ := List.nodup_cons.mp hdistinct
      have hundo : Keyed.get? column (undo current ((name, change) :: rest))
          = (Keyed.get? column rest).elim (Keyed.get? column (putBack current name change))
            FieldChange.previous := ih hrest (putBack current name change)
      rw [hundo, get?_putBack, Keyed.get?]
      by_cases hname : name = column
      · -- put back here, and not touched again
        have hnone : Keyed.get? column rest = none := by
          rw [← Option.not_isSome_iff_eq_none, ← Keyed.mem_names, ← hname]
          exact hfirst
        rw [if_pos hname, if_pos hname, hnone]
        rfl
      · rw [if_neg hname, if_neg hname]

/--
**A change of a rule is enough to undo it.**

Put the recorded values back into the cells that the change names, and nothing is found between the rule and
what it was. The id is never named, and of the cells of the two rules those are named between which the
comparison of cells finds something.
-/
theorem compare_undo (previous current : Rule) :
    let changes := Rule.compare previous current
    Rule.compare previous (undo current changes) = []
      ∧ idKey ∉ Keyed.names changes
      ∧ ∀ column, column ∈ Keyed.names changes
          ↔ column ≠ idKey ∧ (column ∈ Keyed.names previous ∨ column ∈ Keyed.names current)
            ∧ ¬Agree (Keyed.get? column previous) (Keyed.get? column current) := by
  intro changes
  have hdistinct : (Keyed.names changes).Nodup := (Keyed.ordered_ofList _).nodup_names
  refine ⟨compare_eq_nil.mpr fun column hcolumn => ?_, ?_, fun column => ?_⟩
  · rw [get?_undo hdistinct, get?_compare, if_neg hcolumn]
    cases hchange : compareCells (Keyed.get? column previous) (Keyed.get? column current) with
    | none => exact hchange
    | some change => exact compareCells_recorded hchange
  · rw [Keyed.mem_names, get?_compare, if_pos rfl]
    exact Bool.false_ne_true
  · rw [Keyed.mem_names, get?_compare, ← compareCells_eq_none]
    by_cases hid : column = idKey
    · rw [if_pos hid]
      exact iff_of_false Bool.false_ne_true fun h => h.1 hid
    · rw [if_neg hid, Option.isSome_iff_ne_none, and_iff_right hid]
      refine ⟨fun hchange => ⟨?_, hchange⟩, fun h => h.2⟩
      -- between two missing cells there is nothing to be found
      by_contra hmem
      rw [not_or, Keyed.mem_names, Keyed.mem_names, Option.not_isSome_iff_eq_none,
        Option.not_isSome_iff_eq_none] at hmem
      rw [hmem.1, hmem.2] at hchange
      exact hchange rfl

/-- A missing cell that was filled in comes back as `null`, blank text that was taken out stays out. -/
example :
    let previous : Rule := [("_id", .text "1"), ("b", .text " "), ("c", .text "x")]
    let current : Rule := [("_id", .text "2"), ("a", .boolean true), ("d", .text "y")]
    undo current (Rule.compare previous current) = [("_id", .text "2"), ("a", .null), ("c", .text "x")] := rfl

end Rule

end DecisionGraph
