import DecisionGraph.Behavior.Builtin

/-!
# What the known kinds report

A known kind can find fault with the expressions of a node and with nothing else: every issue that
comes with an output is `invalidExpression` and names that node (`Behavior.ofKind_issues`). In
particular no kind reports a cycle.
-/

namespace DecisionGraph

/-- All issues are expressions of the node that have no shape. -/
def Issue.OfExpressions (node : String) (issues : List Issue) : Prop :=
  ∀ issue ∈ issues, ∃ source message, issue = .invalidExpression node source message

namespace Issue.OfExpressions

variable {node : String}

theorem nil : OfExpressions node [] := by
  intro issue h
  cases h

theorem append {first second : List Issue} (h : OfExpressions node first)
    (h' : OfExpressions node second) : OfExpressions node (first ++ second) := by
  intro issue hmem
  rcases List.mem_append.mp hmem with hfirst | hsecond
  · exact h issue hfirst
  · exact h' issue hsecond

end Issue.OfExpressions

open Issue (OfExpressions)

theorem typeOrReport_issues (node : String) (input : Shape) (source : String) :
    OfExpressions node (typeOrReport node input source).2 := by
  unfold typeOrReport
  cases typeOf input source with
  | ok shape => exact .nil
  | error error =>
      intro issue h
      exact ⟨source, error.message, List.mem_singleton.mp h⟩

theorem Routing.workingInput_issues (options : Routing) (node : String) (input : Shape) :
    OfExpressions node (options.workingInput node input).2 := by
  unfold workingInput
  cases options.selection? with
  | none => exact .nil
  | some source => exact typeOrReport_issues node input source

theorem ExpressionRow.inferAll_issues (node : String) (rows : List ExpressionRow)
    (working determined : Shape) : OfExpressions node (inferAll node rows working determined).2 := by
  induction rows generalizing working determined with
  | nil => exact .nil
  | cons row rest ih =>
      unfold inferAll
      cases row.parts? with
      | none => exact ih working determined
      | some parts => exact (typeOrReport_issues node working parts.2).append (ih _ _)

theorem DecisionTableContent.inferColumns_issues (node : String) (working : Shape) (rules : List Rule)
    (columns : List TableColumn) (determined : Shape) :
    OfExpressions node (inferColumns node working rules columns determined).2 := by
  induction columns generalizing determined with
  | nil => exact .nil
  | cons column rest ih =>
      unfold inferColumns
      cases Text.trimmed? column.field with
      | none => exact ih determined
      | some field =>
          refine OfExpressions.append ?_ (ih _)
          -- the issues of a column are those of its cells
          intro issue hmem
          obtain ⟨typed, htyped, hissue⟩ := List.mem_flatMap.mp hmem
          obtain ⟨source, _, rfl⟩ := List.mem_map.mp htyped
          exact typeOrReport_issues node working source issue hissue

/-- What succeeds in two steps succeeds in each of them. -/
theorem of_bind_eq_ok {ε α β : Type} {first : Except ε α} {next : α → Except ε β} {value : β}
    (h : first >>= next = .ok value) : ∃ part, first = .ok part ∧ next part = .ok value := by
  cases first with
  | error error => cases h
  | ok part => exact ⟨part, rfl, h⟩

/-- **What a known kind reports beside an output are expressions of the node.** -/
theorem Behavior.ofKind_issues {kind : Kind} {node : Node} {input : Shape} {external : Option Shape}
    {inferred : Inferred} (h : (ofKind kind).infer node input external = .ok inferred) :
    OfExpressions node.id inferred.issues := by
  cases kind with
  | input =>
      cases external with
      | some shape => obtain rfl := Except.ok.inj h; exact .nil
      | none =>
          obtain ⟨content, _, h⟩ := of_bind_eq_ok h
          split at h
          · obtain rfl := Except.ok.inj h; exact .nil
          · obtain rfl := Except.ok.inj h; exact .nil
  | output => obtain rfl := Except.ok.inj h; exact .nil
  | expression =>
      obtain ⟨content, _, h⟩ := of_bind_eq_ok h
      obtain rfl := Except.ok.inj h
      exact (content.routing.workingInput_issues node.id input).append
        (ExpressionRow.inferAll_issues _ _ _ _)
  | decisionTable =>
      obtain ⟨content, _, h⟩ := of_bind_eq_ok h
      obtain rfl := Except.ok.inj h
      exact (content.routing.workingInput_issues node.id input).append
        (DecisionTableContent.inferColumns_issues _ _ _ _ _)
  | switch => obtain rfl := Except.ok.inj h; exact .nil
  | function =>
      obtain ⟨content, _, h⟩ := of_bind_eq_ok h
      obtain rfl := Except.ok.inj h
      exact .nil
  | decision =>
      obtain ⟨content, _, h⟩ := of_bind_eq_ok h
      obtain rfl := Except.ok.inj h
      exact .nil
  | custom => obtain rfl := Except.ok.inj h; exact .nil

end DecisionGraph
