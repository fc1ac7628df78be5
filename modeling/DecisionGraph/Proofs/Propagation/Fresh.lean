import DecisionGraph.Proofs.Propagation.Equations

/-!
# Propagating without an earlier result

Nothing is kept, so the equations of `Environment.Solves` say in full what every node gets:
`propagate_none_solves` writes them out. `Environment.Yields` is the output that a kind makes of an
input, case by case, with the issue that goes with each.
-/

namespace DecisionGraph

/-- The shapes that a node has when its kind has worked on an input. -/
inductive Environment.Yields (environment : Environment) (node : Node) (input : Shape) :
    NodeShapes → Prop where
  /-- The kind is not registered. -/
  | unregistered (h : environment.registry.get? node.kind = none) :
      Yields environment node input ⟨input, .any, [.unknownKind node.id node.kind]⟩
  /-- The content does not fit the kind. -/
  | malformed {behavior : Behavior} {error : ContentMismatch}
      (h : environment.registry.get? node.kind = some behavior)
      (herror : behavior.infer node input environment.external = .error error) :
      Yields environment node input ⟨input, .any, [.malformedContent node.id node.kind error.message]⟩
  /-- The kind has an output, which is cut off at the greatest depth. -/
  | inferred {behavior : Behavior} {inferred : Inferred}
      (h : environment.registry.get? node.kind = some behavior)
      (hok : behavior.infer node input environment.external = .ok inferred) :
      Yields environment node input
        ⟨input, inferred.output.truncate Shape.maxDepth, inferred.issues⟩

theorem Shape.truncate_any (limit : Nat) : Shape.any.truncate limit = .any := by
  unfold Shape.truncate
  split <;> rfl

namespace Environment

/-- Computing a node has the outcome that its kind yields. -/
theorem compute_yields (environment : Environment) (node : Node) (input : Shape) :
    environment.Yields node input (environment.compute node input) := by
  unfold compute infer
  cases h : environment.registry.get? node.kind with
  | none =>
      dsimp only
      rw [Shape.truncate_any]
      exact .unregistered h
  | some behavior =>
      cases hi : behavior.infer node input environment.external with
      | error error =>
          dsimp only
          rw [hi]
          dsimp only
          rw [Shape.truncate_any]
          exact .malformed h hi
      | ok inferred =>
          dsimp only
          rw [hi]
          exact .inferred h hi

/-- Every node that feeds another one has an output. -/
theorem exists_outputs (environment : Environment) (graph : Graph) (changed : List String)
    (previous : Option Propagation) (id : String) :
    let result := environment.propagate graph changed previous
    ∃ outputs : List Shape,
      (graph.sources id).map (fun source => (result.node? source).map NodeShapes.output)
          = outputs.map some
        ∧ result.inputAt graph id = (Shape.mergeAll? outputs).getD .empty := by
  intro result
  refine ⟨(graph.sources id).map fun source =>
    ((result.node? source).map NodeShapes.output).getD .any, ?_, rfl⟩
  rw [List.map_map]
  refine List.map_congr_left fun source hs => ?_
  have hknown := (Graph.feeds_mem (Graph.mem_sources.mp hs)).1
  have hsome : (result.node? source).isSome := propagate_node?_isSome.mpr hknown
  obtain ⟨shapes, hshapes⟩ := Option.isSome_iff_exists.mp hsome
  rw [Function.comp_apply, hshapes]
  rfl

/--
**Without an earlier result, a propagation covers the graph and solves its equations.**

Every id has one entry. The first node of an id that lies on no cycle of kept edges has for its
input what the outputs of its sources merge to, from left to right in the order of the edges, and
for its output what its kind yields; the issues of that are reported. Nothing is known about a node
on a cycle.
-/
theorem propagate_none_solves (environment : Environment) (graph : Graph) (changed : List String) :
    let result := environment.propagate graph changed none
    (Keyed.names result.nodes).Perm graph.nodeIds.eraseDups
      ∧ (∀ id node, graph.node? id = some node → ¬graph.OnCycle id →
          ∃ outputs shapes,
            (graph.sources id).map (fun source => (result.node? source).map NodeShapes.output)
                = outputs.map some
              ∧ result.node? id = some shapes
              ∧ environment.Yields node ((Shape.mergeAll? outputs).getD .empty) shapes
              ∧ ∀ issue ∈ shapes.issues, issue ∈ result.issues)
      ∧ ∀ id, graph.OnCycle id → result.node? id = some ⟨.any, .any, []⟩ := by
  intro result
  have hsolves := environment.propagate_solves graph changed none
  refine ⟨environment.names_propagate_perm graph changed none, ?_, ?_⟩
  · intro id node hnode hc
    obtain ⟨outputs, houtputs, hinput⟩ := environment.exists_outputs graph changed none id
    have hentry := (hsolves.acyclic hnode hc).1
    rw [shapesFor_none, hinput] at hentry
    exact ⟨outputs, _, houtputs, hentry, environment.compute_yields node _,
      fun issue hissue => mem_issues.mpr (Or.inr ⟨id, _, hentry, hissue⟩)⟩
  · intro id hc
    exact (hsolves.cyclic hc).1

end Environment

end DecisionGraph
