import DecisionGraph.Proofs.Propagation.Reached
import DecisionGraph.Proofs.Shape.Normal

/-!
# The shapes of a propagation are bounded

Whatever comes from outside, however deep it is and whatever its unions look like: every shape that a
propagation shows is normal and no deeper than `Shape.maxDepth` (`Propagation.Reached.bounded`). Only the
output of a node that is computed is ever cut off. The other shapes follow from it:

* An **input** is merged from outputs, and merging keeps within the limit.
* A node that **keeps** its shapes has those of an earlier result, for which the same has been shown.
* Nothing is known about a node on a **cycle**.
-/

namespace DecisionGraph

open Shape

/-- Both shapes are normal, and no deeper than shapes may be. -/
structure NodeShapes.Bounded (shapes : NodeShapes) : Prop where
  input : NormalWithin maxDepth shapes.input
  output : NormalWithin maxDepth shapes.output

/-- All nodes have bounded shapes. -/
def Propagation.Bounded (result : Propagation) : Prop :=
  ∀ id shapes, result.node? id = some shapes → shapes.Bounded

theorem NodeShapes.unknown_bounded : NodeShapes.unknown.Bounded := ⟨normalWithin_any, normalWithin_any⟩

/-- The input of a node that nothing feeds. -/
theorem Shape.normalWithin_empty : NormalWithin maxDepth .empty :=
  .object fun _ hfield => absurd hfield List.not_mem_nil

namespace Environment

variable {environment : Environment} {graph : Graph} {changed : List String}
  {previous : Option Propagation}

/-- A node that is computed from a bounded input has a bounded output, whatever its kind makes of it. -/
theorem compute_bounded (environment : Environment) (node : Node) {input : Shape}
    (h : NormalWithin maxDepth input) : (environment.compute node input).Bounded :=
  ⟨h, normalWithin_truncate maxDepth _⟩

/-- Outputs within the limit are merged to an input within the limit. -/
theorem inputAt_bounded {result : Propagation} {id : String}
    (h : ∀ source, graph.Feeds source id → ∀ shapes, result.node? source = some shapes → shapes.Bounded) :
    NormalWithin maxDepth (result.inputAt graph id) := by
  unfold Propagation.inputAt
  refine mergeAll?_getD normalWithin_empty (fun _ _ hfirst hsecond => hfirst.merge hsecond) ?_
  refine List.forall_mem_map.mpr fun source hsource => ?_
  cases hentry : result.node? source with
  | none => exact normalWithin_any
  | some shapes => exact (h source (Graph.mem_sources.mp hsource) shapes hentry).output

/-- What a node gets for a bounded input is bounded, if the earlier result is. -/
theorem shapesFor_bounded (hprevious : ∀ result ∈ previous, result.Bounded) (node : Node) {input : Shape}
    (h : NormalWithin maxDepth input) : (environment.shapesFor changed previous node input).Bounded := by
  unfold shapesFor
  cases hkept : environment.kept? changed previous node (environment.basisOf node input) with
  | none => exact environment.compute_bounded node h
  | some kept =>
      obtain ⟨result, _, hresult, _, _, _, hold⟩ := kept?_eq_some.mp hkept
      exact hprevious result hresult node.id kept hold

/-- **A propagation from a bounded result is bounded.** -/
theorem propagate_bounded (hprevious : ∀ result ∈ previous, result.Bounded) :
    (environment.propagate graph changed previous).Bounded := by
  have hsolves := environment.propagate_solves graph changed previous
  have hnodes : ∀ id ∈ graph.nodeIds, ∀ shapes,
      (environment.propagate graph changed previous).node? id = some shapes → shapes.Bounded := by
    refine Graph.flow_induction ?_ ?_
    · intro id hc shapes hentry
      rw [(hsolves.cyclic hc).1] at hentry
      obtain rfl := Option.some.inj hentry
      exact NodeShapes.unknown_bounded
    · intro id hid hc hsources shapes hentry
      obtain ⟨node, hnode⟩ := Graph.exists_node? hid
      rw [(hsolves.acyclic hnode hc).1] at hentry
      obtain rfl := Option.some.inj hentry
      exact shapesFor_bounded hprevious node (inputAt_bounded hsources)
  intro id shapes hentry
  exact hnodes id (propagate_node?_isSome.mp (Option.isSome_iff_exists.mpr ⟨shapes, hentry⟩)) shapes hentry

end Environment

/--
**Every shape that a propagation shows is bounded and normal.**

The result can come from any chain of propagations, with any registries, graphs, changed nodes and shapes
from outside. Every union in it has at least two members, none of which is `any` or a union.
-/
theorem Propagation.Reached.bounded {allowed : Registry → Prop} {result : Propagation}
    (h : Reached allowed (some result)) : ∀ shapes ∈ Keyed.values result.nodes, shapes.Bounded := by
  have hresult : Keyed.Ordered result.nodes ∧ result.Bounded := by
    refine h.forall (P := fun result => Keyed.Ordered result.nodes ∧ result.Bounded) ?_ result rfl
    intro registry external graph changed previous _ hearlier
    exact ⟨Environment.propagate_ordered _ _ _ _,
      Environment.propagate_bounded fun result hmem => (hearlier result hmem).2⟩
  intro shapes hshapes
  obtain ⟨id, hentry⟩ := hresult.1.mem_values.mp hshapes
  exact hresult.2 id shapes hentry

/-- A shape from outside that is too deep, around a union of nothing, is kept by a second propagation. -/
theorem Propagation.bounded_deep :
    let deep : Shape := Shape.array^[70] (.union [.union []])
    let graph : Graph := ⟨[⟨"in", "inputNode", "In", .null, .origin⟩], []⟩
    let environment : Environment := ⟨.builtin, some deep⟩
    let earlier := environment.propagate graph [] none
    let result := environment.propagate graph [] (some earlier)
    deep.depth = 70 ∧ result.recomputed = []
      ∧ (∀ shapes ∈ Keyed.values result.nodes, shapes.Bounded)
      ∧ (Keyed.values result.nodes).map (fun shapes => shapes.output.depth) = [maxDepth] := by
  intro deep graph environment earlier result
  have hreached : Reached (fun _ => True) (some result) :=
    .propagate _ graph [] trivial (.propagate _ graph [] trivial .none)
  exact ⟨by decide, by decide +kernel, hreached.bounded, by decide +kernel⟩

end DecisionGraph
