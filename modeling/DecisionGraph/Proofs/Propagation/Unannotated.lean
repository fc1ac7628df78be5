import DecisionGraph.Proofs.Behavior.Overlooked
import DecisionGraph.Proofs.Propagation.Equations

/-!
# Graphs between which nothing is found

If a comparison annotates nothing, propagation comes to the same shapes and to the same dirty nodes in
both graphs (`Environment.propagate_of_unannotated`). The graphs can still be written differently: their
kinds under other names, their contents with other white space.

1. **The flow of data is the same** (`Graph.SameFlow`). Nodes have the same ids in order and edges the same
   ends, so both graphs have one topology, and with it the same sources, cycles and dirty nodes.
2. **The output of a node for an input is the same** (`Environment.infer_overlooked`), since inference does
   not read what a comparison overlooks.
3. **Graphs like these have the same shapes** (`Environment.propagate_alike_of_flow`), node by node along
   the flow of data.

A comparison trims kinds and the ends of edges, propagation does not. So both have to be trimmed in the
graphs.
-/

namespace DecisionGraph

/-! ## The flow of data -/

/-- The nodes have the same ids and the edges the same ends, in order. -/
structure Graph.SameFlow (previous current : Graph) : Prop where
  nodeIds : previous.nodeIds = current.nodeIds
  ends : previous.edges.map (fun edge => (edge.source, edge.target))
    = current.edges.map fun edge => (edge.source, edge.target)

namespace Topology

theorem ofGraph_links_of_ends (graph : Graph) :
    (ofGraph graph).links = (graph.edges.map fun edge => (edge.source, edge.target)).filterMap
      fun ends => if ends.1 ∈ graph.nodeIds ∧ ends.2 ∈ graph.nodeIds then some ⟨ends.1, ends.2⟩
        else none := by
  rw [List.filterMap_map]
  rfl

/-- A walk sees nothing of a topology but its links. -/
theorem walk_congr {topology other : Topology} (h : topology.links = other.links) (room : Nat)
    (reached queue : List String) :
    walk topology room reached queue = walk other room reached queue := by
  induction room generalizing reached queue with
  | zero => rfl
  | succ room ih =>
      cases queue with
      | nil => rfl
      | cons id rest =>
          have hsuccessors : topology.successors id = other.successors id := by
            unfold successors
            rw [h]
          unfold walk
          rw [hsuccessors]
          exact ih _ _

end Topology

namespace Graph.SameFlow

variable {previous current : Graph}

theorem links (h : previous.SameFlow current) :
    (Topology.ofGraph previous).links = (Topology.ofGraph current).links := by
  rw [Topology.ofGraph_links_of_ends, Topology.ofGraph_links_of_ends, h.ends, h.nodeIds]

theorem sources (h : previous.SameFlow current) (id : String) :
    previous.sources id = current.sources id := by
  rw [← Topology.ofGraph_predecessors, ← Topology.ofGraph_predecessors]
  unfold Topology.predecessors
  rw [h.links]

theorem feeds (h : previous.SameFlow current) : previous.Feeds = current.Feeds := by
  rw [← Topology.ofGraph_linked, ← Topology.ofGraph_linked]
  unfold Topology.Linked
  rw [h.links]

theorem onCycle (h : previous.SameFlow current) (id : String) :
    previous.OnCycle id ↔ current.OnCycle id := by
  unfold OnCycle
  rw [h.feeds]

/-- The same nodes lie downstream of changed ones. -/
theorem downstream (h : previous.SameFlow current) (changed : List String) :
    (Topology.ofGraph previous).downstream changed
      = (Topology.ofGraph current).downstream changed := by
  have hids : (Topology.ofGraph previous).ids = (Topology.ofGraph current).ids := by
    rw [Topology.ofGraph_ids, Topology.ofGraph_ids, h.nodeIds]
  unfold Topology.downstream
  rw [hids, Topology.walk_congr h.links]

end Graph.SameFlow

/-- Nodes in relation at the same places of two lists are in relation under the same ids. -/
theorem find?_of_forall₂ {R : Node → Node → Prop} {nodes others : List Node}
    (h : List.Forall₂ (fun node other => node.id = other.id ∧ R node other) nodes others)
    {id : String} {node other : Node} (hnode : nodes.find? (fun node => node.id = id) = some node)
    (hother : others.find? (fun node => node.id = id) = some other) : node.id = other.id ∧ R node other := by
  induction h with
  | nil => cases hnode
  | @cons first second rest more hfirst _ ih =>
      by_cases hid : first.id = id
      · have hid' : second.id = id := hfirst.1 ▸ hid
        rw [List.find?_cons_of_pos (by simpa using hid)] at hnode
        rw [List.find?_cons_of_pos (by simpa using hid')] at hother
        obtain rfl := Option.some.inj hnode
        obtain rfl := Option.some.inj hother
        exact hfirst
      · have hid' : ¬second.id = id := hfirst.1 ▸ hid
        rw [List.find?_cons_of_neg (by simpa using hid)] at hnode
        rw [List.find?_cons_of_neg (by simpa using hid')] at hother
        exact ih hnode hother

/-! ## Outputs -/

namespace Environment

theorem infer_output (environment : Environment) (node : Node) (input : Shape) :
    (environment.infer node input).output
      = ((((environment.registry.get? node.kind).bind fun behavior =>
          (behavior.infer node input environment.external).toOption)).map Inferred.output).getD
            .any := by
  unfold infer
  cases environment.registry.get? node.kind with
  | none => rfl
  | some behavior =>
      dsimp only [Option.bind_some]
      cases behavior.infer node input environment.external with
      | error error => rfl
      | ok inferred => rfl

/-- **Nodes between which nothing is found have the same output.** -/
theorem infer_overlooked {previous current : Node} (hid : previous.id = current.id)
    (hprevious : Text.trim previous.kind = previous.kind)
    (hcurrent : Text.trim current.kind = current.kind)
    (h : (Comparison.compareNodes ⟨.builtin, none⟩ previous current false).1.Unannotated)
    (external : Option Shape) (input : Shape) :
    (infer ⟨.builtin, external⟩ previous input).output
      = (infer ⟨.builtin, external⟩ current input).output := by
  obtain ⟨_, _, hcontent⟩ := Comparison.compareNodes_unannotated.mp h
  have hequates : Registry.builtin.equates previous.kind current.kind = true := by
    by_contra hne
    rw [if_neg hne, hprevious, hcurrent] at hcontent
    rw [hcontent.1, Registry.equates_self] at hne
    exact hne rfl
  rw [if_pos hequates, Comparison.compareContents_fst, Registry.get?_builtin_eq] at hcontent
  rw [infer_output, infer_output, Registry.get?_builtin_eq, Registry.get?_builtin_eq,
    Registry.ofName?_of_equates hequates]
  cases hkind : Kind.ofName? current.kind with
  | none => rfl
  | some kind =>
      rw [hkind] at hcontent
      have hinfer := Behavior.infer_overlooked kind hid hcontent input external
      rw [Option.map_some, Option.bind_some, Option.bind_some, hinfer]

variable {previous current : Graph}

/-- **With the same flow of data and the same outputs for all inputs the shapes are the same.** -/
theorem propagate_alike_of_flow (environment : Environment) (h : previous.SameFlow current)
    (hinfer : ∀ id node other, previous.node? id = some node → current.node? id = some other →
      ∀ input, (environment.infer node input).output = (environment.infer other input).output)
    (changed : List String) :
    ∀ id ∈ previous.nodeIds, ∃ before after,
      (environment.propagate previous changed none).node? id = some before
        ∧ (environment.propagate current changed none).node? id = some after
        ∧ before.input = after.input ∧ before.output = after.output := by
  have hbefore := environment.propagate_solves previous changed none
  have hafter := environment.propagate_solves current changed none
  refine Graph.flow_induction ?_ ?_
  · intro id hc
    exact ⟨_, _, (hbefore.cyclic hc).1, (hafter.cyclic ((h.onCycle id).mp hc)).1, rfl, rfl⟩
  · intro id hid hc hsources
    obtain ⟨node, hnode⟩ := Graph.exists_node? hid
    obtain ⟨other, hother⟩ := Graph.exists_node? (h.nodeIds ▸ hid : id ∈ current.nodeIds)
    have hc' : ¬current.OnCycle id := fun hcycle => hc ((h.onCycle id).mpr hcycle)
    have hinput : (environment.propagate previous changed none).inputAt previous id
        = (environment.propagate current changed none).inputAt current id := by
      rw [← inputAt_of_sources (h.sources id)]
      refine inputAt_congr fun source hfeeds => ?_
      obtain ⟨before, after, hsome, hsome', _, houtput⟩ := hsources source hfeeds
      rw [hsome, hsome']
      exact congrArg some houtput
    refine ⟨_, _, (hbefore.acyclic hnode hc).1, (hafter.acyclic hother hc').1, ?_⟩
    rw [hinput, shapesFor_none, shapesFor_none]
    refine ⟨rfl, ?_⟩
    unfold compute
    dsimp only
    rw [hinfer id node other hnode hother]

end Environment

/-- The kinds of the nodes and the ends of the edges have no white space around them. -/
structure Graph.Trimmed (graph : Graph) : Prop where
  kinds : ∀ node ∈ graph.nodes, Text.trim node.kind = node.kind
  ends : ∀ edge ∈ graph.edges,
    Text.trim edge.source = edge.source ∧ Text.trim edge.target = edge.target

theorem Comparison.trim_ends_eq {edge other : Edge} (h : compareEdges edge other = []) :
    Text.trim edge.source = Text.trim other.source
      ∧ Text.trim edge.target = Text.trim other.target := by
  unfold compareEdges at h
  simp only [changedFields_eq_nil, List.forall_mem_cons] at h
  obtain ⟨hsource, htarget, _⟩ := h
  rw [FieldChange.ofTexts?_eq_none, Option.getD_some, Option.getD_some] at hsource htarget
  exact ⟨hsource, htarget⟩

/-- What is equal at the same places of two lists makes up equal lists. -/
theorem map_eq_of_forall₂ {α β : Type} {f : α → β} {items others : List α}
    (h : List.Forall₂ (fun item other => f item = f other) items others) :
    items.map f = others.map f := by
  rw [← List.forall₂_eq_eq_eq, List.forall₂_map_left_iff, List.forall₂_map_right_iff]
  exact h

/-- If nothing is found between two graphs, data flow in the same way. -/
theorem Comparison.sameFlow_of_unannotated {comparison : Comparison} {previous current : Graph}
    (hprevious : previous.Trimmed) (hcurrent : current.Trimmed)
    (h : (comparison.diff previous current).Unannotated) : previous.SameFlow current := by
  obtain ⟨hnodes, hedges⟩ := diff_unannotated.mp h
  have htrim : ∀ graph : Graph, graph.Trimmed →
      graph.edges.map (fun edge => (Text.trim edge.source, Text.trim edge.target))
        = graph.edges.map fun edge => (edge.source, edge.target) := by
    intro graph hgraph
    refine List.map_congr_left fun edge hedge => ?_
    rw [(hgraph.ends edge hedge).1, (hgraph.ends edge hedge).2]
  refine ⟨map_eq_of_forall₂ (hnodes.imp fun _ _ hboth => hboth.1), ?_⟩
  rw [← htrim previous hprevious, ← htrim current hcurrent]
  refine map_eq_of_forall₂ (hedges.imp fun _ _ hboth => ?_)
  obtain ⟨hsource, htarget⟩ := trim_ends_eq hboth.2
  rw [hsource, htarget]

namespace Environment

/--
**The two engines agree on what no change is.**

If a comparison of two graphs annotates no node, no row and no edge, then propagation gives every id the
same input and the same output in both, and finds the same nodes dirty, whatever comes from outside and
whatever is said to be changed. Kinds and ends of edges have to be trimmed; ids are compared as they are.
-/
theorem propagate_of_unannotated {previous current : Graph} (hprevious : previous.Trimmed)
    (hcurrent : current.Trimmed)
    (h : (Comparison.diff ⟨.builtin, none⟩ previous current).Unannotated) (external : Option Shape)
    (changed : List String) :
    let before := propagate ⟨.builtin, external⟩ previous changed none
    let after := propagate ⟨.builtin, external⟩ current changed none
    (∀ id, (before.node? id).map (fun shapes => (shapes.input, shapes.output))
        = (after.node? id).map fun shapes => (shapes.input, shapes.output))
      ∧ before.dirty = after.dirty := by
  intro before after
  have hflow := Comparison.sameFlow_of_unannotated hprevious hcurrent h
  have hnodes := (Comparison.diff_unannotated.mp h).1
  have hinfer : ∀ id node other, previous.node? id = some node → current.node? id = some other →
      ∀ input, (infer ⟨.builtin, external⟩ node input).output
        = (infer ⟨.builtin, external⟩ other input).output := by
    intro id node other hnode hother input
    obtain ⟨hid, hunannotated⟩ := find?_of_forall₂ hnodes hnode hother
    exact infer_overlooked hid (hprevious.kinds node (List.mem_of_find?_eq_some hnode))
      (hcurrent.kinds other (List.mem_of_find?_eq_some hother)) hunannotated external input
  have halike := propagate_alike_of_flow ⟨.builtin, external⟩ hflow hinfer changed
  constructor
  · intro id
    by_cases hid : id ∈ previous.nodeIds
    · obtain ⟨shapes, shapes', hsome, hsome', hinput, houtput⟩ := halike id hid
      rw [hsome, hsome', Option.map_some, Option.map_some, hinput, houtput]
    · have hbefore := propagate_solves ⟨.builtin, external⟩ previous changed none
      have hafter := propagate_solves ⟨.builtin, external⟩ current changed none
      have hid' : id ∉ current.nodeIds := hflow.nodeIds ▸ hid
      rw [(hbefore.outside hid).1, (hafter.outside hid').1]
  · exact congrArg sortedDistinct (hflow.downstream changed)

/-- Two graphs that differ in the names of their kinds, in white space and in what is missing. -/
theorem propagate_of_unannotated_respelled :
    let content (key : String) (more : List (String × Json)) : Json := .object <|
      ("expressions", .array [.object [("id", .text "1"), ("key", .text key), ("value", .text "a")]])
        :: more
    let previous : Graph :=
      ⟨[⟨"in", "inputNode", "In", .null, .origin⟩, ⟨"out", "expr", "Out", content " b " [], .origin⟩],
        [⟨"edge", "in", "out", none, none⟩]⟩
    let current : Graph :=
      ⟨[⟨"in", "request", " In", .object [], .origin⟩,
          ⟨"out", "expressionNode", "Out", content "b" [("passThrough", .boolean false)], .origin⟩],
        [⟨"edge", "in", "out", some " ", none⟩]⟩
    let before := propagate ⟨.builtin, some .any⟩ previous ["in"] none
    let after := propagate ⟨.builtin, some .any⟩ current ["in"] none
    previous.Trimmed ∧ current.Trimmed
      ∧ (Comparison.diff ⟨.builtin, none⟩ previous current).Unannotated
      ∧ (∀ id, (before.node? id).map (fun shapes => (shapes.input, shapes.output))
        = (after.node? id).map fun shapes => (shapes.input, shapes.output))
      ∧ before.dirty = after.dirty := by
  intro content previous current before after
  have hprevious : previous.Trimmed := ⟨by decide, by decide⟩
  have hcurrent : current.Trimmed := ⟨by decide, by decide⟩
  have hunannotated : (Comparison.diff ⟨.builtin, none⟩ previous current).Unannotated :=
    ⟨by decide, by decide⟩
  exact ⟨hprevious, hcurrent, hunannotated,
    propagate_of_unannotated hprevious hcurrent hunannotated (some .any) ["in"]⟩
end Environment

end DecisionGraph
