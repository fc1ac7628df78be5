import DecisionGraph.Proofs.Behavior.Determined
import DecisionGraph.Proofs.Propagation.Equations
import DecisionGraph.Proofs.Registry

/-!
# The shapes of a node depend on what lies above it

The cone of a node is what data flow to it from, directly or not, and the node itself. Two graphs with the
same cone of a node (`Graph.SameCone`) give the node the same shapes and the same issues
(`Environment.propagate_eq_of_cone`). The two propagations share no order of visits, so they are not followed
step by step: both results solve the equations of their graphs, and these are the same in the cone.

1. **The same nodes** are in the cone of either graph (`SameCone.reaches_iff`), and the same of them lie on
   a cycle, since a cycle through a node of the cone never leaves it (`SameCone.onCycle_iff`).
2. **Nodes of the cone are computed from the same**, since their sources are in the cone, too. Induction
   along the flow of data does the rest (`node?_of_cone`).

Graphs whose nodes and edges stand in another order (`Graph.Rearranged`) have the same cone of every node.
Editing nodes outside a cone leaves it as it is (`Graph.sameCone_edited`).
-/

namespace DecisionGraph

open Relation

namespace Graph

/-- If the sources of all members of a set are in the set, then all that reaches a member is. -/
theorem mem_of_reaches {graph : Graph} {cone : List String}
    (hclosed : ∀ id ∈ cone, ∀ source ∈ graph.sources id, source ∈ cone) {source id : String}
    (hid : id ∈ cone) (h : ReflTransGen graph.Feeds source id) : source ∈ cone := by
  induction h using ReflTransGen.head_induction_on with
  | refl => exact hid
  | head hfeeds _ ih => exact hclosed _ ih _ (mem_sources.mpr hfeeds)

/-- What a node contributes to propagation besides its id. -/
def contribution? (graph : Graph) (id : String) : Option (String × Json) :=
  (graph.node? id).map fun node => (node.kind, node.content)

/-- The node, and every other that reaches it, has the same kind, content and sources in both graphs. -/
structure SameCone (first second : Graph) (id : String) : Prop where
  sources : ∀ source, ReflTransGen first.Feeds source id → first.sources source = second.sources source
  contributions : ∀ source, ReflTransGen first.Feeds source id →
    first.contribution? source = second.contribution? source

namespace SameCone

variable {first second : Graph} {id : String}

theorem feeds_iff (h : first.SameCone second id) {source target : String}
    (htarget : ReflTransGen first.Feeds target id) :
    first.Feeds source target ↔ second.Feeds source target := by
  rw [← mem_sources, ← mem_sources, h.sources target htarget]

/-- **The same nodes reach the node in both graphs.** -/
theorem reaches_iff (h : first.SameCone second id) {source : String} :
    ReflTransGen first.Feeds source id ↔ ReflTransGen second.Feeds source id := by
  constructor
  · intro hpath
    induction hpath using ReflTransGen.head_induction_on with
    | refl => exact .refl
    | head hfeeds hrest ih => exact .head ((h.feeds_iff hrest).mp hfeeds) ih
  · intro hpath
    induction hpath using ReflTransGen.head_induction_on with
    | refl => exact .refl
    | head hfeeds _ ih => exact .head ((h.feeds_iff ih).mpr hfeeds) ih

theorem symm (h : first.SameCone second id) : second.SameCone first id where
  sources := fun source hpath => (h.sources source (h.reaches_iff.mpr hpath)).symm
  contributions := fun source hpath => (h.contributions source (h.reaches_iff.mpr hpath)).symm

theorem onCycle (h : first.SameCone second id) {source : String}
    (hcone : ReflTransGen first.Feeds source id) (hc : first.OnCycle source) :
    second.OnCycle source := by
  have hpath : ∀ start, TransGen first.Feeds start source → TransGen second.Feeds start source := by
    intro start hstart
    induction hstart using TransGen.head_induction_on with
    | single hfeeds => exact .single ((h.feeds_iff hcone).mp hfeeds)
    | head hfeeds hrest ih => exact .head ((h.feeds_iff (hrest.to_reflTransGen.trans hcone)).mp hfeeds) ih
  exact hpath source hc

/-- **The same nodes of the cone lie on a cycle.** -/
theorem onCycle_iff (h : first.SameCone second id) {source : String}
    (hcone : ReflTransGen first.Feeds source id) : first.OnCycle source ↔ second.OnCycle source :=
  ⟨h.onCycle hcone, h.symm.onCycle (h.reaches_iff.mp hcone)⟩

/-- It is enough to look at a set that the sources of its members are in. -/
theorem of_closed {cone : List String} (hid : id ∈ cone)
    (hclosed : ∀ target ∈ cone, ∀ source ∈ first.sources target, source ∈ cone)
    (hsources : ∀ target ∈ cone, first.sources target = second.sources target)
    (hcontributions : ∀ target ∈ cone, first.contribution? target = second.contribution? target) :
    first.SameCone second id where
  sources := fun source hpath => hsources source (mem_of_reaches hclosed hid hpath)
  contributions := fun source hpath => hcontributions source (mem_of_reaches hclosed hid hpath)

end SameCone

/-! ### Rearranged and edited graphs -/

/-- The sources of a node depend on which nodes there are, and on the edges into the node. -/
theorem sources_congr {first second : Graph} {id : String}
    (hids : ∀ other, other ∈ first.nodeIds ↔ other ∈ second.nodeIds)
    (hedges : first.edges.filter (fun edge => edge.target = id)
      = second.edges.filter fun edge => edge.target = id) : first.sources id = second.sources id := by
  unfold sources keptEdges
  rw [List.filter_comm, hedges, List.filter_comm]
  simp only [hids]

/-- Every id has the same first node in both graphs, and every node the same edges into it in order. -/
structure Rearranged (first second : Graph) : Prop where
  nodes : ∀ id, first.node? id = second.node? id
  edges : ∀ id, first.edges.filter (fun edge => edge.target = id)
    = second.edges.filter fun edge => edge.target = id

/-- Nodes with distinct ids can stand in any order. -/
theorem Rearranged.of_perm {first second : Graph} (hnodes : first.nodes.Perm second.nodes)
    (hdistinct : first.nodeIds.Nodup)
    (hedges : ∀ id, first.edges.filter (fun edge => edge.target = id)
      = second.edges.filter fun edge => edge.target = id) : first.Rearranged second where
  nodes := by
    have hmem : ∀ graph : Graph, graph.nodeIds.Nodup → ∀ id node,
        graph.node? id = some node ↔ node ∈ graph.nodes ∧ node.id = id := by
      intro graph hnodup id node
      refine ⟨fun h => ⟨List.mem_of_find?_eq_some h, node?_id h⟩, fun ⟨hnode, hid⟩ => ?_⟩
      have hknown : id ∈ graph.nodeIds := hid ▸ List.mem_map_of_mem hnode
      obtain ⟨found, hfound⟩ := exists_node? hknown
      have hids : found.id = node.id := (node?_id hfound).trans hid.symm
      rw [hfound, List.inj_on_of_nodup_map hnodup (List.mem_of_find?_eq_some hfound) hnode hids]
    intro id
    have hdistinct' : second.nodeIds.Nodup := (hnodes.map Node.id).nodup_iff.mp hdistinct
    refine Option.ext fun node => ?_
    rw [hmem first hdistinct, hmem second hdistinct', hnodes.mem_iff]
  edges := hedges

theorem Rearranged.sameCone {first second : Graph} (h : first.Rearranged second) (id : String) :
    first.SameCone second id where
  sources := by
    intro source _
    refine sources_congr (fun other => ?_) (h.edges source)
    rw [← node?_isSome, ← node?_isSome, h.nodes]
  contributions := by
    intro source _
    unfold contribution?
    rw [h.nodes]

/-- The graph with each of its nodes edited. -/
def edited (graph : Graph) (edit : Node → Node) : Graph := ⟨graph.nodes.map edit, graph.edges⟩

/-- Editing nodes outside the cone of a node leaves the cone as it is. -/
theorem sameCone_edited {graph : Graph} {edit : Node → Node} {id : String}
    (hids : ∀ node, (edit node).id = node.id)
    (hcone : ∀ source, ReflTransGen graph.Feeds source id → ∀ node, graph.node? source = some node →
      (edit node).kind = node.kind ∧ (edit node).content = node.content) :
    graph.SameCone (graph.edited edit) id where
  sources := by
    intro source _
    refine sources_congr (fun other => ?_) rfl
    have hnodeIds : (graph.edited edit).nodeIds = graph.nodeIds := by
      unfold nodeIds edited
      rw [List.map_map]
      exact List.map_congr_left fun node _ => hids node
    rw [hnodeIds]
  contributions := by
    intro source hpath
    have hnode? : (graph.edited edit).node? source = (graph.node? source).map edit := by
      unfold node? edited
      rw [List.find?_map]
      simp only [Function.comp_def, hids]
    unfold contribution?
    rw [hnode?, Option.map_map]
    refine Option.map_congr fun node hnode => ?_
    obtain ⟨hkind, hcontent⟩ := hcone source hpath node hnode
    rw [Function.comp_apply, hkind, hcontent]

end Graph

namespace Environment

variable {registry : Registry} {external external' : Option Shape} {first second : Graph}
  {changed changed' : List String}

/-- Nodes of one id, kind and content have the same shapes and the same issues. -/
theorem compute_eq (hregistry : registry.Composed Behavior.Confined) {node other : Node} {input : Shape}
    (hid : node.id = other.id) (hkind : node.kind = other.kind) (hcontent : node.content = other.content)
    (hexternal : (registry.get? node.kind).any Behavior.readsExternal = true → external = external') :
    compute ⟨registry, external⟩ node input = compute ⟨registry, external'⟩ other input := by
  unfold compute infer
  dsimp only
  rw [← hkind, ← hid]
  cases hget : registry.get? node.kind with
  | none => rfl
  | some behavior =>
      rw [hget, Option.any_some] at hexternal
      have hconfined : behavior.Confined :=
        hregistry.forall Behavior.ofKind_confined (fun _ h => h) hget
      dsimp only
      rw [hconfined hid hkind hcontent hexternal]

/-- What comes from outside is the same, or no node of the cone reads it. -/
def OutsideAgrees (registry : Registry) (graph : Graph) (id : String) (external external' : Option Shape) :
    Prop :=
  external = external' ∨ ∀ source, ReflTransGen graph.Feeds source id →
    ∀ node, graph.node? source = some node →
      (registry.get? node.kind).any Behavior.readsExternal = false

/-- **In graphs with one cone of a node, the node gets the same.** -/
theorem node?_of_cone (hregistry : registry.Composed Behavior.Confined) {id : String}
    (h : first.SameCone second id) (hexternal : OutsideAgrees registry first id external external') :
    (propagate ⟨registry, external⟩ first changed none).node? id
      = (propagate ⟨registry, external'⟩ second changed' none).node? id := by
  let result := propagate ⟨registry, external⟩ first changed none
  let result' := propagate ⟨registry, external'⟩ second changed' none
  have hfirst : Solves ⟨registry, external⟩ first changed none result := propagate_solves ..
  have hsecond : Solves ⟨registry, external'⟩ second changed' none result' := propagate_solves ..
  have hcone : ∀ source ∈ first.nodeIds, ReflTransGen first.Feeds source id →
      result.node? source = result'.node? source := by
    refine Graph.flow_induction ?_ ?_
    · intro source hc hpath
      rw [(hfirst.cyclic hc).1, (hsecond.cyclic ((h.onCycle_iff hpath).mp hc)).1]
    · intro source hsource hc hsources hpath
      obtain ⟨node, hnode⟩ := Graph.exists_node? hsource
      have hcontribution := h.contributions source hpath
      unfold Graph.contribution? at hcontribution
      rw [hnode] at hcontribution
      obtain ⟨other, hother, heq⟩ := Option.map_eq_some_iff.mp hcontribution.symm
      obtain ⟨hkind, hcontent⟩ := Prod.mk.inj heq
      have hinput : result.inputAt first source = result'.inputAt second source := by
        rw [← inputAt_of_sources (h.sources source hpath)]
        exact inputAt_congr fun upper hfeeds => congrArg _ (hsources upper hfeeds (.head hfeeds hpath))
      have hid : node.id = other.id := (Graph.node?_id hnode).trans (Graph.node?_id hother).symm
      rw [(hfirst.acyclic hnode hc).1,
        (hsecond.acyclic hother fun hc' => hc ((h.onCycle_iff hpath).mpr hc')).1, hinput, shapesFor_none,
        shapesFor_none]
      refine congrArg some (compute_eq hregistry hid hkind.symm hcontent.symm fun hreads => ?_)
      refine hexternal.resolve_right fun hnone => ?_
      rw [hnone source hpath node hnode] at hreads
      cases hreads
  by_cases hid : id ∈ first.nodeIds
  · exact hcone id hid .refl
  · -- the node is in neither graph
    have hid' : id ∉ second.nodeIds := by
      have hcontribution := congrArg Option.isSome (h.contributions id .refl)
      unfold Graph.contribution? at hcontribution
      rw [Option.isSome_map, Option.isSome_map] at hcontribution
      rwa [← Graph.node?_isSome, ← hcontribution, Graph.node?_isSome]
    rw [(hfirst.outside hid).1, (hsecond.outside hid').1]

/--
**The shapes of a node depend on its cone alone.**

In two graphs with the same cone of a node, the node gets the same shapes and the same issues from
propagations without an earlier result, provided that what comes from outside is the same or nothing in the
cone reads it. So it makes no difference in what order nodes stand, or edges with different targets, and no
difference what the nodes are that nothing leads from to this one. The registry knows the known kinds,
further names for them, and behaviors from outside that are confined.
-/
theorem propagate_eq_of_cone {registry : Registry} (hregistry : registry.Composed Behavior.Confined) :
    (∀ (first second : Graph) (id : String) (external external' : Option Shape)
        (changed changed' : List String), first.SameCone second id →
      OutsideAgrees registry first id external external' →
      (propagate ⟨registry, external⟩ first changed none).node? id
        = (propagate ⟨registry, external'⟩ second changed' none).node? id)
      ∧ (∀ (first second : Graph) (external : Option Shape) (changed changed' : List String),
        first.Rearranged second → ∀ id,
        (propagate ⟨registry, external⟩ first changed none).node? id
          = (propagate ⟨registry, external⟩ second changed' none).node? id)
      ∧ ∀ (graph : Graph) (edit : Node → Node) (id : String) (external : Option Shape)
          (changed changed' : List String), (∀ node, (edit node).id = node.id) →
        (∀ source, ReflTransGen graph.Feeds source id → ∀ node, graph.node? source = some node →
          (edit node).kind = node.kind ∧ (edit node).content = node.content) →
        (propagate ⟨registry, external⟩ graph changed none).node? id
          = (propagate ⟨registry, external⟩ (graph.edited edit) changed' none).node? id := by
  refine ⟨?_, ?_, ?_⟩
  · intro first second id external external' changed changed' hcone hexternal
    exact node?_of_cone hregistry hcone hexternal
  · intro first second external changed changed' h id
    exact node?_of_cone hregistry (h.sameCone id) (Or.inl rfl)
  · intro graph edit id external changed changed' hids hcone
    exact node?_of_cone hregistry (Graph.sameCone_edited hids hcone) (Or.inl rfl)

/-- Beside two nodes stands one that reads what comes from outside. The nodes are turned around, the one
beside is edited, and something else comes from outside. -/
theorem propagate_eq_of_cone_beside_input :
    let rows : Json := .object [("expressions",
      .array [.object [("id", .text "1"), ("key", .text "k"), ("value", .text "1")]])]
    let nodes : List Node :=
      [⟨"set", "expressionNode", "Set", rows, .origin⟩, ⟨"out", "outputNode", "Out", .null, .origin⟩,
        ⟨"in", "inputNode", "In", .null, .origin⟩]
    let edges : List Edge := [⟨"1", "set", "out", none, none⟩]
    let graph : Graph := ⟨nodes, edges⟩
    let turned : Graph := ⟨nodes.reverse, edges⟩
    let edit (node : Node) : Node :=
      { node with kind := if node.id = "in" then "switchNode" else node.kind }
    let result := propagate ⟨.builtin, none⟩ graph [] none
    graph.SameCone (turned.edited edit) "out" ∧ OutsideAgrees .builtin graph "out" none (some .any)
      ∧ result.node? "out"
        = (propagate ⟨.builtin, some .any⟩ (turned.edited edit) ["in"] none).node? "out"
      ∧ result.node? "in" = (propagate ⟨.builtin, none⟩ turned ["in"] none).node? "in"
      ∧ result.node? "out" = (propagate ⟨.builtin, none⟩ (graph.edited edit) ["in"] none).node? "out" := by
  intro rows nodes edges graph turned edit result
  have hclosed : ∀ target ∈ ["set", "out"], ∀ source ∈ graph.sources target, source ∈ ["set", "out"] := by
    decide
  have hcone : ∀ source, ReflTransGen graph.Feeds source "out" → source ∈ ["set", "out"] :=
    fun _ => Graph.mem_of_reaches hclosed (by decide)
  have hsame : graph.SameCone (turned.edited edit) "out" :=
    .of_closed (by decide) hclosed (List.forall_mem_cons.mpr ⟨rfl, List.forall_mem_singleton.mpr rfl⟩)
      (List.forall_mem_cons.mpr ⟨rfl, List.forall_mem_singleton.mpr rfl⟩)
  have hturned : graph.Rearranged turned :=
    .of_perm (List.reverse_perm nodes).symm (by decide) fun _ => rfl
  have houtside : OutsideAgrees .builtin graph "out" none (some .any) := by
    refine Or.inr fun source hpath node hnode => ?_
    rcases List.mem_pair.mp (hcone source hpath) with rfl | rfl
    · obtain rfl := Option.some.inj hnode
      rfl
    · obtain rfl := Option.some.inj hnode
      rfl
  have hedit : ∀ source, ReflTransGen graph.Feeds source "out" → ∀ node, graph.node? source = some node →
      (edit node).kind = node.kind ∧ (edit node).content = node.content := by
    intro source hpath node hnode
    refine ⟨if_neg fun heq => ?_, rfl⟩
    have hin := hcone source hpath
    rw [← Graph.node?_id hnode, heq] at hin
    exact absurd hin (by decide)
  have hregistry : Registry.builtin.Composed Behavior.Confined := .builtin
  obtain ⟨hbyCone, hbyOrder, hbyEdit⟩ := propagate_eq_of_cone hregistry
  exact ⟨hsame, houtside, hbyCone _ _ _ _ _ _ _ hsame houtside, hbyOrder _ _ _ _ _ hturned "in",
    hbyEdit graph edit "out" _ _ _ (fun _ => rfl) hedit⟩

end Environment

end DecisionGraph
