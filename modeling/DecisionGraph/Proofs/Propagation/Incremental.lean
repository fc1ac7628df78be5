import DecisionGraph.Proofs.Propagation.Memo
import DecisionGraph.Proofs.Propagation.Unannotated

/-!
# Propagating again after a change

A propagation that starts from the result of a graph, of which some nodes have changed since, works out no
more than it has to and no less than it is told (`Environment.propagate_again`):

1. A node is **worked out anew** if it is on a cycle or keeps nothing (`mem_recomputed`). A node that is
   said to be changed keeps nothing.
2. A node is **dirty** if a changed node leads to it (`mem_dirty`), so a node that is not has no dirty
   source (`dirty_of_feeds`).
3. Along the flow of data **a node that is not dirty** has the entry of the earlier result: its sources
   have theirs, so it is fed what it was fed before, its basis is the same, and it keeps its shapes
   (`kept?_again`). Nodes on a cycle keep nothing, but nothing is known about them in both results.
-/

namespace DecisionGraph

open Relation

/-! ## Which nodes are worked out anew -/

theorem Progress.mem_addCycles_recomputed (progress : Progress) (cycles : List (List String))
    {id : String} :
    id ∈ (cycles.foldl addCycle progress).recomputed
      ↔ id ∈ cycles.flatten ∨ id ∈ progress.recomputed := by
  induction cycles generalizing progress with
  | nil => simp
  | cons cycle rest ih =>
      rw [List.foldl_cons, ih, List.flatten_cons, List.mem_append, or_comm (a := id ∈ cycle), or_assoc]
      exact or_congr_right List.mem_append

namespace Environment

/-- A node that has been visited, and that kept nothing for its basis. -/
def Renews (environment : Environment) (changed : List String) (previous : Option Propagation)
    (visited : Option Node) (recorded : Option NodeBasis) : Prop :=
  ∃ node basis, visited = some node ∧ recorded = some basis
    ∧ environment.kept? changed previous node basis = none

section Runs

variable {environment : Environment} {topology : Topology} {changed : List String}
  {previous : Option Propagation}

/-- A visit works out the visited node, unless the node keeps its shapes. -/
theorem mem_addNode_recomputed (progress : Progress) {id other : String} :
    other ∈ (environment.addNode topology changed previous progress id).recomputed
      ↔ other ∈ progress.recomputed ∨ other = id ∧ environment.Renews changed previous
        (topology.node? id)
        (Keyed.get? id (environment.addNode topology changed previous progress id).bases) := by
  cases hnode : topology.node? id with
  | none =>
      unfold addNode
      rw [hnode]
      refine (or_iff_left ?_).symm
      intro ⟨_, node, _, hsome, _⟩
      cases hsome
  | some node =>
      let basis := environment.basisOf node (progress.inputOf topology id)
      have hbasis : Keyed.get? id (environment.addNode topology changed previous progress id).bases
          = some basis := by
        rw [(addNode_spec environment topology changed previous progress hnode).2]
        exact Keyed.get?_insert_self ..
      have hrenews : environment.Renews changed previous (some node) (some basis)
          ↔ environment.kept? changed previous node basis = none := by
        simp [Renews]
      rw [hbasis, hrenews]
      unfold addNode
      rw [hnode]
      dsimp only
      split
      · rename_i hkept
        rw [hkept]
        exact (or_iff_left fun h => Option.some_ne_none _ h.2).symm
      · rename_i hkept
        rw [hkept, List.mem_cons, or_comm]
        exact or_congr_right (and_iff_left rfl).symm

/-- **A run works out the visited nodes that keep nothing.** -/
theorem mem_run_recomputed {settled batch : List String} (h : topology.Runs settled batch)
    (progress : Progress) {id : String} :
    id ∈ (batch.foldl (environment.addNode topology changed previous) progress).recomputed
      ↔ id ∈ progress.recomputed ∨ id ∈ batch ∧ environment.Renews changed previous
        (topology.node? id)
        (Keyed.get? id (batch.foldl (environment.addNode topology changed previous) progress).bases) := by
  induction batch generalizing settled progress with
  | nil => simp
  | cons first rest ih =>
      obtain ⟨_, _, _, hrest⟩ := h
      rw [List.foldl_cons, ih hrest, mem_addNode_recomputed, or_assoc]
      refine or_congr_right ?_
      by_cases hid : id = first
      · -- no later visit is to this node
        subst hid
        have hnot : id ∉ rest := hrest.not_mem (List.mem_cons_self ..)
        rw [(run_of_not_mem environment topology changed previous _ hnot).2]
        simp [hnot]
      · simp [hid]

end Runs

variable {environment : Environment} {graph : Graph} {changed : List String}
  {previous : Option Propagation}

/-- **A node is worked out anew if it is on a cycle, or keeps nothing for its basis.** -/
theorem mem_recomputed {id : String} :
    id ∈ (environment.propagate graph changed previous).recomputed
      ↔ graph.OnCycle id ∨ environment.Renews changed previous (graph.node? id)
        (Keyed.get? id (environment.propagate graph changed previous).bases) := by
  let result := environment.propagate graph changed previous
  let topology := Topology.ofGraph graph
  have hs := Topology.schedule_sound (Topology.ofGraph_wellFormed graph)
  let before := topology.schedule.before.foldl (environment.addNode topology changed previous)
    Progress.start
  let resumed := topology.schedule.cycles.foldl Progress.addCycle before
  have hcycles : id ∈ topology.schedule.cycles.flatten ↔ graph.OnCycle id :=
    Topology.mem_scheduled_cycles
  -- what the first phase visits is not visited again
  have hbefore : id ∈ topology.schedule.before →
      Keyed.get? id before.bases = Keyed.get? id result.bases := by
    intro hid
    have hafter : id ∉ topology.schedule.after := hs.after.not_mem (List.mem_append_right _ hid)
    rw [← (before.addCycles_spec topology.schedule.cycles id).2]
    exact (run_of_not_mem environment topology changed previous resumed hafter).2.symm
  have hfinal : id ∈ result.recomputed ↔ (graph.OnCycle id ∨ id ∈ topology.schedule.before ∧
      environment.Renews changed previous (graph.node? id) (Keyed.get? id before.bases))
        ∨ id ∈ topology.schedule.after ∧ environment.Renews changed previous (graph.node? id)
          (Keyed.get? id result.bases) := by
    rw [← Topology.ofGraph_node?, ← hcycles]
    refine mem_sortedDistinct.trans ((mem_run_recomputed hs.after resumed).trans (or_congr_left ?_))
    refine (before.mem_addCycles_recomputed _).trans (or_congr_right ?_)
    exact (mem_run_recomputed hs.before Progress.start).trans (or_iff_right List.not_mem_nil)
  rw [hfinal]
  constructor
  · intro h
    rcases h with (hc | ⟨hid, h⟩) | ⟨_, h⟩
    · exact Or.inl hc
    · exact Or.inr (hbefore hid ▸ h)
    · exact Or.inr h
  · intro h
    rcases h with hc | h
    · exact Or.inl (Or.inl hc)
    · have hknown : id ∈ topology.ids := by
        obtain ⟨node, _, hnode, _⟩ := h
        exact Topology.mem_ofGraph_ids.mpr (Graph.mem_of_node? hnode)
      rcases hs.complete id hknown with hid | hid | hid
      · exact Or.inl (Or.inr ⟨hid, (hbefore hid).symm ▸ h⟩)
      · exact Or.inl (Or.inl (hcycles.mp hid))
      · exact Or.inr ⟨hid, h⟩

/-- A changed node of the graph keeps nothing. -/
theorem recomputed_of_mem_changed {id : String} (h : id ∈ changed) (hid : id ∈ graph.nodeIds) :
    id ∈ (environment.propagate graph changed previous).recomputed := by
  refine mem_recomputed.mpr (or_iff_not_imp_left.mpr fun hc => ?_)
  obtain ⟨node, hnode⟩ := Graph.exists_node? hid
  have hsolves := environment.propagate_solves graph changed previous
  refine ⟨node, _, hnode, (hsolves.acyclic hnode hc).2, ?_⟩
  obtain rfl := Graph.node?_id hnode
  rw [Option.eq_none_iff_forall_ne_some]
  intro shapes hkept
  obtain ⟨_, _, _, hnot, _⟩ := kept?_eq_some.mp hkept
  exact hnot h

/-! ## Which nodes are dirty -/

/-- **A node is dirty if a changed node of the graph leads to it.** -/
theorem mem_dirty {id : String} :
    id ∈ (environment.propagate graph changed previous).dirty
      ↔ ∃ seed ∈ changed, seed ∈ graph.nodeIds ∧ ReflTransGen graph.Feeds seed id := by
  refine mem_sortedDistinct.trans ((Topology.mem_downstream (Topology.ofGraph_wellFormed graph)).trans ?_)
  simp only [Topology.mem_ofGraph_ids, Topology.ofGraph_linked]

theorem dirty_of_mem_changed {id : String} (h : id ∈ changed) (hid : id ∈ graph.nodeIds) :
    id ∈ (environment.propagate graph changed previous).dirty :=
  mem_dirty.mpr ⟨id, h, hid, .refl⟩

/-- What a dirty node feeds is dirty. -/
theorem dirty_of_feeds {source id : String} (hfeeds : graph.Feeds source id)
    (h : source ∈ (environment.propagate graph changed previous).dirty) :
    id ∈ (environment.propagate graph changed previous).dirty := by
  obtain ⟨seed, hseed, hknown, hpath⟩ := mem_dirty.mp h
  exact mem_dirty.mpr ⟨seed, hseed, hknown, hpath.tail hfeeds⟩

end Environment

/-! ## Starting from the result of an earlier graph -/

/-- Data flow through the second graph as through the first, and only changed nodes have another kind or
other content. -/
structure Graph.Revision (changed : List String) (previous current : Graph) : Prop where
  flow : previous.SameFlow current
  kept : ∀ id ∉ changed, ∀ node other, previous.node? id = some node → current.node? id = some other →
    node.kind = other.kind ∧ node.content.same other.content = true

namespace Graph.Revision

/-- Graphs with the same ids and ends at the same places, of which only the changed nodes differ. -/
theorem of_forall₂ {changed : List String} {previous current : Graph}
    (hnodes : List.Forall₂ (fun node other => node.id = other.id ∧
      (node.id ∉ changed → node.kind = other.kind ∧ node.content.same other.content = true))
        previous.nodes current.nodes)
    (hedges : previous.edges.map (fun edge => (edge.source, edge.target))
      = current.edges.map fun edge => (edge.source, edge.target)) :
    Revision changed previous current where
  flow := ⟨map_eq_of_forall₂ (hnodes.imp fun _ _ hboth => hboth.1), hedges⟩
  kept := by
    intro id hid node other hnode hother
    refine (find?_of_forall₂ hnodes hnode hother).2 ?_
    rw [node?_id hnode]
    exact hid

theorem refl (changed : List String) (graph : Graph) : Revision changed graph graph where
  flow := ⟨rfl, rfl⟩
  kept := by
    intro id _ node other hnode hother
    obtain rfl := Option.some.inj (hnode.symm.trans hother)
    exact ⟨rfl, Json.same_refl _⟩

end Graph.Revision

namespace Environment

section Again

variable {registry : Registry} {external : Option Shape} {previous current : Graph}
  {before changed : List String} {earlier : Option Propagation} {result again : Propagation}

/-- A result is not stale if its basis is the same. -/
theorem isStale_of_same (hregistry : registry.Composed Behavior.Steady) (kind : String)
    {old new : NodeBasis} (h : old.same new = true) : isStale ⟨registry, external⟩ kind old new = false := by
  unfold isStale
  dsimp only
  cases hget : registry.get? kind with
  | none =>
      dsimp only
      rw [h]
      rfl
  | some behavior =>
      exact hregistry.forall (fun kind => (Behavior.ofKind_determined kind).steady)
        (fun _ hsteady => hsteady) hget old new h

/-- **A node keeps its shapes if it and the entries of its sources are unchanged.** -/
theorem kept?_again (hregistry : registry.Composed Behavior.Steady)
    (hrevision : Graph.Revision changed previous current)
    (hresult : Solves ⟨registry, external⟩ previous before earlier result) {id : String} {node : Node}
    (hnode : current.node? id = some node) (hc : ¬current.OnCycle id) (hid : id ∉ changed)
    (hsources : ∀ source, current.Feeds source id → again.node? source = result.node? source) :
    ∃ shapes, result.node? id = some shapes
      ∧ kept? ⟨registry, external⟩ changed (some result) node
        (basisOf ⟨registry, external⟩ node (again.inputAt current id)) = some shapes := by
  have hid' : id ∈ previous.nodeIds := by
    rw [hrevision.flow.nodeIds]
    exact Graph.mem_of_node? hnode
  obtain ⟨old, hold⟩ := Graph.exists_node? hid'
  obtain ⟨hkind, hcontent⟩ := hrevision.kept id hid old node hold hnode
  have hinput : again.inputAt current id = result.inputAt previous id := by
    rw [inputAt_of_sources (hrevision.flow.sources id)]
    exact inputAt_congr fun source hfeeds => congrArg _ (hsources source hfeeds)
  obtain ⟨hentry, hbasis⟩ := hresult.acyclic hold fun hcycle => hc ((hrevision.flow.onCycle id).mp hcycle)
  refine ⟨_, hentry, ?_⟩
  obtain rfl := Graph.node?_id hnode
  refine kept?_eq_some.mpr ⟨result, _, rfl, hid, hbasis, isStale_of_same hregistry _ ?_, hentry⟩
  refine NodeBasis.same_iff.mpr ⟨hkind, hinput.symm, hcontent, ?_⟩
  unfold basisOf
  dsimp only
  rw [hkind]

/-- **What is not dirty has the entry of the earlier result.** -/
theorem node?_again (hregistry : registry.Composed Behavior.Steady)
    (hrevision : Graph.Revision changed previous current)
    (hresult : Solves ⟨registry, external⟩ previous before earlier result) {id : String} :
    let again := propagate ⟨registry, external⟩ current changed (some result)
    id ∉ again.dirty → again.node? id = result.node? id := by
  intro again
  have hagain := propagate_solves ⟨registry, external⟩ current changed (some result)
  have hnodes : ∀ id ∈ current.nodeIds, id ∉ again.dirty → again.node? id = result.node? id := by
    refine Graph.flow_induction ?_ ?_
    · intro id hc _
      rw [(hagain.cyclic hc).1, (hresult.cyclic ((hrevision.flow.onCycle id).mpr hc)).1]
    · intro id hid hc hsources hdirty
      obtain ⟨node, hnode⟩ := Graph.exists_node? hid
      obtain ⟨shapes, hentry, hkept⟩ := kept?_again hregistry hrevision hresult hnode hc
        (fun hchanged => hdirty (dirty_of_mem_changed hchanged hid))
        (fun source hfeeds => hsources source hfeeds fun h => hdirty (dirty_of_feeds hfeeds h))
      rw [(hagain.acyclic hnode hc).1, hentry]
      unfold shapesFor
      rw [hkept]
      rfl
  by_cases hid : id ∈ current.nodeIds
  · exact hnodes id hid
  · intro _
    have hid' : id ∉ previous.nodeIds := by
      rw [hrevision.flow.nodeIds]
      exact hid
    rw [(hagain.outside hid).1, (hresult.outside hid').1]

/-- **What is worked out anew is dirty or on a cycle.** -/
theorem recomputed_again (hregistry : registry.Composed Behavior.Steady)
    (hrevision : Graph.Revision changed previous current)
    (hresult : Solves ⟨registry, external⟩ previous before earlier result) {id : String} :
    let again := propagate ⟨registry, external⟩ current changed (some result)
    id ∈ again.recomputed → id ∈ again.dirty ∨ current.OnCycle id := by
  intro again hrecomputed
  rcases mem_recomputed.mp hrecomputed with hc | ⟨node, basis, hnode, hbasis, hnone⟩
  · exact Or.inr hc
  · refine or_iff_not_imp_right.mpr fun hc => ?_
    by_contra hdirty
    have hagain := propagate_solves ⟨registry, external⟩ current changed (some result)
    obtain rfl := Option.some.inj (hbasis.symm.trans (hagain.acyclic hnode hc).2)
    have hid : id ∈ current.nodeIds := Graph.mem_of_node? hnode
    obtain ⟨shapes, _, hkept⟩ := kept?_again hregistry hrevision hresult hnode hc
      (fun hchanged => hdirty (dirty_of_mem_changed hchanged hid))
      (fun source hfeeds => node?_again hregistry hrevision hresult
        fun h => hdirty (dirty_of_feeds hfeeds h))
    rw [hkept] at hnone
    cases hnone

end Again

/--
**A propagation that starts from an earlier result does what it is told, and nothing that it need not.**

The earlier result can itself have started from any other one. Of its graph, some of the nodes that are said
to be changed have another kind or other content by now. Dirty is what a changed node leads to. All changed
nodes are worked out anew, all that is worked out anew is dirty or on a cycle, and what is not dirty has the
entry that it had. If nothing has changed, no more than the nodes on cycles is worked out, and the result is
the earlier one. The registry knows the known kinds, further names for them, and behaviors from outside that
are steady.
-/
theorem propagate_again {registry : Registry} (hregistry : registry.Composed Behavior.Steady)
    {previous current : Graph} {changed : List String}
    (hrevision : Graph.Revision changed previous current) (external : Option Shape)
    (before : List String) (earlier : Option Propagation) :
    let environment : Environment := ⟨registry, external⟩
    let result := environment.propagate previous before earlier
    let again := environment.propagate current changed (some result)
    (∀ id, id ∈ again.dirty
        ↔ ∃ seed ∈ changed, seed ∈ current.nodeIds ∧ ReflTransGen current.Feeds seed id)
      ∧ (∀ id ∈ changed, id ∈ current.nodeIds → id ∈ again.recomputed)
      ∧ (∀ id ∈ again.recomputed, id ∈ again.dirty ∨ current.OnCycle id)
      ∧ (∀ id, id ∉ again.dirty → again.node? id = result.node? id)
      ∧ (changed = [] → previous = current →
        (∀ id, id ∈ again.recomputed ↔ current.OnCycle id)
          ∧ again.nodes = result.nodes ∧ again.issues = result.issues) := by
  intro environment result again
  have hresult := environment.propagate_solves previous before earlier
  have hrecomputed : ∀ id ∈ again.recomputed, id ∈ again.dirty ∨ current.OnCycle id :=
    fun _ => recomputed_again hregistry hrevision hresult
  have hkept : ∀ id, id ∉ again.dirty → again.node? id = result.node? id :=
    fun _ => node?_again hregistry hrevision hresult
  refine ⟨fun _ => mem_dirty, fun _ => recomputed_of_mem_changed, hrecomputed, hkept, ?_⟩
  intro hchanged hsame
  subst hchanged hsame
  have hclean : ∀ id, id ∉ again.dirty := by
    intro id hdirty
    obtain ⟨_, hseed, _⟩ := mem_dirty.mp hdirty
    cases hseed
  have hnodes : again.nodes = result.nodes :=
    (environment.propagate_ordered ..).ext (environment.propagate_ordered ..) fun id => hkept id (hclean id)
  have hissues : again.issues = result.issues := by
    -- the cycles are those of one graph, and each node reports what it reported
    have hreport : again.issues = Issue.report
        ((Topology.ofGraph previous).schedule.cycles.map Issue.cyclicDependency
          ++ (Keyed.values again.nodes).flatMap NodeShapes.issues) := rfl
    rw [hreport, hnodes]
    rfl
  refine ⟨fun id => ⟨fun h => (hrecomputed id h).resolve_left (hclean id), ?_⟩, hnodes, hissues⟩
  exact fun hc => mem_recomputed.mpr (Or.inl hc)

/-- An expression gets another value of the same shape, so what is below it is dirty and kept; beside it is a
node that feeds itself. -/
theorem propagate_again_same_shape :
    let rows (value : String) : Json := .object [("expressions",
      .array [.object [("id", .text "1"), ("key", .text "k"), ("value", .text value)]])]
    let graph (value : String) : Graph :=
      ⟨[⟨"in", "inputNode", "In", .null, .origin⟩, ⟨"set", "expressionNode", "Set", rows value, .origin⟩,
          ⟨"out", "outputNode", "Out", .null, .origin⟩, ⟨"loop", "switchNode", "Loop", .null, .origin⟩],
        [⟨"1", "in", "set", none, none⟩, ⟨"2", "set", "out", none, none⟩,
          ⟨"3", "loop", "loop", none, none⟩]⟩
    let environment : Environment := ⟨.builtin, some .any⟩
    let result := environment.propagate (graph "1") [] none
    let again := environment.propagate (graph "2") ["set"] (some result)
    let unchanged := environment.propagate (graph "1") [] (some result)
    Graph.Revision ["set"] (graph "1") (graph "2")
      ∧ again.dirty = ["out", "set"] ∧ again.recomputed = ["loop", "set"]
      ∧ "set" ∈ again.recomputed ∧ again.node? "in" = result.node? "in"
      ∧ unchanged.nodes = result.nodes ∧ unchanged.issues = result.issues := by
  intro rows graph environment result again unchanged
  have hrevision : Graph.Revision ["set"] (graph "1") (graph "2") := by
    refine .of_forall₂ ?_ rfl
    refine .cons ⟨rfl, fun _ => ⟨rfl, rfl⟩⟩ (.cons ⟨rfl, fun h => absurd (List.mem_singleton.mpr rfl) h⟩ ?_)
    exact .cons ⟨rfl, fun _ => ⟨rfl, rfl⟩⟩ (.cons ⟨rfl, fun _ => ⟨rfl, rfl⟩⟩ .nil)
  obtain ⟨_, hchanged, _, hkept, _⟩ := propagate_again .builtin hrevision (some .any) [] none
  obtain ⟨_, _, _, _, hsame⟩ := propagate_again .builtin (.refl [] (graph "1")) (some .any) [] none
  have hdirty : again.dirty = ["out", "set"] := by decide +kernel
  refine ⟨hrevision, hdirty, by decide +kernel, hchanged "set" (by decide) (by decide), ?_,
    (hsame rfl rfl).2⟩
  refine hkept "in" ?_
  have hclean : "in" ∉ ["out", "set"] := by decide
  exact hdirty ▸ hclean

end Environment

end DecisionGraph
