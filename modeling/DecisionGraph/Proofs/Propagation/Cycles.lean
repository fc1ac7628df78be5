import DecisionGraph.Proofs.Behavior.Issues
import DecisionGraph.Proofs.Propagation.Reached
import DecisionGraph.Proofs.Registry

/-!
# The reports of cycles

A propagation reports the strongly connected components of the kept edges that hold a cycle, each
once (`propagate_cycles`). Two things could spoil this. A list of ids could be reported that is no
component, or a component twice: `mem_cycles_iff` excludes that for the schedule. And a node could
report a cycle on its own account, in this propagation or in the earlier one that it keeps its
shapes from: no kind does (`Behavior.Quiet`), so no result of a chain of propagations holds such an
issue (`Propagation.Quiet`).
-/

namespace DecisionGraph

open Relation

/-! ## The components of a graph -/

/-- A strongly connected component of the kept edges that holds a cycle. -/
structure Graph.IsCycle (graph : Graph) (ids : List String) : Prop where
  /-- The ids stand in the order of the nodes, each once. -/
  inOrder : ids.Sublist graph.nodeIds.eraseDups
  /-- With a node, the component has exactly the nodes that reach it and are reached from it. -/
  component : ∀ id ∈ ids, ∀ other,
    other ∈ ids ↔ ReflTransGen graph.Feeds id other ∧ ReflTransGen graph.Feeds other id
  /-- There is more than one node, or one that feeds itself. -/
  cyclic : 1 < ids.length ∨ ∃ id ∈ ids, graph.Feeds id id

/-- A part of a list without repetitions is told by its members. -/
theorem filter_mem_of_part {texts part : List String} (h : part.Sublist texts)
    (hnodup : texts.Nodup) : texts.filter (· ∈ part) = part := by
  have hsub : part.Sublist (texts.filter (· ∈ part)) := by
    have hfilter := h.filter (· ∈ part)
    rwa [List.filter_eq_self.mpr fun text htext => decide_eq_true htext] at hfilter
  have hback : texts.filter (· ∈ part) ⊆ part :=
    fun text htext => of_decide_eq_true (List.mem_filter.mp htext).2
  exact (hsub.eq_of_length_le (List.subperm_of_subset (hnodup.filter _) hback).length_le).symm

namespace Graph.IsCycle

variable {graph : Graph} {ids : List String}

/-- Every node of such a component lies on a cycle. -/
theorem onCycle (h : graph.IsCycle ids) {id : String} (hid : id ∈ ids) : graph.OnCycle id := by
  have hother : ∀ other ∈ ids, other ≠ id → graph.OnCycle id := by
    intro other hmem hne
    obtain ⟨hto, hfrom⟩ := (h.component id hid other).mp hmem
    rcases reflTransGen_iff_eq_or_transGen.mp hto with heq | hpath
    · exact absurd heq hne
    · exact hpath.trans_left hfrom
  rcases h.cyclic with hlength | ⟨other, hmem, hfeeds⟩
  · have hnodup : ids.Nodup := (nodup_eraseDups _).sublist h.inOrder
    have hone : ids ≠ [id] := fun heq => by simp [heq] at hlength
    have hnil : ids ≠ [] := fun heq => by simp [heq] at hlength
    obtain ⟨second, hmem, hne⟩ := ((hnodup.ne_singleton_iff id).mp hone).resolve_left hnil
    exact hother second hmem hne
  · by_cases heq : other = id
    · subst heq
      exact .single hfeeds
    · exact hother other hmem heq

/-- The component of a node on a cycle is one. -/
theorem of_component {id : String} (hc : graph.OnCycle id) :
    graph.IsCycle ((Topology.ofGraph graph).component id) := by
  have hw := Topology.ofGraph_wellFormed graph
  have hlinked := Topology.ofGraph_linked graph
  have hon : TransGen (Topology.ofGraph graph).Linked id id := by rw [hlinked]; exact hc
  have hid := Topology.mem_ids_of_onCycle hw hon
  have hmem : ∀ other, other ∈ (Topology.ofGraph graph).component id
      ↔ other ∈ (Topology.ofGraph graph).ids ∧ (Topology.ofGraph graph).Together id other :=
    fun other => Topology.mem_component hw hid
  refine ⟨?_, ?_, ?_⟩
  · rw [← Topology.ofGraph_ids]
    exact Topology.component_sublist _ id
  · intro first hfirst other
    obtain ⟨hknown, htogether⟩ := (hmem first).mp hfirst
    rw [htogether.component_eq hw hid hknown, Topology.mem_component hw hknown, ← hlinked]
    refine and_iff_right_of_imp fun h => ?_
    exact Topology.mem_ids_of_onCycle hw
      ((htogether.trans h).onCycle hon)
  · obtain ⟨source, hlink, htogether⟩ := Topology.exists_linked_together hon
    have hself := (hmem id).mpr ⟨hid, .refl id⟩
    have hsource := (hmem source).mpr ⟨hw.source_mem hlink, htogether⟩
    by_cases heq : source = id
    · refine Or.inr ⟨id, hself, ?_⟩
      rw [← hlinked]
      exact heq ▸ hlink
    · have hsub : [source, id].Subperm ((Topology.ofGraph graph).component id) := by
        refine List.subperm_of_subset (by simpa using heq) ?_
        intro other hother
        rcases List.mem_cons.mp hother with rfl | hother
        · exact hsource
        · rw [List.mem_singleton.mp hother]; exact hself
      exact Or.inl hsub.length_le

/-- Such a component is what the topology takes for the component of any of its nodes. -/
theorem eq_component (h : graph.IsCycle ids) {id : String} (hid : id ∈ ids) :
    ids = (Topology.ofGraph graph).component id := by
  have hother := of_component (h.onCycle hid)
  have hself : id ∈ (Topology.ofGraph graph).component id := by
    have hw := Topology.ofGraph_wellFormed graph
    have hknown := Topology.mem_ofGraph_ids.mpr (h.onCycle hid).mem
    exact (Topology.mem_component hw hknown).mpr ⟨hknown, .refl id⟩
  -- both are parts of the list of nodes, so it is enough that they have the same members
  rw [← filter_mem_of_part h.inOrder (nodup_eraseDups _),
    ← filter_mem_of_part hother.inOrder (nodup_eraseDups _)]
  refine List.filter_congr fun other _ => decide_eq_decide.mpr ?_
  rw [h.component id hid other, hother.component id hself other]

/-- A component that holds a cycle is not empty. -/
theorem exists_mem (h : graph.IsCycle ids) : ∃ id, id ∈ ids := by
  rcases h.cyclic with hlength | ⟨id, hid, _⟩
  · exact List.exists_mem_of_length_pos (by omega)
  · exact ⟨id, hid⟩

end Graph.IsCycle

/-- **The cycles of a schedule are the components that hold a cycle.** -/
theorem Topology.mem_cycles_iff {graph : Graph} {ids : List String} :
    ids ∈ (ofGraph graph).schedule.cycles ↔ graph.IsCycle ids := by
  have hw := ofGraph_wellFormed graph
  rw [(schedule_sound hw).cycles.mem_iff, mem_cycles hw, ofGraph_linked]
  constructor
  · intro ⟨id, hc, heq⟩
    exact heq ▸ .of_component hc
  · intro h
    obtain ⟨id, hid⟩ := h.exists_mem
    exact ⟨id, h.onCycle hid, (h.eq_component hid).symm⟩

/-! ## Nodes report no cycles -/

/-- A kind whose nodes report no cycles. -/
def Behavior.Quiet (behavior : Behavior) : Prop :=
  ∀ node input external inferred, behavior.infer node input external = .ok inferred →
    ∀ issue ∈ inferred.issues, issue.isCycle = false

theorem Behavior.ofKind_quiet (kind : Kind) : (ofKind kind).Quiet := by
  intro node input external inferred h issue hmem
  obtain ⟨source, message, rfl⟩ := ofKind_issues h issue hmem
  rfl

/-- A result whose nodes report no cycles. -/
def Propagation.Quiet (result : Propagation) : Prop :=
  ∀ id shapes, result.node? id = some shapes → ∀ issue ∈ shapes.issues, issue.isCycle = false

namespace Environment

variable {environment : Environment} {graph : Graph} {changed : List String}
  {previous : Option Propagation}

theorem compute_quiet (hregistry : ∀ tag behavior, environment.registry.get? tag = some behavior →
      behavior.Quiet) (node : Node) (input : Shape) :
    ∀ issue ∈ (environment.compute node input).issues, issue.isCycle = false := by
  unfold compute infer
  cases hget : environment.registry.get? node.kind with
  | none =>
      intro issue hmem
      obtain rfl := List.mem_singleton.mp hmem
      rfl
  | some behavior =>
      dsimp only
      cases hinfer : behavior.infer node input environment.external with
      | error error =>
          intro issue hmem
          obtain rfl := List.mem_singleton.mp hmem
          rfl
      | ok inferred => exact hregistry node.kind behavior hget node input _ inferred hinfer

/-- **A propagation keeps the nodes of a result from reporting cycles.** -/
theorem propagate_quiet (hregistry : ∀ tag behavior, environment.registry.get? tag = some behavior →
      behavior.Quiet) (hprevious : ∀ result ∈ previous, result.Quiet) :
    (environment.propagate graph changed previous).Quiet := by
  intro id shapes hentry issue hmem
  rcases propagate_node?_cases hentry with ⟨-, rfl⟩ | ⟨node, -, -, rfl⟩
  · cases hmem
  · unfold shapesFor at hmem
    cases hkept : environment.kept? changed previous node
        (environment.basisOf node
          ((environment.propagate graph changed previous).inputAt graph id)) with
    | none =>
        rw [hkept] at hmem
        exact compute_quiet hregistry node _ issue hmem
    | some kept =>
        rw [hkept] at hmem
        obtain ⟨result, _, hresult, _, _, _, hold⟩ := kept?_eq_some.mp hkept
        exact hprevious result hresult node.id kept hold issue hmem

/-- The issues about cycles are those of the schedule. -/
theorem mem_cycle_issues (hquiet : (environment.propagate graph changed previous).Quiet)
    {ids : List String} :
    .cyclicDependency ids ∈ (environment.propagate graph changed previous).issues
      ↔ ids ∈ (Topology.ofGraph graph).schedule.cycles := by
  rw [mem_issues]
  constructor
  · intro h
    rcases h with ⟨cycle, hmem, heq⟩ | ⟨id, shapes, hentry, hissue⟩
    · exact Issue.cyclicDependency.inj heq ▸ hmem
    · have hcycle := hquiet id shapes hentry _ hissue
      cases hcycle
  · intro h
    exact Or.inl ⟨ids, h, rfl⟩

end Environment

theorem Propagation.mem_onCycles {result : Propagation} {id : String} :
    id ∈ result.onCycles ↔ ∃ ids, .cyclicDependency ids ∈ result.issues ∧ id ∈ ids := by
  unfold onCycles
  rw [mem_sortedDistinct, List.mem_flatMap]
  constructor
  · intro ⟨issue, hissue, hid⟩
    obtain ⟨hmem, hcycle⟩ := List.mem_filter.mp hissue
    cases issue with
    | cyclicDependency ids => exact ⟨ids, hmem, hid⟩
    | malformedContent | unknownKind | invalidExpression => cases hcycle
  · intro ⟨ids, hmem, hid⟩
    exact ⟨_, List.mem_filter.mpr ⟨hmem, rfl⟩, hid⟩

/--
**A propagation reports exactly the components that hold a cycle.**

Every one is reported once, and every node on a cycle is in one of them alone. The registry can be
any that is made of the known kinds and of quiet ones, and so can those of the earlier propagations.
-/
theorem Environment.propagate_cycles {environment : Environment} {previous : Option Propagation}
    (hregistry : environment.registry.Composed Behavior.Quiet)
    (hprevious : Propagation.Reached (Registry.Composed Behavior.Quiet) previous)
    (graph : Graph) (changed : List String) :
    let result := environment.propagate graph changed previous
    (∀ ids, .cyclicDependency ids ∈ result.issues ↔ graph.IsCycle ids)
      ∧ result.issues.Nodup
      ∧ (∀ id, graph.OnCycle id → ∃! ids, .cyclicDependency ids ∈ result.issues ∧ id ∈ ids)
      ∧ ∀ id, id ∈ result.onCycles ↔ graph.OnCycle id := by
  intro result
  have hknown : ∀ registry : Registry, registry.Composed Behavior.Quiet →
      ∀ tag behavior, registry.get? tag = some behavior → behavior.Quiet :=
    fun registry h tag behavior => h.forall Behavior.ofKind_quiet fun _ hquiet => hquiet
  have hquiet : result.Quiet := by
    refine propagate_quiet (hknown _ hregistry) (hprevious.forall ?_)
    intro registry external graph changed previous hallowed hearlier
    exact propagate_quiet (hknown registry hallowed) hearlier
  have hcycles : ∀ ids, .cyclicDependency ids ∈ result.issues ↔ graph.IsCycle ids :=
    fun ids => (mem_cycle_issues hquiet).trans Topology.mem_cycles_iff
  have hexists : ∀ id, graph.OnCycle id →
      ∃! ids, .cyclicDependency ids ∈ result.issues ∧ id ∈ ids := by
    intro id hc
    have hw := Topology.ofGraph_wellFormed graph
    have hid := Topology.mem_ofGraph_ids.mpr hc.mem
    refine ⟨(Topology.ofGraph graph).component id, ⟨?_, ?_⟩, ?_⟩
    · exact (hcycles _).mpr (.of_component hc)
    · exact (Topology.mem_component hw hid).mpr ⟨hid, .refl id⟩
    · intro ids h
      exact ((hcycles ids).mp h.1).eq_component h.2
  refine ⟨hcycles, Issue.nodup_report _, hexists, ?_⟩
  intro id
  rw [Propagation.mem_onCycles]
  constructor
  · intro ⟨ids, hmem, hid⟩
    exact ((hcycles ids).mp hmem).onCycle hid
  · intro hc
    obtain ⟨ids, h, _⟩ := hexists id hc
    exact ⟨ids, h⟩

/-- Two nodes that feed each other are reported, also by a propagation that starts from another. -/
theorem Environment.propagate_cycles_pair :
    let node (id : String) : Node := ⟨id, "functionNode", id, .null, .origin⟩
    let edge (source target : String) : Edge := ⟨source ++ target, source, target, none, none⟩
    let pair : Graph := ⟨[node "a", node "b"], [edge "a" "b", edge "b" "a"]⟩
    let environment : Environment := ⟨.builtin, none⟩
    let earlier := environment.propagate ⟨[node "a"], []⟩ [] none
    pair.IsCycle ["a", "b"]
      ∧ .cyclicDependency ["a", "b"] ∈ (environment.propagate pair ["b"] (some earlier)).issues := by
  intro node edge pair environment earlier
  have hto : pair.Feeds "a" "b" := ⟨edge "a" "b", by decide, rfl, rfl⟩
  have hback : pair.Feeds "b" "a" := ⟨edge "b" "a", by decide, rfl, rfl⟩
  have hcycle : pair.IsCycle ["a", "b"] := by
    have hon : pair.OnCycle "a" := .tail (.single hto) hback
    have h := Graph.IsCycle.of_component hon
    rwa [show (Topology.ofGraph pair).component "a" = ["a", "b"] by decide] at h
  have hregistry : environment.registry.Composed Behavior.Quiet := .builtin
  have h := propagate_cycles hregistry (.propagate none ⟨[node "a"], []⟩ [] hregistry .none) pair ["b"]
  exact ⟨hcycle, (h.1 ["a", "b"]).mpr hcycle⟩

end DecisionGraph
