import DecisionGraph.Proofs.Topology.Links

/-!
# Valid graphs and their topologies

A graph is valid (`Graph.Valid`) if its node ids are distinct and its edges have both ends. Two traversals
look at this. `Graph.validate` looks for a flaw and stops at the first one; `Topology.ofGraph` passes over
what is flawed and takes the rest. They draw the same line: what is found valid is what the topology keeps as a
whole (`Graph.validate_iff_keeps`).

Both remember the ids that they have seen, so the lemmas on the two recursions are about lists of ids and of
nodes with some ids seen before.
-/

namespace DecisionGraph

/-! ## The first repetition -/

theorem firstRepeated?_eq_none_iff {seen texts : List String} :
    firstRepeated? seen texts = none ↔ texts.Nodup ∧ ∀ text ∈ texts, text ∉ seen := by
  induction texts generalizing seen with
  | nil => simp [firstRepeated?]
  | cons text rest ih =>
      rw [firstRepeated?]
      by_cases hseen : text ∈ seen
      · simp [hseen]
      · rw [if_neg hseen, ih, List.nodup_cons, List.forall_mem_cons]
        constructor
        · intro ⟨hnodup, hnew⟩
          exact ⟨⟨fun hrest => hnew text hrest (List.mem_cons_self ..), hnodup⟩, hseen,
            fun other hother h => hnew other hother (List.mem_cons_of_mem _ h)⟩
        · intro ⟨⟨hnot, hnodup⟩, _, hnew⟩
          refine ⟨hnodup, fun other hother h => ?_⟩
          rcases List.mem_cons.mp h with rfl | h
          · exact hnot hother
          · exact hnew other hother h

/-- **The first text that has occurred before.** In front of it nothing is repeated. -/
theorem firstRepeated?_eq_some_iff {seen texts : List String} {found : String} :
    firstRepeated? seen texts = some found ↔ ∃ front behind, texts = front ++ found :: behind
      ∧ (found ∈ front ∨ found ∈ seen) ∧ firstRepeated? seen front = none := by
  induction texts generalizing seen with
  | nil => simp [firstRepeated?]
  | cons text rest ih =>
      rw [firstRepeated?]
      by_cases hseen : text ∈ seen
      · rw [if_pos hseen]
        constructor
        · intro h
          obtain rfl := Option.some.inj h
          exact ⟨[], rest, rfl, Or.inr hseen, rfl⟩
        · intro ⟨front, behind, htexts, _, hfront⟩
          cases front with
          | nil => rw [(List.cons.inj htexts).1]
          | cons first more =>
              obtain ⟨rfl, -⟩ := List.cons.inj htexts
              rw [firstRepeated?, if_pos hseen] at hfront
              cases hfront
      · rw [if_neg hseen, ih]
        constructor
        · intro ⟨front, behind, hrest, hfound, hfront⟩
          refine ⟨text :: front, behind, by rw [hrest, List.cons_append], ?_, ?_⟩
          · simpa [or_comm, or_left_comm, or_assoc] using hfound
          · rw [firstRepeated?, if_neg hseen, hfront]
        · intro ⟨front, behind, htexts, hfound, hfront⟩
          cases front with
          | nil =>
              obtain ⟨rfl, -⟩ := List.cons.inj htexts
              exact absurd (hfound.resolve_left List.not_mem_nil) hseen
          | cons first more =>
              obtain ⟨rfl, hrest⟩ := List.cons.inj htexts
              rw [firstRepeated?, if_neg hseen] at hfront
              refine ⟨more, behind, hrest, ?_, hfront⟩
              simpa [or_comm, or_left_comm, or_assoc] using hfound

/-! ## Valid graphs -/

namespace Graph

/-- Node ids are distinct, and edges have both ends. -/
structure Valid (graph : Graph) : Prop where
  distinct : graph.nodeIds.Nodup
  ends : ∀ edge ∈ graph.edges, edge.source ∈ graph.nodeIds ∧ edge.target ∈ graph.nodeIds

variable {graph : Graph} {ids : List String} {edge : Edge}

theorem missingEnd?_eq_none_iff : missingEnd? ids edge = none ↔ edge.source ∈ ids ∧ edge.target ∈ ids := by
  unfold missingEnd?
  by_cases hsource : edge.source ∈ ids <;> by_cases htarget : edge.target ∈ ids <;> simp [hsource, htarget]

/-- The source is looked at before the target. -/
theorem missingEnd?_eq_some_iff {missing : String} : missingEnd? ids edge = some missing
    ↔ (edge.source ∉ ids ∧ missing = edge.source)
      ∨ (edge.source ∈ ids ∧ edge.target ∉ ids ∧ missing = edge.target) := by
  unfold missingEnd?
  by_cases hsource : edge.source ∈ ids <;> by_cases htarget : edge.target ∈ ids <;>
    simp [hsource, htarget, eq_comm]

theorem flaw?_of_repeated {id : String} (h : firstRepeated? [] graph.nodeIds = some id) :
    graph.flaw? = some (.duplicateNode id) := by
  rw [flaw?, h]

theorem flaw?_of_distinct (h : graph.nodeIds.Nodup) :
    graph.flaw? = graph.edges.findSome? fun edge =>
      (missingEnd? graph.nodeIds edge).map (.danglingEdge edge.id) := by
  have hnone : firstRepeated? [] graph.nodeIds = none :=
    firstRepeated?_eq_none_iff.mpr ⟨h, fun _ _ => List.not_mem_nil⟩
  rw [flaw?, hnone]

theorem nodup_nodeIds_iff : graph.nodeIds.Nodup ↔ firstRepeated? [] graph.nodeIds = none :=
  (firstRepeated?_eq_none_iff.trans (and_iff_left fun _ _ => List.not_mem_nil)).symm

theorem flaw?_eq_none_iff : graph.flaw? = none ↔ graph.Valid := by
  cases h : firstRepeated? [] graph.nodeIds with
  | some id =>
      rw [flaw?_of_repeated h]
      refine iff_of_false nofun fun hvalid => ?_
      rw [nodup_nodeIds_iff.mp hvalid.distinct] at h
      cases h
  | none =>
      have hdistinct := nodup_nodeIds_iff.mpr h
      simp only [flaw?_of_distinct hdistinct, List.findSome?_eq_none_iff, Option.map_eq_none_iff,
        missingEnd?_eq_none_iff]
      exact ⟨fun hends => ⟨hdistinct, hends⟩, Valid.ends⟩

/-- **A repeated id is reported at the first node that repeats one.** -/
theorem flaw?_eq_duplicateNode_iff {id : String} : graph.flaw? = some (.duplicateNode id)
    ↔ ∃ front node behind, graph.nodes = front ++ node :: behind ∧ node.id = id
      ∧ node.id ∈ front.map Node.id ∧ (front.map Node.id).Nodup := by
  have hrepeated : graph.flaw? = some (.duplicateNode id)
      ↔ firstRepeated? [] graph.nodeIds = some id := by
    cases h : firstRepeated? [] graph.nodeIds with
    | some other => rw [flaw?_of_repeated h, Option.some_inj, GraphFlaw.duplicateNode.injEq, Option.some_inj]
    | none =>
        rw [flaw?_of_distinct (nodup_nodeIds_iff.mpr h), List.findSome?_eq_some_iff]
        refine iff_of_false ?_ nofun
        intro ⟨_, edge, _, _, hedge, _⟩
        obtain ⟨_, -, hflaw⟩ := Option.map_eq_some_iff.mp hedge
        cases hflaw
  rw [hrepeated, firstRepeated?_eq_some_iff]
  simp only [List.not_mem_nil, or_false, firstRepeated?_eq_none_iff, not_false_eq_true, implies_true,
    and_true]
  constructor
  · intro ⟨ids, ids', hids, hmem, hnodup⟩
    obtain ⟨front, rest, hnodes, rfl, hrest⟩ := List.map_eq_append_iff.mp hids
    obtain ⟨node, behind, rfl, rfl, -⟩ := List.map_eq_cons_iff.mp hrest
    exact ⟨front, node, behind, hnodes, rfl, hmem, hnodup⟩
  · intro ⟨front, node, behind, hnodes, hid, hmem, hnodup⟩
    refine ⟨front.map Node.id, behind.map Node.id, ?_, hid ▸ hmem, hnodup⟩
    rw [nodeIds, hnodes, List.map_append, List.map_cons, hid]

/-- **If no id is repeated, the first edge with a missing end is reported**, with its source if that is
missing, and else with its target. -/
theorem flaw?_eq_danglingEdge_iff {edge missing : String} : graph.flaw? = some (.danglingEdge edge missing)
    ↔ graph.nodeIds.Nodup ∧ ∃ front dangling behind, graph.edges = front ++ dangling :: behind
      ∧ (∀ other ∈ front, other.source ∈ graph.nodeIds ∧ other.target ∈ graph.nodeIds)
      ∧ dangling.id = edge
      ∧ (dangling.source ∉ graph.nodeIds ∧ missing = dangling.source
        ∨ dangling.source ∈ graph.nodeIds ∧ dangling.target ∉ graph.nodeIds
          ∧ missing = dangling.target) := by
  cases h : firstRepeated? [] graph.nodeIds with
  | some id =>
      rw [flaw?_of_repeated h, nodup_nodeIds_iff, h]
      exact iff_of_false nofun fun hnone => nomatch hnone.1
  | none =>
      have hdistinct := nodup_nodeIds_iff.mpr h
      rw [flaw?_of_distinct hdistinct, and_iff_right hdistinct]
      simp only [List.findSome?_eq_some_iff, Option.map_eq_some_iff, Option.map_eq_none_iff,
        missingEnd?_eq_none_iff, missingEnd?_eq_some_iff, GraphFlaw.danglingEdge.injEq]
      constructor
      · rintro ⟨front, dangling, behind, hedges, ⟨_, hend, rfl, rfl⟩, hfront⟩
        exact ⟨front, dangling, behind, hedges, hfront, rfl, hend⟩
      · rintro ⟨front, dangling, behind, hedges, hfront, rfl, hend⟩
        exact ⟨front, dangling, behind, hedges, ⟨_, hend, rfl, rfl⟩, hfront⟩

theorem validate_eq_ok_iff : graph.validate = .ok () ↔ graph.flaw? = none := by
  unfold validate
  cases graph.flaw? <;> simp

theorem validate_eq_error_iff {flaw : GraphFlaw} :
    graph.validate = .error flaw ↔ graph.flaw? = some flaw := by
  unfold validate
  cases graph.flaw? <;> simp

end Graph

/-! ## What a topology keeps -/

theorem firstNodes_sublist (seen : List String) (nodes : List Node) :
    (firstNodes seen nodes).Sublist nodes := by
  induction nodes generalizing seen with
  | nil => exact .slnil
  | cons node rest ih =>
      rw [firstNodes]
      split
      · exact (ih seen).cons node
      · exact (ih (node.id :: seen)).cons_cons node

/-- All nodes are first nodes if no id is repeated. -/
theorem firstNodes_eq_self_iff {seen : List String} {nodes : List Node} :
    firstNodes seen nodes = nodes ↔ firstRepeated? seen (nodes.map Node.id) = none := by
  induction nodes generalizing seen with
  | nil => exact iff_of_true rfl rfl
  | cons node rest ih =>
      rw [firstNodes, List.map_cons, firstRepeated?]
      by_cases hseen : node.id ∈ seen
      · rw [if_pos hseen, if_pos hseen]
        -- one node fewer cannot be all of them
        refine iff_of_false (fun heq => ?_) nofun
        have hlength := (firstNodes_sublist seen rest).length_le
        rw [heq, List.length_cons] at hlength
        omega
      · rw [if_neg hseen, if_neg hseen, List.cons_inj_right, ih]

namespace Topology

/-- Nothing of the graph is missing in the topology, and nothing is there twice. -/
structure Keeps (topology : Topology) (graph : Graph) : Prop where
  /-- No node is passed over. -/
  nodes : topology.nodes = graph.nodes
  /-- No edge is dropped. -/
  links : topology.links = graph.edges.map fun edge => ⟨edge.source, edge.target⟩
  /-- Each edge stands once among those into its target, in the order of the edges. -/
  predecessors : ∀ id, topology.predecessors id
    = (graph.edges.filter fun edge => edge.target = id).map Edge.source
  /-- Each edge stands once among those out of its source, in the order of the edges. -/
  successors : ∀ id, topology.successors id
    = (graph.edges.filter fun edge => edge.source = id).map Edge.target

/-- The lists of neighbors follow from the links. -/
theorem Keeps.of_links {topology : Topology} {graph : Graph} (hnodes : topology.nodes = graph.nodes)
    (hlinks : topology.links = graph.edges.map fun edge => ⟨edge.source, edge.target⟩) :
    topology.Keeps graph where
  nodes := hnodes
  links := hlinks
  predecessors := by
    intro id
    rw [Topology.predecessors, hlinks, List.filter_map, List.map_map]
    rfl
  successors := by
    intro id
    rw [Topology.successors, hlinks, List.filter_map, List.map_map]
    rfl

/-- **The topology of a graph keeps all of it if the graph is valid**, and only then. -/
theorem ofGraph_keeps_iff {graph : Graph} : (ofGraph graph).Keeps graph ↔ graph.Valid := by
  have hnodes : (ofGraph graph).nodes = graph.nodes ↔ graph.nodeIds.Nodup :=
    firstNodes_eq_self_iff.trans Graph.nodup_nodeIds_iff.symm
  have hkept : graph.keptEdges = graph.edges
      ↔ ∀ edge ∈ graph.edges, edge.source ∈ graph.nodeIds ∧ edge.target ∈ graph.nodeIds := by
    simp only [Graph.keptEdges, List.filter_eq_self, decide_eq_true_eq]
  constructor
  · intro h
    have hlength := congrArg List.length h.links
    rw [ofGraph_links, List.length_map, List.length_map] at hlength
    exact ⟨hnodes.mp h.nodes, hkept.mp (List.filter_sublist.eq_of_length hlength)⟩
  · intro h
    exact .of_links (hnodes.mpr h.distinct) (by rw [ofGraph_links, hkept.mpr h.ends])

end Topology

/--
**What is found valid is what the topology keeps as a whole.**

A graph is found valid if its topology has all its nodes and all its edges, each edge once in the list of
neighbors of either of its ends and in the order of the edges; if the topology passes over anything, the graph
is found flawed. Then either the first node is reported whose id has occurred before, or, if all ids are
distinct, the first edge with a missing end, by its source before its target.
-/
theorem Graph.validate_iff_keeps (graph : Graph) :
    (graph.validate = .ok () ↔ (Topology.ofGraph graph).Keeps graph)
      ∧ (∀ id, graph.validate = .error (.duplicateNode id)
        ↔ ∃ front node behind, graph.nodes = front ++ node :: behind ∧ node.id = id
          ∧ node.id ∈ front.map Node.id ∧ (front.map Node.id).Nodup)
      ∧ ∀ edge missing, graph.validate = .error (.danglingEdge edge missing)
        ↔ graph.nodeIds.Nodup ∧ ∃ front dangling behind, graph.edges = front ++ dangling :: behind
          ∧ (∀ other ∈ front, other.source ∈ graph.nodeIds ∧ other.target ∈ graph.nodeIds)
          ∧ dangling.id = edge
          ∧ (dangling.source ∉ graph.nodeIds ∧ missing = dangling.source
            ∨ dangling.source ∈ graph.nodeIds ∧ dangling.target ∉ graph.nodeIds
              ∧ missing = dangling.target) := by
  refine ⟨?_, ?_, ?_⟩
  · exact validate_eq_ok_iff.trans (flaw?_eq_none_iff.trans Topology.ofGraph_keeps_iff.symm)
  · intro id
    exact validate_eq_error_iff.trans flaw?_eq_duplicateNode_iff
  · intro edge missing
    exact validate_eq_error_iff.trans flaw?_eq_danglingEdge_iff

end DecisionGraph
