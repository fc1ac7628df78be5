import DecisionGraph.Topology.Basic
import Mathlib.Data.List.Nodup
import Mathlib.Logic.Relation

/-!
# Links

What a graph says about the flow of data, and that its topology says the same. An edge with both
ends in the graph feeds its target from its source; every other edge does nothing. The statements
about propagation are made with `Graph.Feeds` and `Graph.sources`, which do not mention the
topology, and proved with the links of the topology.

The one thing the algorithms on a topology ask of it is `Topology.WellFormed`: ids stand once, and
links have both ends.
-/

namespace DecisionGraph

/-! ## First occurrences -/

theorem nodup_eraseDups {α : Type} [BEq α] [LawfulBEq α] : ∀ items : List α, items.eraseDups.Nodup
  | [] => by simp
  | item :: rest => by
      rw [List.eraseDups_cons]
      refine List.nodup_cons.mpr ⟨?_, nodup_eraseDups (rest.filter fun other => !other == item)⟩
      rw [List.mem_eraseDups]
      simp
termination_by items => items.length
decreasing_by exact Nat.lt_succ_of_le (List.length_filter_le _ _)

/-- The first occurrences of what passes a test are the first occurrences that pass it. -/
theorem eraseDups_filter {α : Type} [BEq α] [LawfulBEq α] (p : α → Bool) :
    ∀ items : List α, (items.filter p).eraseDups = items.eraseDups.filter p
  | [] => rfl
  | item :: rest => by
      have ih := eraseDups_filter p (rest.filter fun other => !other == item)
      rw [List.filter_filter] at ih
      rw [List.eraseDups_cons]
      by_cases hp : p item = true
      · rw [List.filter_cons_of_pos hp, List.filter_cons_of_pos hp, List.eraseDups_cons, ← ih,
          List.filter_filter]
        simp only [Bool.and_comm]
      · rw [List.filter_cons_of_neg hp, List.filter_cons_of_neg hp, ← ih]
        congr 1
        refine List.filter_congr fun other _ => ?_
        by_cases heq : other = item
        · subst heq
          simpa using hp
        · simp [heq]
termination_by items => items.length
decreasing_by exact Nat.lt_succ_of_le (List.length_filter_le _ _)

/-- The first nodes are one for each id that has not been seen, in the order of their ids. -/
theorem map_id_firstNodes (seen : List String) (nodes : List Node) :
    (firstNodes seen nodes).map Node.id
      = ((nodes.map Node.id).filter fun id => id ∉ seen).eraseDups := by
  induction nodes generalizing seen with
  | nil => rfl
  | cons node rest ih =>
      unfold firstNodes
      rw [List.map_cons, List.filter_cons]
      by_cases hs : node.id ∈ seen
      · rw [if_pos hs, if_neg (by simp [hs]), ih]
      · rw [if_neg hs, if_pos (by simp [hs]), List.map_cons, ih, List.eraseDups_cons,
          List.filter_filter]
        congr 2
        refine List.filter_congr fun id _ => ?_
        by_cases heq : id = node.id <;> simp [heq]

theorem find?_firstNodes {id : String} {seen : List String} (h : id ∉ seen) (nodes : List Node) :
    (firstNodes seen nodes).find? (fun node => node.id = id)
      = nodes.find? fun node => node.id = id := by
  induction nodes generalizing seen with
  | nil => rfl
  | cons node rest ih =>
      unfold firstNodes
      by_cases hs : node.id ∈ seen
      · have hne : node.id ≠ id := fun heq => h (heq ▸ hs)
        rw [if_pos hs, ih h, List.find?_cons_of_neg (by simpa using hne)]
      · rw [if_neg hs]
        by_cases heq : node.id = id
        · rw [List.find?_cons_of_pos (by simpa using heq),
            List.find?_cons_of_pos (by simpa using heq)]
        · rw [List.find?_cons_of_neg (by simpa using heq),
            List.find?_cons_of_neg (by simpa using heq)]
          exact ih (by simp [Ne.symm heq, h])

/-! ## The flow of data in a graph -/

namespace Graph

/-- The edges with both ends in the graph. -/
def keptEdges (graph : Graph) : List Edge :=
  graph.edges.filter fun edge => edge.source ∈ graph.nodeIds ∧ edge.target ∈ graph.nodeIds

/-- A kept edge leads from the one node to the other. -/
def Feeds (graph : Graph) (source target : String) : Prop :=
  ∃ edge ∈ graph.keptEdges, edge.source = source ∧ edge.target = target

/-- The sources of the kept edges into a node, in the order of the edges. -/
def sources (graph : Graph) (id : String) : List String :=
  (graph.keptEdges.filter fun edge => edge.target = id).map Edge.source

/-- A node lies on a directed cycle of kept edges. -/
def OnCycle (graph : Graph) (id : String) : Prop := Relation.TransGen graph.Feeds id id

theorem feeds_mem {graph : Graph} {source target : String} (h : graph.Feeds source target) :
    source ∈ graph.nodeIds ∧ target ∈ graph.nodeIds := by
  obtain ⟨edge, hedge, rfl, rfl⟩ := h
  simpa using (List.mem_filter.mp hedge).2

theorem mem_sources {graph : Graph} {source target : String} :
    source ∈ graph.sources target ↔ graph.Feeds source target := by
  unfold sources Feeds
  simp only [List.mem_map, List.mem_filter, decide_eq_true_eq]
  constructor
  · intro ⟨edge, ⟨hedge, ht⟩, hs⟩; exact ⟨edge, hedge, hs, ht⟩
  · intro ⟨edge, hedge, hs, ht⟩; exact ⟨edge, ⟨hedge, ht⟩, hs⟩

/-- A node on a cycle is in the graph. -/
theorem OnCycle.mem {graph : Graph} {id : String} (h : graph.OnCycle id) : id ∈ graph.nodeIds := by
  obtain ⟨_, hfeeds, _⟩ := Relation.TransGen.head'_iff.mp h
  exact (feeds_mem hfeeds).1

/-- Every id is the id of its first node. -/
theorem node?_isSome {graph : Graph} {id : String} : (graph.node? id).isSome ↔ id ∈ graph.nodeIds := by
  simp [node?, nodeIds]

theorem exists_node? {graph : Graph} {id : String} (h : id ∈ graph.nodeIds) :
    ∃ node, graph.node? id = some node := Option.isSome_iff_exists.mp (node?_isSome.mpr h)

theorem mem_of_node? {graph : Graph} {id : String} {node : Node} (h : graph.node? id = some node) :
    id ∈ graph.nodeIds := node?_isSome.mp (Option.isSome_iff_exists.mpr ⟨node, h⟩)

theorem node?_id {graph : Graph} {id : String} {node : Node} (h : graph.node? id = some node) :
    node.id = id := by
  simpa using List.find?_some h

end Graph

/-! ## The links of a topology -/

namespace Topology

/-- A link leads from the one node to the other. -/
def Linked (topology : Topology) (source target : String) : Prop :=
  (⟨source, target⟩ : Link) ∈ topology.links

/-- Ids stand once, and links have both ends. -/
structure WellFormed (topology : Topology) : Prop where
  /-- No two nodes have one id. -/
  distinct : topology.ids.Nodup
  /-- Links start at a node. -/
  source_mem : ∀ {source target : String}, topology.Linked source target → source ∈ topology.ids
  /-- Links end at a node. -/
  target_mem : ∀ {source target : String}, topology.Linked source target → target ∈ topology.ids

variable {topology : Topology}

theorem mem_successors {source target : String} :
    target ∈ topology.successors source ↔ topology.Linked source target := by
  unfold successors Linked
  simp only [List.mem_map, List.mem_filter, decide_eq_true_eq]
  constructor
  · intro ⟨link, ⟨hlink, ht⟩, hs⟩
    exact hs ▸ ht ▸ hlink
  · intro hlink; exact ⟨_, ⟨hlink, rfl⟩, rfl⟩

theorem mem_predecessors {source target : String} :
    source ∈ topology.predecessors target ↔ topology.Linked source target := by
  unfold predecessors Linked
  simp only [List.mem_map, List.mem_filter, decide_eq_true_eq]
  constructor
  · intro ⟨link, ⟨hlink, ht⟩, hs⟩
    exact hs ▸ ht ▸ hlink
  · intro hlink; exact ⟨_, ⟨hlink, rfl⟩, rfl⟩

/-- Parallel links are as many from the one side as from the other. -/
theorem count_successors (source target : String) :
    (topology.successors source).count target = (topology.predecessors target).count source := by
  unfold successors predecessors
  rw [List.count_eq_countP, List.count_eq_countP, List.countP_map, List.countP_map,
    List.countP_filter, List.countP_filter]
  refine List.countP_congr fun link _ => ?_
  simp [and_comm]

theorem ofGraph_ids (graph : Graph) : (ofGraph graph).ids = graph.nodeIds.eraseDups := by
  unfold ids ofGraph
  rw [map_id_firstNodes]
  simp [Graph.nodeIds]

theorem mem_ofGraph_ids {graph : Graph} {id : String} :
    id ∈ (ofGraph graph).ids ↔ id ∈ graph.nodeIds := by
  rw [ofGraph_ids, List.mem_eraseDups]

theorem ofGraph_node? (graph : Graph) (id : String) : (ofGraph graph).node? id = graph.node? id :=
  find?_firstNodes (by simp) graph.nodes

theorem ofGraph_links (graph : Graph) :
    (ofGraph graph).links = graph.keptEdges.map fun edge => ⟨edge.source, edge.target⟩ := by
  unfold ofGraph Graph.keptEdges
  rw [← List.filterMap_eq_map, List.filterMap_filter]
  refine List.filterMap_congr fun edge _ => ?_
  simp

/-- The links of a graph's topology are its kept edges. -/
theorem ofGraph_linked (graph : Graph) : (ofGraph graph).Linked = graph.Feeds := by
  funext source target
  unfold Linked Graph.Feeds
  simp [ofGraph_links]

theorem ofGraph_predecessors (graph : Graph) (id : String) :
    (ofGraph graph).predecessors id = graph.sources id := by
  unfold predecessors Graph.sources
  rw [ofGraph_links, List.filter_map, List.map_map]
  rfl

theorem ofGraph_wellFormed (graph : Graph) : (ofGraph graph).WellFormed where
  distinct := by rw [ofGraph_ids]; exact nodup_eraseDups _
  source_mem := by
    intro source target h
    rw [ofGraph_linked] at h
    exact mem_ofGraph_ids.mpr (Graph.feeds_mem h).1
  target_mem := by
    intro source target h
    rw [ofGraph_linked] at h
    exact mem_ofGraph_ids.mpr (Graph.feeds_mem h).2

end Topology

end DecisionGraph
