import DecisionGraph.Topology.Basic

/-!
# What lies downstream

`Topology.downstream` walks along the links from some nodes and takes each node once.
-/

namespace DecisionGraph.Topology

/-- Walks on from the nodes of a queue. Nodes that have been reached are not queued again, so as
many rounds as there are nodes suffice. -/
def walk (topology : Topology) : Nat → List String → List String → List String
  | 0, reached, _ => reached
  | _, reached, [] => reached
  | room + 1, reached, id :: queue =>
    let fresh := (topology.successors id).eraseDups.filter (· ∉ reached)
    walk topology room (reached ++ fresh) (queue ++ fresh)

/-- The nodes among `seeds` and all nodes that can be reached from them. -/
def downstream (topology : Topology) (seeds : List String) : List String :=
  let start := seeds.eraseDups.filter (· ∈ topology.ids)
  walk topology topology.ids.length start start

end DecisionGraph.Topology
