import DecisionGraph.Keyed
import DecisionGraph.Topology.Search

/-!
# The order of computation

A node is ready when all the nodes that it takes input from are settled. `Order` keeps count: for
each node how many links into it are still to come, and which nodes are ready. When no node is
ready any more, all that is left lies on a cycle or below one; the nodes of every cycle are
settled together, so that none of them is taken for ready, and the rest follows.
-/

namespace DecisionGraph

/-- How far the settling of nodes has come. -/
structure Order where
  /-- The number of links into each node that nothing has come along yet. -/
  pending : Keyed Nat
  /-- The nodes that can be settled, in the order in which they became ready. -/
  ready : List String
  settled : List String

namespace Order

/-- Nothing is settled; nodes without links into them are ready. -/
def start (topology : Topology) : Order where
  pending := Keyed.ofList (topology.ids.map fun id => (id, (topology.predecessors id).length))
  ready := topology.ids.filter fun id => (topology.predecessors id).isEmpty
  settled := []

/-- The number of links into a node that nothing has come along yet. -/
def pendingOf (order : Order) (id : String) : Nat := (Keyed.get? id order.pending).getD 0

/-- Takes one link into a node off the count, unless the node is settled. The last link makes the
node ready. -/
def arrive (order : Order) (id : String) : Order :=
  if id ∈ order.settled then order
  else
    let left := order.pendingOf id - 1
    { order with
      pending := Keyed.insert id left order.pending
      ready := if left = 0 then order.ready ++ [id] else order.ready }

/-- Lets the output of a node go along all links out of it. -/
def deliver (topology : Topology) (order : Order) (id : String) : Order :=
  (topology.successors id).foldl arrive order

/-- Settles some nodes at once: all are marked before any of them is delivered. -/
def settle (topology : Topology) (order : Order) (ids : List String) : Order :=
  ids.foldl (deliver topology) { order with settled := ids ++ order.settled }

/-- Settles ready nodes until there are none, and lists them. No node becomes ready twice, so as
many rounds as there are nodes suffice. -/
def drain (topology : Topology) : Nat → Order → List String × Order
  | 0, order => ([], order)
  | room + 1, order =>
    match order.ready with
    | [] => ([], order)
    | id :: rest =>
      let (more, final) := drain topology room (settle topology { order with ready := rest } [id])
      (id :: more, final)

end Order

/-- The nodes in the order of computation. -/
structure Schedule where
  /-- The nodes that no cycle leads to. -/
  before : List String
  cycles : List (List String)
  /-- The nodes below a cycle. -/
  after : List String

def Topology.schedule (topology : Topology) : Schedule :=
  let (before, stalled) := Order.drain topology topology.ids.length (Order.start topology)
  -- nothing is ready any more, so the nodes that are left lie on cycles or below them
  let cycles := topology.findCycles stalled.settled
  let resumed := cycles.foldl (Order.settle topology) stalled
  let (after, _) := Order.drain topology topology.ids.length resumed
  { before, cycles, after }

end DecisionGraph
