import DecisionGraph.Keyed
import DecisionGraph.Topology.Basic

/-!
# Finding cycles

The search walks along the links in depth first order and numbers the nodes as it discovers them. A
node waits on the stack until its component is complete: the nodes that it reaches and that reach
it. What tells this is the lowest number of a node on the stack that a node is known to lead to. If
that is its own number when all its links have been looked at, its component is on top of the stack,
down to the node itself. A component is a cycle if it has several nodes or a link from its node to
itself.

The path of the walk is a stack, too, so that nothing here is recursive but the loop.
-/

namespace DecisionGraph

/-- How far the search has come with a node. -/
inductive Visit
  /-- The node has not been discovered. -/
  | stale
  /-- It waits for its component to be complete. -/
  | computing
  /-- Its component is complete. -/
  | fresh
deriving DecidableEq

/-- A node of the path, and the targets of those of its links that have not been looked at. -/
structure Frame where
  node : String
  left : List String

/-- The state of the search. -/
structure Search where
  visits : Keyed Visit
  /-- The numbers of the nodes, in the order of their discovery. -/
  numbers : Keyed Nat
  /-- The lowest numbers that nodes are known to lead to. -/
  lows : Keyed Nat
  next : Nat
  /-- The nodes that wait, the last one discovered first. -/
  stack : List String
  /-- The nodes that are being looked at, each with a link to the one before it. -/
  path : List Frame
  cycles : List (List String)

namespace Search

/-- Nothing has been discovered. -/
def start : Search := ⟨[], [], [], 0, [], [], []⟩

def visit (search : Search) (id : String) : Visit := (Keyed.get? id search.visits).getD .stale

def number (search : Search) (id : String) : Nat := (Keyed.get? id search.numbers).getD 0

def low (search : Search) (id : String) : Nat := (Keyed.get? id search.lows).getD 0

/-- Discovers a node: it gets the next number, waits, and is looked at. -/
def discover (topology : Topology) (search : Search) (id : String) : Search :=
  { search with
    visits := Keyed.insert id .computing search.visits
    numbers := Keyed.insert id search.next search.numbers
    lows := Keyed.insert id search.next search.lows
    next := search.next + 1
    stack := id :: search.stack
    path := ⟨id, topology.successors id⟩ :: search.path }

/-- Notes that a node leads to a number. -/
def lower (search : Search) (id : String) (number : Nat) : Search :=
  { search with lows := Keyed.insert id (min (search.low id) number) search.lows }

/-- Looks at a link, unless its target is settled. -/
def look (topology : Topology) (settled : List String) (search : Search) (source target : String) :
    Search :=
  if target ∈ settled then search
  else
    match search.visit target with
    | .stale => search.discover topology target
    | .computing => search.lower source (search.number target)
    | .fresh => search

/-- Takes nodes off a stack, down to the given one, and also gives back what is left of it. -/
def popTo (id : String) : List String → List String × List String
  | [] => ([], [])
  | top :: rest =>
    if top = id then ([top], rest)
    else
      let (popped, left) := popTo id rest
      (top :: popped, left)

/-- Completes the component that is on top of the stack, down to the given node. -/
def complete (topology : Topology) (search : Search) (id : String) : Search :=
  let (component, stack) := popTo id search.stack
  { search with
    visits := component.foldl (fun visits id => Keyed.insert id .fresh visits) search.visits
    stack
    cycles :=
      -- nodes are popped in the order of the search, but listed in the order of the topology
      if 1 < component.length ∨ id ∈ topology.successors id then
        search.cycles ++ [topology.ids.filter (· ∈ component)]
      else search.cycles }

/-- Leaves a node all of whose links have been looked at. The node before it on the path leads
wherever it leads. -/
def leave (topology : Topology) (search : Search) (id : String) : Search :=
  let search :=
    match search.path with
    | [] => search
    | parent :: _ => search.lower parent.node (search.low id)
  if search.low id = search.number id then search.complete topology id else search

/-- Looks at the next link of the node that is looked at, or leaves the node. -/
def step (topology : Topology) (settled : List String) (search : Search) : Search :=
  match search.path with
  | [] => search
  | ⟨id, []⟩ :: path => leave topology { search with path } id
  | ⟨id, target :: left⟩ :: path =>
    look topology settled { search with path := ⟨id, left⟩ :: path } id target

/-- Goes on until nothing is looked at any more. -/
def run (topology : Topology) (settled : List String) : Nat → Search → Search
  | 0, search => search
  | room + 1, search =>
    if search.path.isEmpty then search else run topology settled room (step topology settled search)

end Search

namespace Topology

/-- The rounds that all searches together take: in each a link is looked at or a node is left. -/
def rounds (topology : Topology) : Nat := topology.links.length + topology.ids.length

/-- Searches from a node, unless it is settled or has been discovered. -/
def searchFrom (topology : Topology) (settled : List String) (search : Search) (root : String) :
    Search :=
  if root ∈ settled ∨ search.visit root ≠ .stale then search
  else Search.run topology settled topology.rounds (search.discover topology root)

/-- The places of some nodes in the order of the topology. -/
def places (topology : Topology) (ids : List String) : List Nat :=
  ids.map fun id => topology.ids.idxOf id

/-- The cycles among the nodes that are not settled, in the order of their nodes. -/
def findCycles (topology : Topology) (settled : List String) : List (List String) :=
  let search := topology.ids.foldl (topology.searchFrom settled) .start
  search.cycles.mergeSort fun a b => !(topology.places b).lex (topology.places a)

end Topology

end DecisionGraph
