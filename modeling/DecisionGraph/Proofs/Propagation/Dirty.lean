import DecisionGraph.Proofs.Propagation.Incremental

/-!
# What a change makes dirty

A node is dirty if a changed node leads to it along kept edges (`Environment.dirty_eq_downstream`), and the
walk that finds this out visits every dirty node once and no other node at all.

`Topology.walk` takes the new successors of a node all at once and is given a number of rounds. `Worklist` is
the walk without either: links are looked at one by one, and it goes on for as long as something is queued.
Nodes stand in the queue in the order in which they were reached, so what has been reached is always what has
been visited, followed by the queue. This ties the two together (`Topology.walk_visits`): when the walk stops,
the queue is empty and what has been reached has been visited.
-/

namespace DecisionGraph

open Relation

/-- What a walk has reached so far, and what of it has not been visited. -/
structure Worklist where
  reached : List String
  queue : List String

namespace Worklist

/-- Nothing has been reached. -/
def start : Worklist := ⟨[], []⟩

/-- Reaches a node. It is queued, unless it has been reached before. -/
def reach (list : Worklist) (id : String) : Worklist :=
  if id ∈ list.reached then list else ⟨list.reached ++ [id], list.queue ++ [id]⟩

/-- A walk that goes on until nothing is queued: the nodes that it visits in their order, and all that it has
reached in the end. To visit a node is to reach the targets of all its links. -/
inductive Visits (topology : Topology) : Worklist → List String → List String → Prop
  | done (reached : List String) : Visits topology ⟨reached, []⟩ [] reached
  | next {reached queue visited final : List String} {id : String}
      (h : Visits topology ((topology.successors id).foldl reach ⟨reached, queue⟩) visited final) :
      Visits topology ⟨reached, id :: queue⟩ (id :: visited) final

/-- A walk can go on in one way only. -/
theorem Visits.unique {topology : Topology} {list : Worklist} {visited visited' final final' : List String}
    (h : Visits topology list visited final) (h' : Visits topology list visited' final') :
    visited = visited' ∧ final = final' := by
  induction h generalizing visited' final' with
  | done reached =>
      cases h'
      exact ⟨rfl, rfl⟩
  | next _ ih =>
      cases h' with
      | next h' =>
          obtain ⟨rfl, rfl⟩ := ih h'
          exact ⟨rfl, rfl⟩

/-- **Nodes that are reached one by one** join the queue if they are new, in the order of their first
occurrences. -/
theorem foldl_reach (ids reached queue : List String) :
    ids.foldl reach ⟨reached, queue⟩
      = ⟨reached ++ ids.eraseDups.filter (· ∉ reached), queue ++ ids.eraseDups.filter (· ∉ reached)⟩ := by
  induction ids generalizing reached queue with
  | nil => simp
  | cons id rest ih =>
      rw [List.foldl_cons, reach, List.eraseDups_cons, eraseDups_filter]
      by_cases hid : id ∈ reached
      · -- it is passed over, here and further on
        have hfresh : (rest.eraseDups.filter fun other => !other == id).filter (· ∉ reached)
            = rest.eraseDups.filter (· ∉ reached) := by
          rw [List.filter_filter]
          refine List.filter_congr fun other _ => ?_
          by_cases heq : other = id <;> simp [heq, hid]
        rw [if_pos hid, ih, List.filter_cons_of_neg (by simpa using hid), hfresh]
      · have hfresh : (rest.eraseDups.filter fun other => !other == id).filter (· ∉ reached)
            = rest.eraseDups.filter (· ∉ reached ++ [id]) := by
          rw [List.filter_filter]
          refine List.filter_congr fun other _ => ?_
          by_cases heq : other = id <;> simp [heq]
        rw [if_neg hid, ih, List.filter_cons_of_pos (by simpa using hid), hfresh, List.append_assoc,
          List.append_assoc, List.singleton_append]

end Worklist

namespace Topology

variable {topology : Topology}

/-- **The rounds of a walk suffice**: with them it visits what is queued and what joins the queue, until
nothing is queued any more. -/
theorem walk_visits (hw : topology.WellFormed) {room : Nat} {visited queue : List String}
    (h : Walking topology room (visited ++ queue) queue) :
    ∃ more, Worklist.Visits topology ⟨visited ++ queue, queue⟩ more
        (topology.walk room (visited ++ queue) queue)
      ∧ topology.walk room (visited ++ queue) queue = visited ++ more := by
  induction room generalizing visited queue with
  | zero =>
      obtain rfl := h.queue_eq_nil
      exact ⟨[], .done _, rfl⟩
  | succ room ih =>
      cases queue with
      | nil => exact ⟨[], .done _, rfl⟩
      | cons id queue =>
          let fresh := (topology.successors id).eraseDups.filter (· ∉ visited ++ id :: queue)
          have hreached : visited ++ id :: queue ++ fresh = (visited ++ [id]) ++ (queue ++ fresh) := by simp
          have hnext : Walking topology room (visited ++ id :: queue ++ fresh) (queue ++ fresh) := h.next hw
          have hwalk : topology.walk (room + 1) (visited ++ id :: queue) (id :: queue)
              = topology.walk room (visited ++ id :: queue ++ fresh) (queue ++ fresh) := rfl
          rw [hreached] at hnext hwalk
          obtain ⟨more, hmore, hfinal⟩ := ih hnext
          rw [hwalk]
          refine ⟨id :: more, .next ?_, by rw [hfinal, List.append_assoc, List.singleton_append]⟩
          rw [Worklist.foldl_reach]
          exact hreached ▸ hmore

/-- A walk reaches no node twice. -/
theorem nodup_walk (hw : topology.WellFormed) {room : Nat} {reached queue : List String}
    (h : Walking topology room reached queue) : (topology.walk room reached queue).Nodup := by
  fun_induction walk topology room reached queue with
  | case1 => exact h.nodup
  | case2 => exact h.nodup
  | case3 room reached id queue fresh ih => exact ih (h.next hw)

/-- **What lies downstream of some nodes is visited, each node once.** The walk starts where the nodes have
been reached that are in the topology. -/
theorem downstream_visits (hw : topology.WellFormed) (seeds : List String) :
    Worklist.Visits topology ((seeds.filter (· ∈ topology.ids)).foldl Worklist.reach .start)
        (topology.downstream seeds) (topology.downstream seeds)
      ∧ (topology.downstream seeds).Nodup := by
  have hwalking := topology.walking_start seeds
  refine ⟨?_, nodup_walk hw hwalking⟩
  have hstart : (seeds.filter (· ∈ topology.ids)).foldl Worklist.reach .start
      = ⟨seeds.eraseDups.filter (· ∈ topology.ids), seeds.eraseDups.filter (· ∈ topology.ids)⟩ := by
    rw [Worklist.start, Worklist.foldl_reach, eraseDups_filter]
    simp
  obtain ⟨visited, hvisits, hwalk⟩ := @walk_visits _ hw _ [] _ hwalking
  rw [hstart, downstream]
  exact hwalk ▸ hvisits

end Topology

/--
**The dirty nodes are those that a changed node leads to.**

Whatever graph is propagated and whatever ids are said to be changed, a node is dirty if a changed id of the
graph leads to it along kept edges, through no edge at all or through any number of them. The dirty nodes are
listed once each, in ascending order of their ids.

They are found by one walk that starts with the changed nodes of the graph and goes on until nothing is
queued. It comes to an end, it visits no node twice, and the nodes that it visits are the dirty ones.
-/
theorem Environment.dirty_eq_downstream (environment : Environment) (graph : Graph) (changed : List String)
    (previous : Option Propagation) :
    let result := environment.propagate graph changed previous
    let topology := Topology.ofGraph graph
    let seeds := (changed.filter (· ∈ topology.ids)).foldl Worklist.reach .start
    (∀ id, id ∈ result.dirty
        ↔ ∃ seed ∈ changed, seed ∈ graph.nodeIds ∧ ReflTransGen graph.Feeds seed id)
      ∧ result.dirty.Pairwise (· < ·)
      ∧ (∃ visited reached, Worklist.Visits topology seeds visited reached)
      ∧ ∀ visited reached, Worklist.Visits topology seeds visited reached →
        visited.Nodup ∧ visited.Perm result.dirty := by
  intro result topology seeds
  have hascending : result.dirty.Pairwise (· < ·) := pairwise_sortedDistinct _
  obtain ⟨hvisits, hnodup⟩ := Topology.downstream_visits (Topology.ofGraph_wellFormed graph) changed
  have hperm : (topology.downstream changed).Perm result.dirty :=
    (List.perm_ext_iff_of_nodup hnodup (hascending.imp fun hlt => ne_of_lt hlt)).mpr
      fun id => mem_sortedDistinct.symm
  refine ⟨fun id => mem_dirty, hascending, ⟨_, _, hvisits⟩, ?_⟩
  intro visited reached h
  obtain ⟨rfl, rfl⟩ := hvisits.unique h
  exact ⟨hnodup, hperm⟩

/-- Two changed nodes of one cycle, one of them named twice, with a node that feeds itself below them through
two parallel edges. Each is visited once, in the order in which it is reached. -/
example :
    let node (id : String) : Node := ⟨id, "switchNode", "", .null, .origin⟩
    let edge (source target : String) : Edge := ⟨"", source, target, none, none⟩
    let graph : Graph := ⟨[node "a", node "b", node "c", node "d"],
      [edge "c" "c", edge "b" "c", edge "b" "c", edge "b" "d", edge "d" "b", edge "c" "x"]⟩
    (Topology.ofGraph graph).downstream ["d", "x", "b", "d"] = ["d", "b", "c"] := by decide +kernel

end DecisionGraph
