import DecisionGraph.Proofs.Keyed
import DecisionGraph.Proofs.Topology.Links
import DecisionGraph.Topology.Order
import Mathlib.Data.List.Perm.Subperm

/-!
# The counters of `Order` are exact

A node is *delivered* once its output has gone along all links out of it. Nodes are marked as settled
before they are delivered, and a whole cycle is marked at once, so the two lists differ while a cycle
is being settled. `Counts` is the invariant in terms of the delivered nodes:

* the counter of a node that is not settled is the number of links into it, parallel ones counted
  one by one, whose source has not been delivered;
* the ready nodes are exactly those that are not settled and have all their sources delivered, and
  each stands in the queue once.

`Counts.deliver` is the step. When everything that is settled has been delivered, the order is
`Balanced`, which is what holds between two calls of `settle`.
-/

namespace DecisionGraph.Order

variable {topology : Topology}

/-! ## Arrivals along some links -/

theorem pendingOf_insert (order : Order) (id other : String) (left : Nat) (ready : List String) :
    ({ order with pending := Keyed.insert id left order.pending, ready } : Order).pendingOf other
      = if id = other then left else order.pendingOf other := by
  unfold pendingOf
  rw [Keyed.get?_insert]
  split <;> rfl

theorem settled_arrive (order : Order) (id : String) : (arrive order id).settled = order.settled := by
  unfold arrive
  split <;> rfl

theorem pendingOf_arrive {order : Order} {id : String} (h : id ∉ order.settled) (other : String) :
    (arrive order id).pendingOf other
      = if id = other then order.pendingOf id - 1 else order.pendingOf other := by
  unfold arrive
  rw [if_neg h]
  exact pendingOf_insert ..

theorem ready_arrive {order : Order} {id : String} (h : id ∉ order.settled) :
    (arrive order id).ready
      = if order.pendingOf id - 1 = 0 then order.ready ++ [id] else order.ready := by
  unfold arrive
  rw [if_neg h]

theorem settled_arrivals (order : Order) (targets : List String) :
    (targets.foldl arrive order).settled = order.settled := by
  induction targets generalizing order with
  | nil => rfl
  | cons target rest ih => rw [List.foldl_cons, ih, settled_arrive]

/-- Arrivals put nodes at the end of the queue, if anywhere. -/
theorem ready_isPrefix_arrivals (order : Order) (targets : List String) :
    order.ready <+: (targets.foldl arrive order).ready := by
  induction targets generalizing order with
  | nil => exact List.prefix_rfl
  | cons target rest ih =>
      refine List.IsPrefix.trans ?_ (ih (arrive order target))
      unfold arrive
      split
      · exact List.prefix_rfl
      · dsimp only
        split
        · exact List.prefix_append _ _
        · exact List.prefix_rfl

/-- Every arrival at a node takes one off its counter. -/
theorem pendingOf_arrivals {order : Order} {id : String} (h : id ∉ order.settled)
    (targets : List String) :
    (targets.foldl arrive order).pendingOf id = order.pendingOf id - targets.count id := by
  induction targets generalizing order with
  | nil => rfl
  | cons target rest ih =>
      rw [List.foldl_cons, ih (by rwa [settled_arrive]), List.count_cons]
      by_cases hs : target ∈ order.settled
      · -- nothing is counted for a settled node, and `id` is none
        have hne : target ≠ id := fun heq => h (heq ▸ hs)
        rw [arrive, if_pos hs]
        simp [hne]
      · rw [pendingOf_arrive hs]
        by_cases heq : target = id
        · subst heq
          rw [if_pos rfl, if_pos (beq_self_eq_true _)]
          omega
        · rw [if_neg heq, if_neg (by simpa using heq), Nat.add_zero]

/-- What an arrival at a node that is not settled adds to the queue. -/
theorem mem_ready_arrive {order : Order} {target : String} (hs : target ∉ order.settled)
    {id : String} :
    id ∈ (arrive order target).ready
      ↔ id ∈ order.ready ∨ (id = target ∧ order.pendingOf target - 1 = 0) := by
  rw [ready_arrive hs]
  by_cases hlast : order.pendingOf target - 1 = 0
  · rw [if_pos hlast, List.mem_append, List.mem_singleton]
    exact or_congr_right (and_iff_left hlast).symm
  · rw [if_neg hlast]
    exact (or_iff_left fun h => hlast h.2).symm

/-- The order can take arrivals at the targets: nothing that is ready has anything left to wait for,
and no arrival finds a counter at zero. -/
structure Expecting (order : Order) (targets : List String) : Prop where
  nodup : order.ready.Nodup
  free : ∀ id ∈ order.ready, id ∉ targets
  enough : ∀ id ∈ targets, id ∉ order.settled → targets.count id ≤ order.pendingOf id

namespace Expecting

variable {order : Order} {target : String} {rest : List String}

theorem pos (h : Expecting order (target :: rest)) (hs : target ∉ order.settled) :
    rest.count target + 1 ≤ order.pendingOf target := by
  have hcount := h.enough target (List.mem_cons_self ..) hs
  rwa [List.count_cons_self] at hcount

/-- **After an arrival the order can take the rest.** -/
theorem arrive (h : Expecting order (target :: rest)) : Expecting (order.arrive target) rest := by
  have hrest : ∀ id ∈ order.ready, id ∉ rest :=
    fun id hid hr => h.free id hid (List.mem_cons_of_mem _ hr)
  by_cases hs : target ∈ order.settled
  · -- an arrival at a settled node changes nothing
    have hsame : order.arrive target = order := by rw [Order.arrive, if_pos hs]
    rw [hsame]
    refine ⟨h.nodup, hrest, fun id hid hout => ?_⟩
    have hne : target ≠ id := fun heq => hout (heq ▸ hs)
    have hcount := h.enough id (List.mem_cons_of_mem _ hid) hout
    rwa [List.count_cons_of_ne hne] at hcount
  · have hpos := h.pos hs
    have hfree : target ∉ order.ready := fun hr => h.free target hr (List.mem_cons_self ..)
    refine ⟨?_, ?_, ?_⟩
    · rw [ready_arrive hs]
      split
      · refine List.nodup_append.mpr ⟨h.nodup, List.nodup_singleton _, ?_⟩
        intro id hid other hother heq
        rw [List.mem_singleton] at hother
        exact hfree (hother ▸ heq ▸ hid)
      · exact h.nodup
    · intro id hid
      rcases (mem_ready_arrive hs).mp hid with hold | ⟨heq, hlast⟩
      · exact hrest id hold
      · -- the last link has arrived, so the node does not occur further on
        rw [heq, ← List.count_eq_zero]
        omega
    · intro id hid hout
      rw [settled_arrive] at hout
      rw [pendingOf_arrive hs]
      by_cases hne : target = id
      · subst hne
        rw [if_pos rfl]
        omega
      · have hcount := h.enough id (List.mem_cons_of_mem _ hid) hout
        rwa [if_neg hne, ← List.count_cons_of_ne hne]

/-- After some of the arrivals the order can take the rest. -/
theorem arrivals {first rest : List String} (h : Expecting order (first ++ rest)) :
    Expecting (first.foldl Order.arrive order) rest := by
  induction first generalizing order with
  | nil => exact h
  | cons target first ih => exact ih h.arrive

/-- An arrival does not change which nodes are ready once the rest has arrived, too. -/
theorem ready_iff (h : Expecting order (target :: rest)) (id : String) :
    (id ∈ (order.arrive target).ready ∨ (id ∈ rest ∧ id ∉ (order.arrive target).settled
        ∧ (order.arrive target).pendingOf id = rest.count id))
      ↔ id ∈ order.ready ∨ (id ∈ target :: rest ∧ id ∉ order.settled
        ∧ order.pendingOf id = (target :: rest).count id) := by
  rw [settled_arrive]
  by_cases hs : target ∈ order.settled
  · have hsame : order.arrive target = order := by rw [Order.arrive, if_pos hs]
    rw [hsame]
    refine or_congr_right ?_
    by_cases hne : target = id
    · subst hne
      exact iff_of_false (fun h => h.2.1 hs) fun h => h.2.1 hs
    · rw [List.count_cons_of_ne hne, List.mem_cons, or_iff_right (Ne.symm hne)]
  · have hpos := h.pos hs
    rw [mem_ready_arrive hs, pendingOf_arrive hs, or_assoc]
    refine or_congr_right ?_
    by_cases hne : target = id
    · subst hne
      rw [if_pos rfl, List.count_cons_self]
      constructor
      · intro hready
        refine ⟨List.mem_cons_self .., hs, ?_⟩
        rcases hready with ⟨_, hlast⟩ | ⟨_, _, hcount⟩
        · omega
        · omega
      · -- ready at once if this link is the last one, and otherwise by one of the rest
        intro ⟨_, _, hcount⟩
        by_cases hlast : rest.count target = 0
        · exact Or.inl ⟨rfl, by omega⟩
        · exact Or.inr ⟨List.count_pos_iff.mp (by omega), hs, by omega⟩
    · rw [if_neg hne, List.count_cons_of_ne hne, List.mem_cons]
      simp [Ne.symm hne]

end Expecting

/-- **A node becomes ready when the last link into it arrives, and only then.** -/
theorem ready_arrivals {order : Order} {targets : List String} (h : Expecting order targets) :
    (targets.foldl arrive order).ready.Nodup ∧
      ∀ id, id ∈ (targets.foldl arrive order).ready ↔
        id ∈ order.ready ∨
          (id ∈ targets ∧ id ∉ order.settled ∧ order.pendingOf id = targets.count id) := by
  induction targets generalizing order with
  | nil => exact ⟨h.nodup, fun id => by simp⟩
  | cons target rest ih =>
      obtain ⟨hnodup, hready⟩ := ih h.arrive
      exact ⟨hnodup, fun id => (hready id).trans (h.ready_iff id)⟩

/-! ## The invariant -/

/-- The counters and the queue are right for the nodes that have been delivered. -/
structure Counts (topology : Topology) (delivered : List String) (order : Order) : Prop where
  /-- A counter is the number of links whose source is still to be delivered. -/
  pending : ∀ id ∈ topology.ids, id ∉ order.settled →
    order.pendingOf id = (topology.predecessors id).countP fun source => source ∉ delivered
  /-- A node is ready when all its sources have been delivered. -/
  ready : ∀ id, id ∈ order.ready ↔ id ∈ topology.ids ∧ id ∉ order.settled ∧
    ∀ source, topology.Linked source id → source ∈ delivered
  /-- A node is in the queue once. -/
  nodup : order.ready.Nodup

/-- Only which nodes have been delivered matters. -/
theorem Counts.congr {delivered delivered' : List String} {order : Order}
    (h : Counts topology delivered order) (hmem : ∀ id, id ∈ delivered ↔ id ∈ delivered') :
    Counts topology delivered' order where
  pending := by
    intro id hid hout
    rw [h.pending id hid hout]
    exact List.countP_congr fun source _ => by simp [hmem source]
  ready := by
    intro id
    rw [h.ready id]
    simp only [hmem]
  nodup := h.nodup

theorem countP_not_mem_cons {id : String} {delivered : List String} (h : id ∉ delivered)
    (sources : List String) :
    (sources.countP fun source => source ∉ id :: delivered) + sources.count id
      = sources.countP fun source => source ∉ delivered := by
  induction sources with
  | nil => rfl
  | cons source rest ih =>
      rw [List.countP_cons, List.countP_cons, List.count_cons, ← ih]
      by_cases heq : source = id
      · subst heq; simp [h]; omega
      · simp [heq]; omega

/-- Nothing is left to count when all sources have been delivered. -/
theorem countP_not_mem_eq_zero {delivered sources : List String} :
    (sources.countP fun source => source ∉ delivered) = 0
      ↔ ∀ source ∈ sources, source ∈ delivered := by
  simp only [List.countP_eq_zero, decide_eq_true_eq, not_not]

/-- **What arrives from a node has been counted,** and no node that waits for it is ready. -/
theorem Counts.expecting (hw : topology.WellFormed) {delivered : List String} {order : Order}
    {id : String} (h : Counts topology delivered order) (hid : id ∉ delivered) :
    Expecting order (topology.successors id) where
  nodup := h.nodup
  free := by
    intro target hready hlink
    exact hid (((h.ready target).mp hready).2.2 id (Topology.mem_successors.mp hlink))
  enough := by
    intro target hlink hout
    have hknown := hw.target_mem (Topology.mem_successors.mp hlink)
    have hsplit := countP_not_mem_cons hid (topology.predecessors target)
    rw [Topology.count_successors, h.pending target hknown hout]
    omega

/-- **Delivering a node keeps the invariant.** -/
theorem Counts.deliver (hw : topology.WellFormed) {delivered : List String} {order : Order}
    {id : String} (h : Counts topology delivered order) (hid : id ∉ delivered) :
    Counts topology (id :: delivered) (Order.deliver topology order id) := by
  obtain ⟨hnd, hready⟩ := ready_arrivals (h.expecting hw hid)
  refine ⟨?_, ?_, hnd⟩
  · intro target hknown hout
    rw [Order.deliver, settled_arrivals] at hout
    have hsplit := countP_not_mem_cons hid (topology.predecessors target)
    rw [Order.deliver, pendingOf_arrivals hout, h.pending target hknown hout,
      Topology.count_successors]
    omega
  · intro target
    rw [Order.deliver, hready target, settled_arrivals, h.ready target]
    constructor
    · intro hcase
      rcases hcase with ⟨hknown, hout, hall⟩ | ⟨hlink, hout, heq⟩
      · exact ⟨hknown, hout, fun source hs => List.mem_cons_of_mem _ (hall source hs)⟩
      · -- all that was counted were the links from `id`, so no other source is left
        have hknown := hw.target_mem (Topology.mem_successors.mp hlink)
        refine ⟨hknown, hout, fun source hs => ?_⟩
        have hsplit := countP_not_mem_cons hid (topology.predecessors target)
        rw [h.pending target hknown hout, Topology.count_successors] at heq
        exact countP_not_mem_eq_zero.mp (by omega) source (Topology.mem_predecessors.mpr hs)
    · intro ⟨hknown, hout, hall⟩
      by_cases hlink : target ∈ topology.successors id
      · -- the counter has to come down to zero with the last link from `id`
        refine Or.inr ⟨hlink, hout, ?_⟩
        have hsplit := countP_not_mem_cons hid (topology.predecessors target)
        have hzero := countP_not_mem_eq_zero.mpr fun source hs =>
          hall source (Topology.mem_predecessors.mp hs)
        rw [h.pending target hknown hout, Topology.count_successors]
        omega
      · refine Or.inl ⟨hknown, hout, fun source hs => ?_⟩
        refine (List.mem_cons.mp (hall source hs)).resolve_left fun heq => hlink ?_
        exact Topology.mem_successors.mpr (heq ▸ hs)

/-- **Marking nodes as settled keeps the invariant.** They have left the queue if they were in it: `ready` is
what remains of the queue. -/
theorem Counts.mark {delivered : List String} {order : Order} (h : Counts topology delivered order)
    {batch ready : List String} (hnd : ready.Nodup)
    (hready : ∀ id, id ∈ ready ↔ id ∈ order.ready ∧ id ∉ batch) :
    Counts topology delivered { order with ready, settled := batch ++ order.settled } where
  pending := by
    intro id hid hset
    exact h.pending id hid fun hs => hset (List.mem_append_right _ hs)
  ready := by
    intro id
    rw [hready id, h.ready id, List.mem_append, not_or]
    exact ⟨fun ⟨⟨h1, h2, h3⟩, h4⟩ => ⟨h1, ⟨h4, h2⟩, h3⟩,
      fun ⟨h1, ⟨h4, h2⟩, h3⟩ => ⟨⟨h1, h2, h3⟩, h4⟩⟩
  nodup := hnd

theorem settled_deliveries (order : Order) (batch : List String) :
    (batch.foldl (deliver topology) order).settled = order.settled := by
  induction batch generalizing order with
  | nil => rfl
  | cons id rest ih => rw [List.foldl_cons, ih, deliver, settled_arrivals]

/-- Delivering several nodes, one after the other, keeps the invariant. -/
theorem Counts.deliveries (hw : topology.WellFormed) {delivered batch : List String} {order : Order}
    (h : Counts topology delivered order) (hnd : batch.Nodup) (hout : ∀ id ∈ batch, id ∉ delivered) :
    Counts topology (batch.reverse ++ delivered) (batch.foldl (Order.deliver topology) order) := by
  induction batch generalizing order delivered with
  | nil => exact h
  | cons id rest ih =>
      obtain ⟨hid, hrest⟩ := List.nodup_cons.mp hnd
      rw [List.foldl_cons, List.reverse_cons, List.append_assoc]
      refine ih (h.deliver hw (hout id (List.mem_cons_self ..))) hrest ?_
      intro other hother hmem
      rcases List.mem_cons.mp hmem with heq | hmem
      · exact hid (heq ▸ hother)
      · exact hout other (List.mem_cons_of_mem _ hother) hmem

/-! ## Between two settlements -/

/-- Everything that is settled has been delivered. -/
structure Balanced (topology : Topology) (order : Order) : Prop where
  /-- The counters are right. -/
  counts : Counts topology order.settled order
  /-- What is settled is in the topology. -/
  known : ∀ id ∈ order.settled, id ∈ topology.ids
  /-- No node is settled twice. -/
  distinct : order.settled.Nodup

theorem balanced_start (hw : topology.WellFormed) : Balanced topology (start topology) where
  counts :=
    { pending := by
        intro id hid _
        unfold pendingOf start
        rw [Keyed.get?_ofList_map (fun id => (topology.predecessors id).length), if_pos hid]
        simp
      ready := by
        intro id
        unfold start
        rw [List.mem_filter, List.isEmpty_iff, List.eq_nil_iff_forall_not_mem]
        simp [Topology.mem_predecessors]
      nodup := hw.distinct.filter _ }
  known := by intro id hid; simp [start] at hid
  distinct := List.nodup_nil

theorem settled_settle (order : Order) (batch : List String) :
    (settle topology order batch).settled = batch ++ order.settled :=
  settled_deliveries _ batch

/--
**Settling some nodes keeps the balance.**

The nodes are not settled yet, and `ready` is what remains of the queue without them.
-/
theorem Balanced.settle (hw : topology.WellFormed) {order : Order} (h : Balanced topology order)
    {batch ready : List String} (hnd : batch.Nodup) (hout : ∀ id ∈ batch, id ∉ order.settled)
    (hknown : ∀ id ∈ batch, id ∈ topology.ids) (hrnd : ready.Nodup)
    (hready : ∀ id, id ∈ ready ↔ id ∈ order.ready ∧ id ∉ batch) :
    Balanced topology (Order.settle topology { order with ready } batch) := by
  have hmarked := h.counts.mark hrnd hready
  refine ⟨?_, ?_, ?_⟩
  · rw [settled_settle]
    refine (hmarked.deliveries hw hnd hout).congr fun id => ?_
    simp
  · intro id hid
    rw [settled_settle] at hid
    rcases List.mem_append.mp hid with hnew | hold
    · exact hknown id hnew
    · exact h.known id hold
  · rw [settled_settle]
    refine List.nodup_append.mpr ⟨hnd, h.distinct, ?_⟩
    intro a ha b hb heq
    subst heq
    exact hout a ha hb

end DecisionGraph.Order
