import DecisionGraph.Proofs.Topology.Links
import DecisionGraph.Topology.Reach
import Mathlib.Data.List.Perm.Subperm

/-!
# The walk finds what can be reached

`Topology.walk` keeps a list of nodes that it has reached and a queue of those whose successors it
has not looked at. `Walking` is its invariant: what is reached and no longer queued has all its
successors among the reached ones, and the rounds that are left suffice, since every round takes one
node off the queue and every node that joins the queue is new.

From this:

* **`mem_downstream`**: `downstream` gives exactly the nodes that links lead to from a seed.
* **`isCyclic_iff`** and **`mem_component`**: cycles and components, likewise.
* **`mem_flatten_cycles`** and **`nodup_flatten_cycles`**: the cycles are disjoint, and together they
  hold exactly the nodes that lie on one.
-/

namespace DecisionGraph.Topology

open Relation

variable {topology : Topology}

/-- The invariant of a walk with `room` rounds left. -/
structure Walking (topology : Topology) (room : Nat) (reached queue : List String) : Prop where
  /-- No node is reached twice. -/
  nodup : reached.Nodup
  /-- What is reached is in the topology. -/
  known : ∀ id ∈ reached, id ∈ topology.ids
  /-- What is queued has been reached. -/
  queued : ∀ id ∈ queue, id ∈ reached
  /-- The successors of what is not queued any more have been reached, too. -/
  done : ∀ id ∈ reached, id ∉ queue → ∀ next, topology.Linked id next → next ∈ reached
  /-- Every node that is queued now or reached later has its round. -/
  room : queue.length + topology.ids.length ≤ room + reached.length

/-- Without rounds left there is nothing left to do. -/
theorem Walking.queue_eq_nil {reached queue : List String} (h : Walking topology 0 reached queue) :
    queue = [] := by
  have hle : reached.length ≤ topology.ids.length := (List.subperm_of_subset h.nodup h.known).length_le
  have hroom := h.room
  exact List.eq_nil_of_length_eq_zero (by omega)

/-- The successors of a node that a round adds. -/
theorem mem_fresh {reached : List String} {id next : String} :
    next ∈ (topology.successors id).eraseDups.filter (· ∉ reached)
      ↔ topology.Linked id next ∧ next ∉ reached := by
  rw [List.mem_filter, List.mem_eraseDups, mem_successors, decide_eq_true_eq]

/-- **A round keeps the invariant.** -/
theorem Walking.next (hw : topology.WellFormed) {room : Nat} {reached queue : List String}
    {id : String} (h : Walking topology (room + 1) reached (id :: queue)) :
    Walking topology room
      (reached ++ (topology.successors id).eraseDups.filter (· ∉ reached))
      (queue ++ (topology.successors id).eraseDups.filter (· ∉ reached)) where
  nodup := by
    refine List.nodup_append.mpr ⟨h.nodup, (nodup_eraseDups _).filter _, ?_⟩
    intro a ha b hb heq
    subst heq
    exact (mem_fresh.mp hb).2 ha
  known := by
    -- this is where links have to end in the topology
    intro other hother
    rcases List.mem_append.mp hother with hold | hnew
    · exact h.known other hold
    · exact hw.target_mem (mem_fresh.mp hnew).1
  queued := by
    intro other hother
    rcases List.mem_append.mp hother with hold | hnew
    · exact List.mem_append_left _ (h.queued other (List.mem_cons_of_mem _ hold))
    · exact List.mem_append_right _ hnew
  done := by
    intro other hother hout next hlink
    by_cases hr : next ∈ reached
    · exact List.mem_append_left _ hr
    · refine List.mem_append_right _ (mem_fresh.mpr ⟨?_, hr⟩)
      rcases List.mem_append.mp hother with hold | hnew
      · -- a node that was done before has no successor that is new
        by_cases heq : other = id
        · exact heq ▸ hlink
        · have hq : other ∉ id :: queue := by
            rw [List.mem_cons, not_or]
            exact ⟨heq, fun hq => hout (List.mem_append_left _ hq)⟩
          exact absurd (h.done other hold hq next hlink) hr
      · exact absurd (List.mem_append_right _ hnew) hout
  room := by
    have hroom := h.room
    simp only [List.length_cons, List.length_append] at hroom ⊢
    omega

theorem subset_walk (room : Nat) (reached queue : List String) :
    ∀ id ∈ reached, id ∈ walk topology room reached queue := by
  fun_induction walk topology room reached queue with
  | case1 => exact fun _ h => h
  | case2 => exact fun _ h => h
  | case3 room reached id queue fresh ih =>
      exact fun other h => ih other (List.mem_append_left _ h)

/-- What a walk finds can be reached. -/
theorem walk_sound {room : Nat} {reached queue : List String} (hq : ∀ id ∈ queue, id ∈ reached) :
    ∀ id ∈ walk topology room reached queue, ∃ seed ∈ reached, ReflTransGen topology.Linked seed id := by
  fun_induction walk topology room reached queue with
  | case1 => exact fun id h => ⟨id, h, .refl⟩
  | case2 => exact fun id h => ⟨id, h, .refl⟩
  | case3 room reached id queue fresh ih =>
      intro other hother
      have hq' : ∀ id ∈ queue ++ fresh, id ∈ reached ++ fresh := by
        intro next hnext
        rcases List.mem_append.mp hnext with hold | hnew
        · exact List.mem_append_left _ (hq next (List.mem_cons_of_mem _ hold))
        · exact List.mem_append_right _ hnew
      obtain ⟨seed, hseed, hpath⟩ := ih hq' other hother
      rcases List.mem_append.mp hseed with hold | hnew
      · exact ⟨seed, hold, hpath⟩
      · -- a new seed hangs below the node of this round
        exact ⟨id, hq id (List.mem_cons_self ..), .head (mem_fresh.mp hnew).1 hpath⟩

/-- A walk stops only when it has looked at everything. -/
theorem walk_closed (hw : topology.WellFormed) {room : Nat} {reached queue : List String}
    (h : Walking topology room reached queue) {id next : String}
    (hid : id ∈ walk topology room reached queue) (hlink : topology.Linked id next) :
    next ∈ walk topology room reached queue := by
  fun_induction walk topology room reached queue with
  | case1 reached queue =>
      -- out of rounds, but then there is nothing left in the queue
      have hnil := h.queue_eq_nil
      subst hnil
      exact h.done id hid (by simp) next hlink
  | case2 room reached => exact h.done id hid (by simp) next hlink
  | case3 room reached other queue fresh ih => exact ih (h.next hw) hid

/-- The walk starts with the seeds that are in the topology, all of them queued. -/
theorem walking_start (topology : Topology) (seeds : List String) :
    Walking topology topology.ids.length (seeds.eraseDups.filter (· ∈ topology.ids))
      (seeds.eraseDups.filter (· ∈ topology.ids)) where
  nodup := (nodup_eraseDups _).filter _
  known := fun _ hid => of_decide_eq_true (List.mem_filter.mp hid).2
  queued := fun _ hid => hid
  done := fun _ hid hout => absurd hid hout
  room := by omega

/-- **Downstream of some nodes is what links lead to from one of them.** -/
theorem mem_downstream (hw : topology.WellFormed) {seeds : List String} {id : String} :
    id ∈ topology.downstream seeds
      ↔ ∃ seed ∈ seeds, seed ∈ topology.ids ∧ ReflTransGen topology.Linked seed id := by
  have hstart : ∀ seed, seed ∈ seeds.eraseDups.filter (· ∈ topology.ids)
      ↔ seed ∈ seeds ∧ seed ∈ topology.ids := by
    intro seed
    rw [List.mem_filter, List.mem_eraseDups, decide_eq_true_eq]
  unfold downstream
  constructor
  · intro h
    obtain ⟨seed, hseed, hpath⟩ := walk_sound (fun _ hq => hq) id h
    exact ⟨seed, ((hstart seed).mp hseed).1, ((hstart seed).mp hseed).2, hpath⟩
  · intro ⟨seed, hseed, hknown, hpath⟩
    induction hpath with
    | refl => exact subset_walk _ _ _ seed ((hstart seed).mpr ⟨hseed, hknown⟩)
    | tail _ hlink ih => exact walk_closed hw (walking_start topology seeds) ih hlink

/-! ## Cycles and components

What the search for cycles is to find, said with `downstream`: a node lies on a cycle if it lies
downstream of one of its own successors, and the nodes of its cycle are those that it reaches and
that reach it.
-/

/-- Whether the node with an id can be reached from itself along one link at least. -/
def isCyclic (topology : Topology) (id : String) : Bool :=
  id ∈ topology.downstream (topology.successors id)

/-- The nodes that reach the node with an id and are reached from it, in the order of the nodes. -/
def component (topology : Topology) (id : String) : List String :=
  let below := topology.downstream [id]
  topology.ids.filter fun other => other ∈ below ∧ id ∈ topology.downstream [other]

/-- The sets of nodes that lie on cycles together, in the order of their first nodes. -/
def cycles (topology : Topology) : List (List String) :=
  ((topology.ids.filter topology.isCyclic).map topology.component).eraseDups

/-- Links lead from either node to the other. -/
def Together (topology : Topology) (a b : String) : Prop :=
  ReflTransGen topology.Linked a b ∧ ReflTransGen topology.Linked b a

theorem Together.refl (id : String) : topology.Together id id := ⟨.refl, .refl⟩

theorem Together.symm {a b : String} (h : topology.Together a b) : topology.Together b a :=
  ⟨h.2, h.1⟩

theorem Together.trans {a b c : String} (h : topology.Together a b) (h' : topology.Together b c) :
    topology.Together a c :=
  ⟨h.1.trans h'.1, h'.2.trans h.2⟩

/-- What goes together with a node on a cycle lies on a cycle. -/
theorem Together.onCycle {a b : String} (h : topology.Together a b)
    (ha : TransGen topology.Linked a a) : TransGen topology.Linked b b :=
  .trans_right h.2 (ha.trans_left h.1)

/-- A node on a cycle has a predecessor on the same cycle. -/
theorem exists_linked_together {id : String} (h : TransGen topology.Linked id id) :
    ∃ source, topology.Linked source id ∧ topology.Together id source := by
  obtain ⟨source, hpath, hlink⟩ := TransGen.tail'_iff.mp h
  exact ⟨source, hlink, hpath, .single hlink⟩

theorem mem_ids_of_onCycle (hw : topology.WellFormed) {id : String}
    (h : TransGen topology.Linked id id) : id ∈ topology.ids := by
  obtain ⟨_, hlink, _⟩ := exists_linked_together h
  exact hw.target_mem hlink

/-- **A node is cyclic if links lead from it back to it.** -/
theorem isCyclic_iff (hw : topology.WellFormed) {id : String} :
    topology.isCyclic id = true ↔ TransGen topology.Linked id id := by
  unfold isCyclic
  rw [decide_eq_true_eq, mem_downstream hw, TransGen.head'_iff]
  constructor
  · intro ⟨next, hnext, _, hpath⟩
    exact ⟨next, mem_successors.mp hnext, hpath⟩
  · intro ⟨next, hlink, hpath⟩
    exact ⟨next, mem_successors.mpr hlink, hw.target_mem hlink, hpath⟩

/-- **The component of a node is what goes together with it.** -/
theorem mem_component (hw : topology.WellFormed) {id other : String} (hid : id ∈ topology.ids) :
    other ∈ topology.component id ↔ other ∈ topology.ids ∧ topology.Together id other := by
  have hbelow : ∀ {a b : String}, a ∈ topology.ids →
      (b ∈ topology.downstream [a] ↔ ReflTransGen topology.Linked a b) := by
    intro a b ha
    rw [mem_downstream hw]
    simp [ha]
  unfold component Together
  simp only [List.mem_filter, decide_eq_true_eq]
  refine and_congr_right fun hother => ?_
  rw [hbelow hid, hbelow hother]

/-- Nodes that go together have one component. -/
theorem Together.component_eq (hw : topology.WellFormed) {a b : String}
    (h : topology.Together a b) (ha : a ∈ topology.ids) (hb : b ∈ topology.ids) :
    topology.component a = topology.component b := by
  have hmem : ∀ other, other ∈ topology.component a ↔ other ∈ topology.component b := by
    intro other
    rw [mem_component hw ha, mem_component hw hb]
    exact and_congr_right fun _ => ⟨h.symm.trans, h.trans⟩
  unfold component at hmem ⊢
  refine List.filter_congr fun other hother => decide_eq_decide.mpr ?_
  simpa [hother] using hmem other

theorem component_sublist (topology : Topology) (id : String) :
    (topology.component id).Sublist topology.ids := List.filter_sublist

theorem nodup_cycles (topology : Topology) : topology.cycles.Nodup := nodup_eraseDups _

theorem mem_cycles (hw : topology.WellFormed) {cycle : List String} :
    cycle ∈ topology.cycles
      ↔ ∃ id, TransGen topology.Linked id id ∧ topology.component id = cycle := by
  unfold cycles
  rw [List.mem_eraseDups, List.mem_map]
  simp only [List.mem_filter, isCyclic_iff hw]
  exact ⟨fun ⟨id, ⟨_, h⟩, heq⟩ => ⟨id, h, heq⟩,
    fun ⟨id, h, heq⟩ => ⟨id, ⟨mem_ids_of_onCycle hw h, h⟩, heq⟩⟩

/-- The cycle that a node lies on is the component of that node. -/
theorem cycle_eq_component (hw : topology.WellFormed) {cycle : List String} {id : String}
    (hcycle : cycle ∈ topology.cycles) (hid : id ∈ cycle) :
    TransGen topology.Linked id id ∧ cycle = topology.component id := by
  obtain ⟨first, hfirst, rfl⟩ := (mem_cycles hw).mp hcycle
  have hf := mem_ids_of_onCycle hw hfirst
  obtain ⟨hmem, htogether⟩ := (mem_component hw hf).mp hid
  exact ⟨htogether.onCycle hfirst, htogether.component_eq hw hf hmem⟩

/-- **The cycles hold the nodes that lie on one.** -/
theorem mem_flatten_cycles (hw : topology.WellFormed) {id : String} :
    id ∈ topology.cycles.flatten ↔ TransGen topology.Linked id id := by
  rw [List.mem_flatten]
  constructor
  · intro ⟨cycle, hcycle, hid⟩
    exact (cycle_eq_component hw hcycle hid).1
  · intro h
    have hid := mem_ids_of_onCycle hw h
    exact ⟨topology.component id, (mem_cycles hw).mpr ⟨id, h, rfl⟩,
      (mem_component hw hid).mpr ⟨hid, .refl id⟩⟩

/-- **No two cycles share a node, and none has a node twice.** -/
theorem nodup_flatten_cycles (hw : topology.WellFormed) : topology.cycles.flatten.Nodup := by
  refine List.nodup_flatten.mpr ⟨?_, ?_⟩
  · intro cycle hcycle
    obtain ⟨id, _, rfl⟩ := (mem_cycles hw).mp hcycle
    exact hw.distinct.sublist (component_sublist topology id)
  · refine (nodup_cycles topology).imp_of_mem ?_
    intro a b ha hb hne id hida hidb
    exact hne ((cycle_eq_component hw ha hida).2.trans (cycle_eq_component hw hb hidb).2.symm)

end DecisionGraph.Topology
