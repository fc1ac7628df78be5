import DecisionGraph.Proofs.Topology.Complete
import DecisionGraph.Proofs.Topology.Counting
import Mathlib.Data.Fintype.EquivFin
import Mathlib.Data.Fintype.Sets
import Mathlib.Order.WellFounded

/-!
# Schedules are sound and complete

A *run* settles nodes one by one, each when all its sources are settled. `Order.drain` makes runs
(`drain_spec`), and it stops only when no node is ready any more.

What can be left then? A node that is not settled has a source that is not settled either, and that
one has another. There are finitely many nodes, so some of them form a cycle. Hence the first run
leaves nothing but cycles and what lies below them; and once all cycles are settled the second run
leaves nothing at all. No node of a cycle is ever part of a run, since its source on the cycle would
have to come first.

`Topology.schedule_sound` puts this together. `Graph.flow_induction` is what it gives to proofs about the
data that flows along the links.
-/

namespace DecisionGraph

open Relation

namespace Topology

variable {topology : Topology}

/-! ## Runs -/

/-- Nodes that can be settled in this order when `settled` are settled already. -/
def Runs (topology : Topology) : List String → List String → Prop
  | _, [] => True
  | settled, id :: rest => id ∈ topology.ids ∧ id ∉ settled
      ∧ (∀ source, topology.Linked source id → source ∈ settled) ∧ Runs topology (id :: settled) rest

/-- Only which nodes are settled matters to a run. -/
theorem Runs.congr {settled settled' batch : List String} (h : topology.Runs settled batch)
    (hmem : ∀ id, id ∈ settled ↔ id ∈ settled') : topology.Runs settled' batch := by
  induction batch generalizing settled settled' with
  | nil => trivial
  | cons id rest ih =>
      obtain ⟨hknown, hout, hsources, hrest⟩ := h
      refine ⟨hknown, fun hid => hout ((hmem id).mpr hid),
        fun source hs => (hmem source).mp (hsources source hs), ih hrest fun other => ?_⟩
      rw [List.mem_cons, List.mem_cons, hmem other]

/-- A run settles nothing twice. -/
theorem Runs.not_mem {settled batch : List String} (h : topology.Runs settled batch) {id : String}
    (hid : id ∈ settled) : id ∉ batch := by
  induction batch generalizing settled with
  | nil => exact List.not_mem_nil
  | cons first rest ih =>
      obtain ⟨_, hout, _, hrest⟩ := h
      intro hmem
      rcases List.mem_cons.mp hmem with heq | hmem
      · exact hout (heq ▸ hid)
      · exact ih hrest (List.mem_cons_of_mem _ hid) hmem

theorem Runs.known {settled batch : List String} (h : topology.Runs settled batch) :
    ∀ id ∈ batch, id ∈ topology.ids := by
  induction batch generalizing settled with
  | nil => intro id hid; simp at hid
  | cons first rest ih =>
      obtain ⟨hknown, _, _, hrest⟩ := h
      intro id hid
      rcases List.mem_cons.mp hid with heq | hmem
      · exact heq ▸ hknown
      · exact ih hrest id hmem

/-- The sources of what a run settles are settled before it or by it. -/
theorem Runs.source_mem {settled batch : List String} (h : topology.Runs settled batch)
    {source id : String} (hid : id ∈ batch) (hlink : topology.Linked source id) :
    source ∈ settled ∨ source ∈ batch := by
  induction batch generalizing settled with
  | nil => simp at hid
  | cons first rest ih =>
      obtain ⟨_, _, hsources, hrest⟩ := h
      rcases List.mem_cons.mp hid with heq | hid
      · exact Or.inl (hsources source (heq ▸ hlink))
      · rcases ih hrest hid with hs | hs
        · rcases List.mem_cons.mp hs with heq | hs
          · exact Or.inr (heq ▸ List.mem_cons_self ..)
          · exact Or.inl hs
        · exact Or.inr (List.mem_cons_of_mem _ hs)

/-- **A node on a cycle is in no run** unless some node of its cycle was settled before. -/
theorem Runs.not_mem_of_onCycle {settled batch : List String} (h : topology.Runs settled batch)
    {id : String} (hid : TransGen topology.Linked id id)
    (hout : ∀ other, topology.Together id other → other ∉ settled) : id ∉ batch := by
  induction batch generalizing settled with
  | nil => exact List.not_mem_nil
  | cons first rest ih =>
      obtain ⟨_, _, hsources, hrest⟩ := h
      -- the first node is on no cycle with `id`, since its source there is not settled
      have hfirst : ¬topology.Together id first := by
        intro htogether
        obtain ⟨source, hlink, hs⟩ := exists_linked_together (htogether.onCycle hid)
        exact hout source (htogether.trans hs) (hsources source hlink)
      intro hmem
      rcases List.mem_cons.mp hmem with heq | hmem
      · exact hfirst (heq ▸ Together.refl id)
      · refine ih hrest ?_ hmem
        intro other hother hset
        rcases List.mem_cons.mp hset with heq | hset
        · exact hfirst (heq ▸ hother)
        · exact hout other hother hset

/-- What holds of the settled nodes, and of a node whenever it holds of its sources, holds of all nodes
of a run. -/
theorem Runs.forall {settled batch : List String} (h : topology.Runs settled batch)
    {P : String → Prop} (hsettled : ∀ id ∈ settled, P id)
    (hstep : ∀ id ∈ batch, (∀ source, topology.Linked source id → P source) → P id) :
    ∀ id ∈ batch, P id := by
  induction batch generalizing settled with
  | nil => intro id hid; simp at hid
  | cons first rest ih =>
      obtain ⟨_, _, hsources, hrest⟩ := h
      have hfirst : P first :=
        hstep first (List.mem_cons_self ..) fun source hs => hsettled source (hsources source hs)
      have hsettled' : ∀ id ∈ first :: settled, P id := by
        intro id hid
        rcases List.mem_cons.mp hid with heq | hid
        · exact heq ▸ hfirst
        · exact hsettled id hid
      intro id hid
      rcases List.mem_cons.mp hid with heq | hmem
      · exact heq ▸ hfirst
      · exact ih hrest hsettled' (fun other ho => hstep other (List.mem_cons_of_mem _ ho)) id hmem

/-! ## Finitely many nodes with sources among themselves -/

/-- **Going upstream among finitely many nodes leads into a cycle.** -/
theorem exists_onCycle {nodes : List String} (hne : nodes ≠ [])
    (hsource : ∀ id ∈ nodes, ∃ source ∈ nodes, topology.Linked source id) :
    ∃ id ∈ nodes, TransGen topology.Linked id id := by
  refine Classical.byContradiction fun hno => ?_
  have hnone : ∀ id ∈ nodes, ¬TransGen topology.Linked id id :=
    fun id hid hcycle => hno ⟨id, hid, hcycle⟩
  -- without a cycle, "leads to" is well-founded on the nodes, and a first node has no source
  let leads : {id // id ∈ nodes} → {id // id ∈ nodes} → Prop :=
    fun a b => TransGen topology.Linked a.1 b.1
  have : IsTrans _ leads := ⟨fun _ _ _ hab hbc => hab.trans hbc⟩
  have : Std.Irrefl leads := ⟨fun a h => hnone a.1 a.2 h⟩
  have hwf : WellFounded leads := Finite.wellFounded_of_trans_of_irrefl leads
  obtain ⟨start, hstart⟩ := List.exists_mem_of_ne_nil nodes hne
  obtain ⟨first, _, hmin⟩ := hwf.has_min Set.univ ⟨⟨start, hstart⟩, trivial⟩
  obtain ⟨source, hmem, hlink⟩ := hsource first.1 first.2
  exact hmin ⟨source, hmem⟩ trivial (.single hlink)

end Topology

namespace Order

variable {topology : Topology}

/-! ## Draining -/

/-- A node that is ready can be settled at once. -/
theorem Balanced.pop (hw : topology.WellFormed) {order : Order} {id : String} {rest : List String}
    (h : Balanced topology order) (hready : order.ready = id :: rest) :
    Balanced topology (Order.settle topology { order with ready := rest } [id])
      ∧ id ∈ topology.ids ∧ id ∉ order.settled
      ∧ ∀ source, topology.Linked source id → source ∈ order.settled := by
  have hid := (h.counts.ready id).mp (hready ▸ List.mem_cons_self ..)
  have hnd := h.counts.nodup
  rw [hready] at hnd
  obtain ⟨hfirst, hrest⟩ := List.nodup_cons.mp hnd
  refine ⟨h.settle hw (List.nodup_singleton id) ?_ ?_ hrest ?_, hid⟩
  · intro other hother
    rw [List.mem_singleton] at hother
    exact hother ▸ hid.2.1
  · intro other hother
    rw [List.mem_singleton] at hother
    exact hother ▸ hid.1
  · intro other
    rw [hready, List.mem_singleton, List.mem_cons]
    constructor
    · intro hmem
      exact ⟨Or.inr hmem, fun heq => hfirst (heq ▸ hmem)⟩
    · intro hmem
      exact hmem.1.resolve_left hmem.2

/-- Nothing is ready when everything is settled. -/
theorem Balanced.ready_eq_nil {order : Order} (h : Balanced topology order)
    (hle : topology.ids.length ≤ order.settled.length) : order.ready = [] := by
  have hperm : order.settled.Perm topology.ids :=
    (List.subperm_of_subset h.distinct h.known).perm_of_length_le hle
  refine List.eq_nil_iff_forall_not_mem.mpr fun id hid => ?_
  obtain ⟨hknown, hout, _⟩ := (h.counts.ready id).mp hid
  exact hout (hperm.mem_iff.mpr hknown)

/-- **Draining makes a run, and leaves no node that is ready.** There is room for every node that is
not settled yet. -/
theorem drain_spec (hw : topology.WellFormed) (room : Nat) {order : Order}
    (h : Balanced topology order) (hroom : topology.ids.length ≤ room + order.settled.length) :
    topology.Runs order.settled (drain topology room order).1
      ∧ Balanced topology (drain topology room order).2
      ∧ (drain topology room order).2.ready = []
      ∧ (drain topology room order).2.settled
          = (drain topology room order).1.reverse ++ order.settled := by
  induction room generalizing order with
  | zero => exact ⟨trivial, h, h.ready_eq_nil (by omega), rfl⟩
  | succ room ih =>
      unfold drain
      split
      · rename_i hready
        exact ⟨trivial, h, hready, rfl⟩
      · rename_i id rest hready
        obtain ⟨hnext, hknown, hout, hsources⟩ := h.pop hw hready
        have hset : (Order.settle topology { order with ready := rest } [id]).settled
            = id :: order.settled := settled_settle ..
        obtain ⟨hruns, hbal, hnil, hfinal⟩ := ih hnext (by rw [hset, List.length_cons]; omega)
        rw [hset] at hruns hfinal
        refine ⟨⟨hknown, hout, hsources, hruns⟩, hbal, hnil, ?_⟩
        rw [hfinal, List.reverse_cons, List.append_assoc]
        rfl

/-- A node that has a source among nodes that are not settled is not ready. -/
theorem Balanced.not_ready {order : Order} (h : Balanced topology order) {id source : String}
    (hlink : topology.Linked source id) (hout : source ∉ order.settled) : id ∉ order.ready :=
  fun hready => hout (((h.counts.ready id).mp hready).2.2 source hlink)

/-- **Settling cycles one after the other keeps the balance**, and none of their nodes becomes ready
meanwhile. All that is asked of a cycle is that each of its nodes has a source on it. -/
theorem Balanced.settle_cycles (hw : topology.WellFormed) {cycles : List (List String)}
    {order : Order} (h : Balanced topology order) (hnd : cycles.flatten.Nodup)
    (hout : ∀ id ∈ cycles.flatten, id ∉ order.settled)
    (hcycle : ∀ cycle ∈ cycles, ∀ id ∈ cycle, ∃ source ∈ cycle, topology.Linked source id) :
    Balanced topology (cycles.foldl (Order.settle topology) order)
      ∧ ∀ id, id ∈ (cycles.foldl (Order.settle topology) order).settled
          ↔ id ∈ cycles.flatten ∨ id ∈ order.settled := by
  induction cycles generalizing order with
  | nil => exact ⟨h, fun id => by simp⟩
  | cons cycle rest ih =>
      rw [List.flatten_cons] at hnd hout
      obtain ⟨hfirst, hrest, hapart⟩ := List.nodup_append.mp hnd
      have hmem : cycle ∈ cycle :: rest := List.mem_cons_self ..
      have hout' : ∀ id ∈ cycle, id ∉ order.settled :=
        fun id hid => hout id (List.mem_append_left _ hid)
      have hnext : Balanced topology (Order.settle topology order cycle) := by
        have hknown : ∀ id ∈ cycle, id ∈ topology.ids := by
          intro id hid
          obtain ⟨source, _, hlink⟩ := hcycle cycle hmem id hid
          exact hw.target_mem hlink
        have hready : ∀ id, id ∈ order.ready ↔ id ∈ order.ready ∧ id ∉ cycle := by
          intro id
          refine ⟨fun hready => ⟨hready, fun hid => ?_⟩, And.left⟩
          obtain ⟨source, hs, hlink⟩ := hcycle cycle hmem id hid
          exact h.not_ready hlink (hout' source hs) hready
        exact h.settle hw hfirst hout' hknown h.counts.nodup hready
      have hset : (Order.settle topology order cycle).settled = cycle ++ order.settled :=
        settled_settle ..
      have hrout : ∀ id ∈ rest.flatten, id ∉ (Order.settle topology order cycle).settled := by
        intro id hid hs
        rw [hset] at hs
        rcases List.mem_append.mp hs with hc | ho
        · exact hapart id hc id hid rfl
        · exact hout id (List.mem_append_right _ hid) ho
      obtain ⟨hbal, hsettled⟩ := ih hnext hrest hrout
        fun other ho => hcycle other (List.mem_cons_of_mem _ ho)
      refine ⟨hbal, fun id => (hsettled id).trans ?_⟩
      rw [hset, List.flatten_cons, List.mem_append, List.mem_append]
      exact or_left_comm.trans or_assoc.symm

/-- **When no node is ready and every cycle is settled, everything is settled.** -/
theorem Balanced.complete {order : Order} (h : Balanced topology order) (hready : order.ready = [])
    (hcycle : ∀ id, TransGen topology.Linked id id → id ∈ order.settled) (hw : topology.WellFormed) :
    ∀ id ∈ topology.ids, id ∈ order.settled := by
  refine Classical.byContradiction fun hno => ?_
  -- the nodes that are left have sources among themselves
  have hleft : ∀ id, id ∈ topology.ids.filter (· ∉ order.settled)
      ↔ id ∈ topology.ids ∧ id ∉ order.settled := by
    intro id
    rw [List.mem_filter, decide_eq_true_eq]
  have hsource : ∀ id ∈ topology.ids.filter (· ∉ order.settled),
      ∃ source ∈ topology.ids.filter (· ∉ order.settled), topology.Linked source id := by
    intro id hid
    obtain ⟨hknown, hout⟩ := (hleft id).mp hid
    refine Classical.byContradiction fun hnone => ?_
    have hin : id ∈ order.ready := by
      refine (h.counts.ready id).mpr ⟨hknown, hout, fun source hlink => ?_⟩
      refine Classical.byContradiction fun hs => hnone ⟨source, ?_, hlink⟩
      exact (hleft source).mpr ⟨hw.source_mem hlink, hs⟩
    rw [hready] at hin
    simp at hin
  have hne : topology.ids.filter (· ∉ order.settled) ≠ [] := by
    intro hnil
    refine hno fun id hid => Classical.byContradiction fun hout => ?_
    have hmem := (hleft id).mpr ⟨hid, hout⟩
    rw [hnil] at hmem
    simp at hmem
  obtain ⟨id, hid, hc⟩ := Topology.exists_onCycle hne hsource
  exact ((hleft id).mp hid).2 (hcycle id hc)

end Order

namespace Topology

variable {topology : Topology}

/-! ## Schedules -/

/-- What a schedule owes to a topology. -/
structure Sound (topology : Topology) (schedule : Schedule) : Prop where
  /-- The first nodes come each after its sources. -/
  before : topology.Runs [] schedule.before
  /-- The cycles are those of the topology. -/
  cycles : schedule.cycles.Perm topology.cycles
  /-- No node of a cycle comes before the cycles. -/
  apart : ∀ id ∈ schedule.before, ¬TransGen topology.Linked id id
  /-- The last nodes come each after its sources, too. -/
  after : topology.Runs (schedule.cycles.flatten ++ schedule.before) schedule.after
  /-- No node is left out. -/
  complete : ∀ id ∈ topology.ids,
    id ∈ schedule.before ∨ id ∈ schedule.cycles.flatten ∨ id ∈ schedule.after

/-- No node of a cycle is part of a run that starts with nothing settled. -/
theorem Runs.apart {batch : List String} (h : topology.Runs [] batch) {id : String}
    (hid : id ∈ batch) : ¬TransGen topology.Linked id id :=
  fun hc => h.not_mem_of_onCycle hc (fun _ _ => List.not_mem_nil) hid

/-- After such a run the search finds the cycles of the topology. -/
theorem Runs.findCycles (hw : topology.WellFormed) {batch settled : List String}
    (h : topology.Runs [] batch) (hmem : ∀ id, id ∈ settled ↔ id ∈ batch) :
    (topology.findCycles settled).Perm topology.cycles := by
  refine findCycles_perm hw ?_ fun id hc hid => h.apart ((hmem id).mp hid) hc
  intro source target hlink htarget
  have hsource := h.source_mem ((hmem target).mp htarget) hlink
  exact (hmem source).mpr (hsource.resolve_left List.not_mem_nil)

/-- Every node of a cycle has a source on it. -/
theorem exists_source_mem (hw : topology.WellFormed) {cycle : List String}
    (hcycle : cycle ∈ topology.cycles) {id : String} (hid : id ∈ cycle) :
    ∃ source ∈ cycle, topology.Linked source id := by
  obtain ⟨hon, heq⟩ := cycle_eq_component hw hcycle hid
  obtain ⟨source, hlink, htogether⟩ := exists_linked_together hon
  rw [heq]
  exact ⟨source, (mem_component hw (mem_ids_of_onCycle hw hon)).mpr
    ⟨hw.source_mem hlink, htogether⟩, hlink⟩

/-- **The schedule of a topology is sound.** -/
theorem schedule_sound (hw : topology.WellFormed) : topology.Sound topology.schedule := by
  unfold schedule
  -- the first run
  obtain ⟨hruns, hbal, _, hset⟩ :=
    Order.drain_spec hw topology.ids.length (Order.balanced_start hw) (by omega)
  have hstart : (Order.start topology).settled = [] := rfl
  rw [hstart] at hruns hset
  generalize Order.drain topology topology.ids.length (Order.start topology) = first
    at hruns hbal hset ⊢
  obtain ⟨before, stalled⟩ := first
  dsimp only at hruns hbal hset ⊢
  have hsettled : ∀ id, id ∈ stalled.settled ↔ id ∈ before := by
    intro id
    rw [hset, List.append_nil, List.mem_reverse]
  -- the cycles
  have hcycles := hruns.findCycles hw hsettled
  generalize topology.findCycles stalled.settled = cycles at hcycles ⊢
  have hmem : ∀ id, id ∈ cycles.flatten ↔ TransGen topology.Linked id id :=
    fun id => hcycles.flatten.mem_iff.trans (mem_flatten_cycles hw)
  obtain ⟨hbal', hsettled'⟩ := hbal.settle_cycles hw
    (hcycles.flatten.nodup_iff.mpr (nodup_flatten_cycles hw))
    (fun id hid hs => hruns.apart ((hsettled id).mp hs) ((hmem id).mp hid))
    fun cycle hc id hid => exists_source_mem hw (hcycles.mem_iff.mp hc) hid
  -- the second run
  obtain ⟨hruns', hbal'', hready, hset'⟩ :=
    Order.drain_spec hw topology.ids.length hbal' (by omega)
  refine ⟨hruns, hcycles, fun id hid => hruns.apart hid, ?_, ?_⟩
  · refine hruns'.congr fun id => ?_
    rw [hsettled', hsettled, List.mem_append]
  · intro id hid
    have hdone := hbal''.complete hready ?_ hw id hid
    · rw [hset', List.mem_append, hsettled', hsettled, List.mem_reverse] at hdone
      rcases hdone with ha | hc | hb
      · exact Or.inr (Or.inr ha)
      · exact Or.inr (Or.inl hc)
      · exact Or.inl hb
    · intro other hc
      rw [hset', List.mem_append, hsettled']
      exact Or.inr (Or.inl ((hmem other).mpr hc))

/-- The nodes of the cycles in the schedule of a graph are those that lie on a cycle. -/
theorem mem_scheduled_cycles {graph : Graph} {id : String} :
    id ∈ (ofGraph graph).schedule.cycles.flatten ↔ graph.OnCycle id := by
  have hw := ofGraph_wellFormed graph
  rw [(schedule_sound hw).cycles.flatten.mem_iff, mem_flatten_cycles hw, ofGraph_linked]
  rfl

end Topology

/--
**Induction along the flow of data.**

What holds of every node on a cycle, and of any other node as soon as it holds of all nodes that feed
it, holds of all nodes.
-/
theorem Graph.flow_induction {graph : Graph} {P : String → Prop}
    (hcycle : ∀ id, graph.OnCycle id → P id)
    (hstep : ∀ id ∈ graph.nodeIds, ¬graph.OnCycle id → (∀ source, graph.Feeds source id → P source) →
      P id) :
    ∀ id ∈ graph.nodeIds, P id := by
  have hs := Topology.schedule_sound (Topology.ofGraph_wellFormed graph)
  have hstep' : ∀ id ∈ graph.nodeIds,
      (∀ source, (Topology.ofGraph graph).Linked source id → P source) → P id := by
    intro id hid hsources
    rw [Topology.ofGraph_linked] at hsources
    rcases Classical.em (graph.OnCycle id) with hc | hc
    · exact hcycle id hc
    · exact hstep id hid hc hsources
  have hcycles : ∀ id ∈ (Topology.ofGraph graph).schedule.cycles.flatten, P id := by
    intro id hid
    exact hcycle id (Topology.mem_scheduled_cycles.mp hid)
  have hbefore : ∀ id ∈ (Topology.ofGraph graph).schedule.before, P id :=
    hs.before.forall (by simp) fun id hid =>
      hstep' id (Topology.mem_ofGraph_ids.mp (hs.before.known id hid))
  have hsettled : ∀ id ∈ (Topology.ofGraph graph).schedule.cycles.flatten
      ++ (Topology.ofGraph graph).schedule.before, P id := by
    intro id hid
    rcases List.mem_append.mp hid with h | h
    · exact hcycles id h
    · exact hbefore id h
  have hafter : ∀ id ∈ (Topology.ofGraph graph).schedule.after, P id :=
    hs.after.forall hsettled fun id hid =>
      hstep' id (Topology.mem_ofGraph_ids.mp (hs.after.known id hid))
  intro id hid
  rcases hs.complete id (Topology.mem_ofGraph_ids.mpr hid) with h | h | h
  · exact hbefore id h
  · exact hcycles id h
  · exact hafter id h

end DecisionGraph
