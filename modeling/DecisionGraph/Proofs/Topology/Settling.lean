import DecisionGraph.Proofs.Topology.Schedule

/-!
# Settling, one delivery after the other

`Topology.schedule` says what is settled in which order, and forgets on the way how it found out.
`Settling` is the same computation in single steps, with what has been delivered and what has ever
been ready written down. In a step the next node that is due is delivered; if none is, a cycle is
settled, or the first node that is ready; and when nothing is ready, cycles are looked for, once.
`Settling.run_schedule` says that these steps end with the schedule.

The counters are exact between any two steps (`Settling.Exact`), also while a cycle is being delivered and
others wait for their turn. Why does no node of a cycle become ready meanwhile? As long as a node of a
cycle is not settled, some node before it on the cycle is not settled either: before the cycles are
looked for none of them is settled, and afterwards each waits together with its whole cycle. So the
nodes that become ready lie on no cycle, and **nothing becomes ready twice**.
-/

namespace DecisionGraph

open Relation

/-- How far the settling of all nodes has come. -/
structure Settling where
  order : Order
  /-- The nodes that are settled and still to be delivered, the next one first. -/
  due : List String
  /-- The cycles that are still to be settled, once they have been looked for. -/
  cycles : Option (List (List String))
  delivered : List String
  /-- All that have ever been put into the queue of ready nodes, one after the other. -/
  queued : List String
  /-- What has been settled. -/
  schedule : Schedule

/-- Adds nodes that have been settled one by one, before the cycles are looked for or after that. -/
def Schedule.add (schedule : Schedule) (searched : Bool) (ids : List String) : Schedule :=
  if searched then { schedule with after := schedule.after ++ ids }
  else { schedule with before := schedule.before ++ ids }

theorem Schedule.add_nil (schedule : Schedule) (searched : Bool) : schedule.add searched [] = schedule := by
  cases searched <;> simp [add]

theorem Schedule.add_add (schedule : Schedule) (searched : Bool) (ids others : List String) :
    (schedule.add searched ids).add searched others = schedule.add searched (ids ++ others) := by
  cases searched <;> simp [add]

theorem Schedule.add_perm (schedule : Schedule) (searched : Bool) (id : String) :
    ((schedule.add searched [id]).before ++ (schedule.add searched [id]).after).Perm
      (id :: (schedule.before ++ schedule.after)) := by
  cases searched with
  | false =>
      show (schedule.before ++ [id] ++ schedule.after).Perm _
      rw [List.append_assoc]
      exact List.perm_middle
  | true =>
      show (schedule.before ++ (schedule.after ++ [id])).Perm _
      rw [← List.append_assoc]
      exact List.perm_append_singleton _ _

theorem Schedule.cycles_add (schedule : Schedule) (searched : Bool) (ids : List String) :
    (schedule.add searched ids).cycles = schedule.cycles := by
  cases searched <;> rfl

namespace Settling

section Steps

variable (topology : Topology) (state : Settling)

/-- Nothing is settled, and the nodes are ready that are so from the start. -/
def start : Settling where
  order := .start topology
  due := []
  cycles := none
  delivered := []
  queued := (Order.start topology).ready
  schedule := ⟨[], [], []⟩

/-- Delivers a node that is due. What becomes ready by that comes to stand behind the nodes that are
ready already. -/
def deliver (id : String) (due : List String) : Settling :=
  let order := Order.deliver topology state.order id
  { state with
    order
    due
    delivered := id :: state.delivered
    queued := state.queued ++ order.ready.drop state.order.ready.length }

/-- Settles the nodes of a cycle. -/
def close (cycle : List String) (cycles : List (List String)) : Settling :=
  { state with
    order := { state.order with settled := cycle ++ state.order.settled }
    due := cycle
    cycles := some cycles
    schedule := { state.schedule with cycles := state.schedule.cycles ++ [cycle] } }

/-- Takes a node off the queue and settles it. -/
def take (id : String) (ready : List String) : Settling :=
  { state with
    order := { state.order with ready, settled := [id] ++ state.order.settled }
    due := [id]
    schedule := state.schedule.add state.cycles.isSome [id] }

/-- Looks for the cycles. -/
def search : Settling := { state with cycles := some (topology.findCycles state.order.settled) }

/-- The next thing that is done; nothing, if nothing is due or ready and all cycles are settled. -/
def step : Settling :=
  match state.due, state.cycles, state.order.ready with
  | id :: due, _, _ => state.deliver topology id due
  | [], some (cycle :: cycles), _ => state.close cycle cycles
  | [], _, id :: ready => state.take id ready
  | [], none, [] => state.search topology
  | [], some [], [] => state

/-- The state after so many steps. -/
def run (steps : Nat) : Settling := (step topology)^[steps] (start topology)

end Steps

theorem run_succ (topology : Topology) (steps : Nat) :
    run topology (steps + 1) = (run topology steps).step topology :=
  Function.iterate_succ_apply' ..

section Step

variable {topology : Topology} {state : Settling}

theorem step_of_due {id : String} {due : List String} (hdue : state.due = id :: due) :
    state.step topology = state.deliver topology id due := by
  simp only [step, hdue]

theorem step_of_cycle {cycle : List String} {cycles : List (List String)} (hdue : state.due = [])
    (hcycles : state.cycles = some (cycle :: cycles)) : state.step topology = state.close cycle cycles := by
  simp only [step, hdue, hcycles]

theorem step_of_ready {id : String} {ready : List String} (hdue : state.due = [])
    (hcycles : state.cycles = none ∨ state.cycles = some []) (hready : state.order.ready = id :: ready) :
    state.step topology = state.take id ready := by
  rcases hcycles with hcycles | hcycles <;> simp only [step, hdue, hcycles, hready]

theorem step_of_stalled (hdue : state.due = []) (hcycles : state.cycles = none)
    (hready : state.order.ready = []) : state.step topology = state.search topology := by
  simp only [step, hdue, hcycles, hready]

theorem step_of_finished (hdue : state.due = []) (hcycles : state.cycles = some [])
    (hready : state.order.ready = []) : state.step topology = state := by
  simp only [step, hdue, hcycles, hready]

end Step

/-- What a step can do. -/
inductive Does (topology : Topology) (state : Settling) : Settling → Prop
  | deliver {id : String} {due : List String} (hdue : state.due = id :: due) :
      Does topology state (state.deliver topology id due)
  | close {cycle : List String} {cycles : List (List String)} (hdue : state.due = [])
      (hcycles : state.cycles = some (cycle :: cycles)) : Does topology state (state.close cycle cycles)
  | take {id : String} {ready : List String} (hdue : state.due = [])
      (hcycles : state.cycles = none ∨ state.cycles = some []) (hready : state.order.ready = id :: ready) :
      Does topology state (state.take id ready)
  | search (hdue : state.due = []) (hcycles : state.cycles = none) (hready : state.order.ready = []) :
      Does topology state (state.search topology)
  | rest (hdue : state.due = []) (hcycles : state.cycles = some []) (hready : state.order.ready = []) :
      Does topology state state

theorem step_does (topology : Topology) (state : Settling) :
    Does topology state (state.step topology) := by
  have hready_or_rest (hdue : state.due = []) (hcycles : state.cycles = some []) :
      Does topology state (state.step topology) := by
    cases hready : state.order.ready with
    | nil =>
        rw [step_of_finished hdue hcycles hready]
        exact .rest hdue hcycles hready
    | cons id ready =>
        rw [step_of_ready hdue (.inr hcycles) hready]
        exact .take hdue (.inr hcycles) hready
  cases hdue : state.due with
  | cons id due =>
      rw [step_of_due hdue]
      exact .deliver hdue
  | nil =>
      match hcycles : state.cycles with
      | some (cycle :: cycles) =>
          rw [step_of_cycle hdue hcycles]
          exact .close hdue hcycles
      | some [] => exact hready_or_rest hdue hcycles
      | none =>
          cases hready : state.order.ready with
          | nil =>
              rw [step_of_stalled hdue hcycles hready]
              exact .search hdue hcycles hready
          | cons id ready =>
              rw [step_of_ready hdue (.inl hcycles) hready]
              exact .take hdue (.inl hcycles) hready

/-! ## What is settled -/

variable {topology : Topology}

/-- The node is settled after all its sources, and lies on no cycle. -/
structure Followed (topology : Topology) (settled : List String) (id : String) : Prop where
  mem : id ∈ settled
  sources : ∀ source, topology.Linked source id → source ∈ settled
  acyclic : ¬TransGen topology.Linked id id

theorem Followed.append {settled : List String} {id : String} (h : Followed topology settled id)
    (more : List String) : Followed topology (more ++ settled) id where
  mem := List.mem_append_right _ h.mem
  sources := fun source hlink => List.mem_append_right _ (h.sources source hlink)
  acyclic := h.acyclic

/-- What is known of the cycles that are still to be settled. -/
structure Waiting (topology : Topology) (settled : List String) (cycles : List (List String)) : Prop where
  /-- No two of them share a node. -/
  distinct : cycles.flatten.Nodup
  /-- None of their nodes is settled. -/
  unsettled : ∀ id ∈ cycles.flatten, id ∉ settled
  /-- Each node has a source on its cycle. -/
  source : ∀ cycle ∈ cycles, ∀ id ∈ cycle, ∃ source ∈ cycle, topology.Linked source id
  /-- No other nodes on cycles are left. -/
  all : ∀ id, TransGen topology.Linked id id → id ∈ settled ∨ id ∈ cycles.flatten

/-- What is settled, and what is left of the cycles. -/
structure Accounts (topology : Topology) (settled : List String) (cycles : Option (List (List String)))
    (schedule : Schedule) : Prop where
  /-- What was taken off the queue came after its sources. -/
  taken : ∀ id ∈ schedule.before ++ schedule.after, Followed topology settled id
  /-- Nothing was taken off the queue twice. -/
  once : (schedule.before ++ schedule.after).Nodup
  closed : ∀ id ∈ schedule.cycles.flatten, id ∈ settled
  /-- Until the cycles are looked for, nothing is settled that was not taken off the queue. -/
  unsearched : cycles = none → schedule.after = [] ∧ ∀ id ∈ settled, id ∈ schedule.before
  searched : ∀ left ∈ cycles, Waiting topology settled left

namespace Accounts

variable {settled : List String} {cycles : Option (List (List String))} {schedule : Schedule}

/-- **As long as something on a cycle is not settled, some source of it is not settled.** -/
theorem exists_source_not_mem (h : Accounts topology settled cycles schedule) {id : String}
    (hcycle : TransGen topology.Linked id id) (hid : id ∉ settled) :
    ∃ source, topology.Linked source id ∧ source ∉ settled := by
  cases cycles with
  | none =>
      -- nothing on a cycle is settled at all
      obtain ⟨source, hlink, htogether⟩ := Topology.exists_linked_together hcycle
      refine ⟨source, hlink, fun hsettled => ?_⟩
      have hbefore := (h.unsearched rfl).2 source hsettled
      exact (h.taken source (List.mem_append_left _ hbefore)).acyclic (htogether.onCycle hcycle)
  | some left =>
      have hwaiting := h.searched left rfl
      obtain ⟨cycle, hmem, hid⟩ := List.mem_flatten.mp ((hwaiting.all id hcycle).resolve_left hid)
      obtain ⟨source, hsource, hlink⟩ := hwaiting.source cycle hmem id hid
      exact ⟨source, hlink, hwaiting.unsettled source (List.mem_flatten.mpr ⟨cycle, hmem, hsource⟩)⟩

/-- **A node can be settled when its sources are.** It lies on no cycle then. -/
theorem take (h : Accounts topology settled cycles schedule) (hcycles : cycles = none ∨ cycles = some [])
    {id : String} (hout : id ∉ settled) (hsources : ∀ source, topology.Linked source id → source ∈ settled) :
    Accounts topology ([id] ++ settled) cycles (schedule.add cycles.isSome [id]) := by
  have hacyclic : ¬TransGen topology.Linked id id := by
    intro hcycle
    obtain ⟨source, hlink, hnot⟩ := h.exists_source_not_mem hcycle hout
    exact hnot (hsources source hlink)
  have hfollowed : Followed topology ([id] ++ settled) id :=
    ⟨List.mem_cons_self, fun source hlink => List.mem_cons_of_mem _ (hsources source hlink), hacyclic⟩
  have hperm := schedule.add_perm cycles.isSome id
  refine ⟨fun other hother => ?_, ?_, fun other hother => ?_, fun hnone => ?_, fun left hleft => ?_⟩
  · rcases List.mem_cons.mp (hperm.mem_iff.mp hother) with rfl | hother
    · exact hfollowed
    · exact (h.taken other hother).append [id]
  · exact hperm.nodup_iff.mpr (List.nodup_cons.mpr ⟨fun hid => hout (h.taken id hid).mem, h.once⟩)
  · rw [Schedule.cycles_add] at hother
    exact List.mem_cons_of_mem _ (h.closed other hother)
  · subst hnone
    obtain ⟨hafter, hbefore⟩ := h.unsearched rfl
    refine ⟨hafter, fun other hother => List.mem_append.mpr ?_⟩
    rcases List.mem_cons.mp hother with rfl | hother
    · exact .inr (List.mem_singleton_self _)
    · exact .inl (hbefore other hother)
  · -- there is no cycle left that the node could be on
    obtain rfl : left = [] := by
      rcases hcycles with rfl | rfl
      · cases hleft
      · exact (Option.some.inj hleft).symm
    have hwaiting := h.searched [] hleft
    refine ⟨List.nodup_nil, List.forall_mem_nil _, List.forall_mem_nil _, fun other hother => ?_⟩
    exact (hwaiting.all other hother).imp_left (List.mem_cons_of_mem _)

/-- **A cycle can be settled, whatever cycles are left.** -/
theorem close {cycle : List String} {left : List (List String)}
    (h : Accounts topology settled (some (cycle :: left)) schedule) :
    Accounts topology (cycle ++ settled) (some left)
      { schedule with cycles := schedule.cycles ++ [cycle] } where
  taken := fun id hid => (h.taken id hid).append cycle
  once := h.once
  closed := by
    intro id hid
    rw [List.flatten_append, List.flatten_singleton, List.mem_append] at hid
    exact List.mem_append.mpr (hid.symm.imp_right (h.closed id))
  unsearched := nofun
  searched := by
    rintro _ ⟨⟩
    have hwaiting := h.searched _ rfl
    have hnd := hwaiting.distinct
    rw [List.flatten_cons] at hnd
    obtain ⟨-, hrest, hapart⟩ := List.nodup_append.mp hnd
    refine ⟨hrest, fun id hid hsettled => ?_, fun other hother => ?_, fun id hcycle => ?_⟩
    · rcases List.mem_append.mp hsettled with hin | hsettled
      · exact hapart id hin id hid rfl
      · exact hwaiting.unsettled id (List.mem_append_right _ hid) hsettled
    · exact hwaiting.source other (List.mem_cons_of_mem _ hother)
    · have hall := hwaiting.all id hcycle
      rw [List.flatten_cons, List.mem_append] at hall
      rw [List.mem_append]
      exact (or_left_comm.trans or_assoc.symm).mp hall

/-- **The cycles that are found are those that are left.** -/
theorem search (hw : topology.WellFormed) (h : Accounts topology settled none schedule) :
    Accounts topology settled (some (topology.findCycles settled)) schedule where
  taken := h.taken
  once := h.once
  closed := h.closed
  unsearched := nofun
  searched := by
    rintro _ ⟨⟩
    have hfollowed : ∀ id ∈ settled, Followed topology settled id :=
      fun id hid => h.taken id (List.mem_append_left _ ((h.unsearched rfl).2 id hid))
    have hperm : (topology.findCycles settled).Perm topology.cycles :=
      Topology.findCycles_perm hw (fun hlink htarget => (hfollowed _ htarget).sources _ hlink)
        fun id hcycle hid => (hfollowed id hid).acyclic hcycle
    have hmem : ∀ id, id ∈ (topology.findCycles settled).flatten ↔ TransGen topology.Linked id id :=
      fun id => hperm.flatten.mem_iff.trans (Topology.mem_flatten_cycles hw)
    refine ⟨hperm.flatten.nodup_iff.mpr (Topology.nodup_flatten_cycles hw), fun id hid hsettled => ?_,
      fun cycle hcycle id hid => ?_, fun id hcycle => .inr ((hmem id).mpr hcycle)⟩
    · exact (hfollowed id hsettled).acyclic ((hmem id).mp hid)
    · exact Topology.exists_source_mem hw (hperm.mem_iff.mp hcycle) hid

end Accounts

/-! ## The invariant -/

/-- The counters and the queue are right, between any two steps. -/
structure Exact (topology : Topology) (state : Settling) : Prop where
  /-- The counters tell what has not been delivered. -/
  counts : Order.Counts topology state.delivered state.order
  /-- What is settled has been delivered or is due. -/
  settled : ∀ id, id ∈ state.order.settled ↔ id ∈ state.due ∨ id ∈ state.delivered
  /-- Nothing is delivered twice. -/
  due : state.due.Nodup
  apart : ∀ id ∈ state.due, id ∉ state.delivered
  /-- What has been put into the queue was taken off it or is in it. -/
  queued : state.queued = state.schedule.before ++ state.schedule.after ++ state.order.ready
  accounts : Accounts topology state.order.settled state.cycles state.schedule

theorem exact_start (hw : topology.WellFormed) : Exact topology (start topology) where
  counts := (Order.balanced_start hw).counts
  settled := by simp [start, Order.start]
  due := List.nodup_nil
  apart := by simp [start]
  queued := rfl
  accounts :=
    { taken := by simp [start]
      once := List.nodup_nil
      closed := by simp [start]
      unsearched := by simp [start, Order.start]
      searched := by simp [start] }

namespace Exact

variable {state : Settling} (h : Exact topology state)
include h

/-- **What is ready comes after its sources.** -/
theorem of_ready {id : String} (hid : id ∈ state.order.ready) :
    id ∉ state.order.settled ∧ ∀ source, topology.Linked source id → source ∈ state.order.settled := by
  obtain ⟨-, hout, hsources⟩ := (h.counts.ready id).mp hid
  exact ⟨hout, fun source hlink => (h.settled source).mpr (.inr (hsources source hlink))⟩

/-- Between two settlements the settled nodes are those that have been delivered. -/
theorem mem_settled (hdue : state.due = []) (id : String) :
    id ∈ state.order.settled ↔ id ∈ state.delivered := by
  rw [h.settled, hdue]
  exact or_iff_right List.not_mem_nil

/-- Nodes that are settled now are due next. -/
theorem settled_append (hdue : state.due = []) (batch : List String) (id : String) :
    id ∈ batch ++ state.order.settled ↔ id ∈ batch ∨ id ∈ state.delivered := by
  rw [List.mem_append, h.mem_settled hdue]

theorem deliver (hw : topology.WellFormed) {id : String} {due : List String}
    (hdue : state.due = id :: due) : Exact topology (state.deliver topology id due) := by
  have hnd : (id :: due).Nodup := hdue ▸ h.due
  obtain ⟨hid, hrest⟩ := List.nodup_cons.mp hnd
  have hsettled : (state.deliver topology id due).order.settled = state.order.settled :=
    Order.settled_arrivals _ _
  refine ⟨h.counts.deliver hw (h.apart id (hdue ▸ List.mem_cons_self)), fun other => ?_, hrest,
    fun other hother hdelivered => ?_, ?_, hsettled.symm ▸ h.accounts⟩
  · show _ ↔ other ∈ due ∨ other ∈ id :: state.delivered
    rw [hsettled, h.settled, hdue, List.mem_cons, List.mem_cons]
    exact or_assoc.trans or_left_comm
  · rcases List.mem_cons.mp hdelivered with rfl | hdelivered
    · exact hid hother
    · exact h.apart other (hdue ▸ List.mem_cons_of_mem _ hother) hdelivered
  · -- what is new in the queue stands behind what was there
    have hready := List.prefix_iff_eq_append.mp
      (Order.ready_isPrefix_arrivals state.order (topology.successors id))
    show state.queued ++ _ = state.schedule.before ++ state.schedule.after ++ _
    rw [h.queued, List.append_assoc]
    exact congrArg _ hready

theorem close {cycle : List String} {left : List (List String)} (hdue : state.due = [])
    (hcycles : state.cycles = some (cycle :: left)) : Exact topology (state.close cycle left) := by
  have haccounts := h.accounts
  rw [hcycles] at haccounts
  have hwaiting := haccounts.searched _ rfl
  have hout : ∀ id ∈ cycle, id ∉ state.order.settled :=
    fun id hid => hwaiting.unsettled id (List.mem_append_left _ hid)
  -- no node of the cycle is in the queue, since its source on the cycle is not settled
  have hready : ∀ id, id ∈ state.order.ready ↔ id ∈ state.order.ready ∧ id ∉ cycle := by
    refine fun id => ⟨fun hid => ⟨hid, fun hin => ?_⟩, And.left⟩
    obtain ⟨source, hsource, hlink⟩ := hwaiting.source cycle List.mem_cons_self id hin
    exact hout source hsource ((h.of_ready hid).2 source hlink)
  exact {
    counts := h.counts.mark h.counts.nodup hready
    settled := h.settled_append hdue cycle
    due := (List.nodup_append.mp hwaiting.distinct).1
    apart := fun id hid hdelivered => hout id hid ((h.mem_settled hdue id).mpr hdelivered)
    queued := h.queued
    accounts := haccounts.close }

theorem take {id : String} {ready : List String} (hdue : state.due = [])
    (hcycles : state.cycles = none ∨ state.cycles = some []) (hready : state.order.ready = id :: ready) :
    Exact topology (state.take id ready) := by
  obtain ⟨hout, hsources⟩ := h.of_ready (hready ▸ List.mem_cons_self)
  obtain ⟨hid, hrest⟩ := List.nodup_cons.mp (hready ▸ h.counts.nodup)
  have hleft : ∀ other, other ∈ ready ↔ other ∈ state.order.ready ∧ other ∉ [id] := by
    intro other
    rw [hready, List.mem_cons, List.mem_singleton]
    exact ⟨fun hother => ⟨.inr hother, fun heq => hid (heq ▸ hother)⟩,
      fun hother => hother.1.resolve_left hother.2⟩
  refine ⟨h.counts.mark hrest hleft, h.settled_append hdue [id], List.nodup_singleton id, ?_, ?_,
    h.accounts.take hcycles hout hsources⟩
  · refine List.forall_mem_singleton.mpr fun hdelivered => ?_
    exact hout ((h.mem_settled hdue id).mpr hdelivered)
  · show state.queued = (state.schedule.add state.cycles.isSome [id]).before
      ++ (state.schedule.add state.cycles.isSome [id]).after ++ ready
    rw [h.queued, hready]
    rcases hcycles with hnone | hnil
    · rw [hnone, (h.accounts.unsearched hnone).1]
      simp [Schedule.add, (h.accounts.unsearched hnone).1]
    · rw [hnil]
      simp [Schedule.add]

/-- **A step keeps the invariant.** -/
theorem step (hw : topology.WellFormed) : Exact topology (state.step topology) := by
  have hdoes := state.step_does topology
  generalize state.step topology = next at hdoes ⊢
  cases hdoes with
  | deliver hdue => exact h.deliver hw hdue
  | close hdue hcycles => exact h.close hdue hcycles
  | take hdue hcycles hready => exact h.take hdue hcycles hready
  | search _ hcycles _ =>
      have haccounts := h.accounts
      rw [hcycles] at haccounts
      exact { h with accounts := haccounts.search hw }
  | rest _ _ _ => exact h

/-- What is in the queue or was in it comes after its sources, and lies on no cycle. -/
theorem of_queued {id : String} (hid : id ∈ state.queued) :
    (∀ source, topology.Linked source id → source ∈ state.order.settled)
      ∧ ¬TransGen topology.Linked id id := by
  rw [h.queued] at hid
  rcases List.mem_append.mp hid with htaken | hready
  · have hfollowed := h.accounts.taken id htaken
    exact ⟨hfollowed.sources, hfollowed.acyclic⟩
  · obtain ⟨hout, hsources⟩ := h.of_ready hready
    refine ⟨hsources, fun hcycle => ?_⟩
    obtain ⟨source, hlink, hnot⟩ := h.accounts.exists_source_not_mem hcycle hout
    exact hnot (hsources source hlink)

/-- **Nothing is put into the queue twice.** -/
theorem nodup_queued : state.queued.Nodup := by
  rw [h.queued]
  refine List.nodup_append.mpr ⟨h.accounts.once, h.counts.nodup, ?_⟩
  rintro id htaken _ hready rfl
  exact (h.of_ready hready).1 (h.accounts.taken id htaken).mem

/-- **No counter is at zero when something is taken off it.** -/
theorem pending_pos (hw : topology.WellFormed) {id : String} {due : List String}
    (hdue : state.due = id :: due) {first rest : List String} {target : String}
    (hsplit : topology.successors id = first ++ target :: rest) (hout : target ∉ state.order.settled) :
    0 < (first.foldl Order.arrive state.order).pendingOf target := by
  have hexpecting := h.counts.expecting hw (h.apart id (hdue ▸ List.mem_cons_self))
  rw [hsplit] at hexpecting
  have hpos := hexpecting.arrivals.pos (by rwa [Order.settled_arrivals])
  omega

end Exact

/-- **The counters and the queue are right throughout.** -/
theorem exact_run (hw : topology.WellFormed) (steps : Nat) : Exact topology (run topology steps) := by
  induction steps with
  | zero => exact exact_start hw
  | succ steps ih =>
      rw [run_succ]
      exact ih.step hw

/-! ## The steps make the schedule -/

/-- Nothing is due, and the rest is as given. -/
structure Idle (state : Settling) (order : Order) (cycles : Option (List (List String)))
    (schedule : Schedule) : Prop where
  due : state.due = []
  order : state.order = order
  cycles : state.cycles = cycles
  schedule : state.schedule = schedule

/-- The steps lead to such a state. -/
def Reaches (topology : Topology) (state : Settling) (order : Order) (cycles : Option (List (List String)))
    (schedule : Schedule) : Prop :=
  ∃ steps, Idle ((step topology)^[steps] state) order cycles schedule

section Reaches

variable {state : Settling} {order : Order} {cycles : Option (List (List String))} {schedule : Schedule}

theorem Reaches.of_steps (steps : Nat)
    (h : Reaches topology ((step topology)^[steps] state) order cycles schedule) :
    Reaches topology state order cycles schedule := by
  obtain ⟨more, hidle⟩ := h
  rw [← Function.iterate_add_apply] at hidle
  exact ⟨more + steps, hidle⟩

theorem Reaches.of_step (h : Reaches topology (state.step topology) order cycles schedule) :
    Reaches topology state order cycles schedule := Reaches.of_steps 1 h

/-- The nodes that are due are delivered. -/
theorem reaches_deliveries (topology : Topology) (state : Settling) :
    Reaches topology state (state.due.foldl (Order.deliver topology) state.order) state.cycles
      state.schedule := by
  generalize hdue : state.due = due
  induction due generalizing state with
  | nil => exact ⟨0, hdue, rfl, rfl, rfl⟩
  | cons id due ih =>
      refine Reaches.of_step ?_
      rw [step_of_due hdue]
      exact ih (state.deliver topology id due) rfl

/-- Cycles are settled one after the other. -/
theorem reaches_settled (topology : Topology) (state : Settling) {left : List (List String)}
    (hdue : state.due = []) (hcycles : state.cycles = some left) :
    Reaches topology state (left.foldl (Order.settle topology) state.order) (some [])
      { state.schedule with cycles := state.schedule.cycles ++ left } := by
  induction left generalizing state with
  | nil =>
      rw [List.append_nil]
      exact ⟨0, hdue, rfl, hcycles, rfl⟩
  | cons cycle left ih =>
      refine Reaches.of_step ?_
      rw [step_of_cycle hdue hcycles]
      obtain ⟨steps, hidle⟩ := reaches_deliveries topology (state.close cycle left)
      have hreaches := ih _ hidle.due hidle.cycles
      rw [hidle.order, hidle.schedule] at hreaches
      rw [List.foldl_cons, List.append_cons]
      exact hreaches.of_steps steps

/-- Ready nodes are settled as long as there are any. -/
theorem reaches_drained (topology : Topology) (state : Settling) (room : Nat) (hdue : state.due = [])
    (hcycles : state.cycles = none ∨ state.cycles = some []) :
    Reaches topology state (Order.drain topology room state.order).2 state.cycles
      (state.schedule.add state.cycles.isSome (Order.drain topology room state.order).1) := by
  induction room generalizing state with
  | zero => exact ⟨0, hdue, rfl, rfl, (Schedule.add_nil ..).symm⟩
  | succ room ih =>
      unfold Order.drain
      split
      · exact ⟨0, hdue, rfl, rfl, (Schedule.add_nil ..).symm⟩
      · rename_i id rest hready
        have hreaches (next : Settling) (hnext : next = (state.take id rest).deliver topology id []) :
            Reaches topology next (Order.drain topology room next.order).2 state.cycles
              (state.schedule.add state.cycles.isSome ([id] ++ (Order.drain topology room next.order).1)) := by
          rw [← Schedule.add_add]
          subst hnext
          exact ih _ rfl hcycles
        refine Reaches.of_step (Reaches.of_step ?_)
        rw [step_of_ready hdue hcycles hready, step_of_due rfl]
        exact hreaches _ rfl

end Reaches

/-- **The steps make the schedule.** -/
theorem reaches_schedule (hw : topology.WellFormed) :
    ∃ order, Reaches topology (start topology) order (some []) topology.schedule := by
  obtain ⟨-, -, hready, -⟩ := Order.drain_spec hw topology.ids.length (Order.balanced_start hw) (by omega)
  obtain ⟨steps, hstalled⟩ := reaches_drained topology (start topology) topology.ids.length rfl (.inl rfl)
  generalize hfirst : (step topology)^[steps] (start topology) = stalled at hstalled
  have hsearch : stalled.step topology = stalled.search topology :=
    step_of_stalled hstalled.due hstalled.cycles (hstalled.order ▸ hready)
  obtain ⟨more, hresumed⟩ := reaches_settled topology (stalled.search topology) hstalled.due rfl
  have hfinal := reaches_drained topology _ topology.ids.length hresumed.due (.inr hresumed.cycles)
  rw [hresumed.cycles, hresumed.schedule, hresumed.order] at hfinal
  let final := Order.drain topology topology.ids.length
    ((topology.findCycles stalled.order.settled).foldl (Order.settle topology) stalled.order)
  have hschedule : topology.schedule
      = { stalled.schedule with
          cycles := stalled.schedule.cycles ++ topology.findCycles stalled.order.settled }.add true final.1 := by
    simp only [final]
    rw [hstalled.schedule, hstalled.order]
    rfl
  refine ⟨final.2, Reaches.of_steps steps ?_⟩
  rw [hfirst]
  refine Reaches.of_step ?_
  rw [hsearch, hschedule]
  exact Reaches.of_steps more hfinal

/-- In the end there is nothing left to do. -/
theorem run_schedule (hw : topology.WellFormed) :
    ∃ steps, (run topology steps).schedule = topology.schedule
      ∧ (run topology steps).step topology = run topology steps := by
  obtain ⟨order, steps, hidle⟩ := reaches_schedule hw
  have hexact : Exact topology (run topology steps) := exact_run hw steps
  have hsettled : ∀ id ∈ topology.ids, id ∈ (run topology steps).order.settled := by
    intro id hid
    have hcomplete := (Topology.schedule_sound hw).complete id hid
    rw [← hidle.schedule] at hcomplete
    rcases hcomplete with hbefore | hcycle | hafter
    · exact (hexact.accounts.taken id (List.mem_append_left _ hbefore)).mem
    · exact hexact.accounts.closed id hcycle
    · exact (hexact.accounts.taken id (List.mem_append_right _ hafter)).mem
  have hready : (run topology steps).order.ready = [] := by
    refine List.eq_nil_iff_forall_not_mem.mpr fun id hid => ?_
    exact (hexact.of_ready hid).1 (hsettled id ((hexact.counts.ready id).mp hid).1)
  exact ⟨steps, hidle.schedule, step_of_finished hidle.due hidle.cycles hready⟩

end Settling

/-- The kept edges into a node whose sources are not among the given ones. -/
theorem Graph.countP_sources (graph : Graph) (delivered : List String) (id : String) :
    ((graph.sources id).countP fun source => source ∉ delivered)
      = graph.keptEdges.countP fun edge => edge.target = id ∧ edge.source ∉ delivered := by
  unfold sources
  rw [List.countP_map, List.countP_filter]
  refine List.countP_congr fun edge _ => ?_
  simp [and_comm]

/--
**The counters are exact, and nothing becomes ready twice.**

In every graph the steps come to an end, and what they have settled by then is the schedule. After any number
of them, be it while cycles are settled one after the other:

* the counter of a node that is not settled is the number of kept edges into it, parallel ones counted one by
  one, whose source has not been delivered;
* when a node is delivered, no counter is at zero that one is taken off, whatever has come along the edges
  before;
* what has been put into the queue was taken off it or is in it, and nothing was put there twice;
* whatever was put there has only settled nodes for sources, and lies on no cycle.
-/
theorem Graph.settling_exact (graph : Graph) :
    let topology := Topology.ofGraph graph
    (∃ steps, (Settling.run topology steps).schedule = topology.schedule
        ∧ (Settling.run topology steps).step topology = Settling.run topology steps)
      ∧ ∀ steps,
        let state := Settling.run topology steps
        (∀ id ∈ graph.nodeIds, id ∉ state.order.settled → state.order.pendingOf id
            = graph.keptEdges.countP fun edge => edge.target = id ∧ edge.source ∉ state.delivered)
          ∧ (∀ id due first target rest, state.due = id :: due →
              topology.successors id = first ++ target :: rest → target ∉ state.order.settled →
              0 < (first.foldl Order.arrive state.order).pendingOf target)
          ∧ state.queued = state.schedule.before ++ state.schedule.after ++ state.order.ready
          ∧ state.queued.Nodup
          ∧ ∀ id ∈ state.queued,
              (∀ source, graph.Feeds source id → source ∈ state.order.settled) ∧ ¬graph.OnCycle id := by
  intro topology
  have hw : topology.WellFormed := Topology.ofGraph_wellFormed graph
  refine ⟨Settling.run_schedule hw, fun steps => ?_⟩
  have hexact := Settling.exact_run hw steps
  refine ⟨fun id hid hout => ?_, fun id due first target rest hdue hsplit hout => ?_, hexact.queued,
    hexact.nodup_queued, fun id hid => ?_⟩
  · rw [hexact.counts.pending id (Topology.mem_ofGraph_ids.mpr hid) hout, Topology.ofGraph_predecessors,
      Graph.countP_sources]
  · exact hexact.pending_pos hw hdue hsplit hout
  · have hfollowed := hexact.of_queued hid
    rwa [Topology.ofGraph_linked] at hfollowed

/-- A loop feeds a pair of nodes, one of them twice and from outside as well. After the loop has been settled, the
edges from it into that node are taken off its counter, and the one from within the pair is left. -/
theorem Graph.settling_exact_loop :
    let node (id : String) : Node := ⟨id, "functionNode", id, .null, .origin⟩
    let edge (source target : String) : Edge := ⟨source ++ target, source, target, none, none⟩
    let graph : Graph := ⟨[node "a", node "s", node "p", node "q"],
      [edge "a" "p", edge "s" "s", edge "s" "p", edge "s" "p", edge "s" "q", edge "p" "q", edge "q" "p"]⟩
    let topology := Topology.ofGraph graph
    let closed := Settling.run topology 4
    let looped := Settling.run topology 5
    (closed.due = ["s"] ∧ topology.successors "s" = ["s", "p"] ++ "p" :: ["q"]
        ∧ 0 < (["s", "p"].foldl Order.arrive closed.order).pendingOf "p")
      ∧ looped.cycles = some [["p", "q"]] ∧ looped.delivered = ["s", "a"] ∧ looped.order.pendingOf "p"
          = graph.keptEdges.countP fun edge => edge.target = "p" ∧ edge.source ∉ looped.delivered := by
  intro node edge graph topology closed looped
  let stalled := Settling.run topology 2
  have hstalled : stalled.due = [] ∧ stalled.cycles = none ∧ stalled.order.ready = []
      ∧ stalled.order.settled = ["a"] ∧ stalled.delivered = ["a"] := by decide +kernel
  obtain ⟨hidle, hopen, hready, hsettled, hdelivered⟩ := hstalled
  -- the search finds the pair first, and the loop stands further up
  have hcycles : topology.findCycles ["a"] = [["s"], ["p", "q"]] := by
    have hfound : (topology.ids.foldl (topology.searchFrom ["a"]) .start).cycles = [["p", "q"], ["s"]] := by
      decide +kernel
    have hplaces : topology.places ["p", "q"] = [2, 3] ∧ topology.places ["s"] = [1] := by decide +kernel
    rw [Topology.findCycles, hfound]
    simp [List.mergeSort, hplaces]
  have hsearched : (stalled.search topology).cycles = some [["s"], ["p", "q"]] := by
    rw [Settling.search, hsettled, hcycles]
  have hclosed : closed = (stalled.search topology).close ["s"] [["p", "q"]] :=
    calc closed
      _ = (stalled.step topology).step topology := by rw [← Settling.run_succ, ← Settling.run_succ]
      _ = (stalled.search topology).step topology := by rw [Settling.step_of_stalled hidle hopen hready]
      _ = _ := Settling.step_of_cycle hidle hsearched
  have hdue : closed.due = ["s"] := by rw [hclosed, Settling.close]
  have hlooped : looped = closed.deliver topology "s" [] :=
    (Settling.run_succ topology 4).trans (Settling.step_of_due hdue)
  have hsplit : topology.successors "s" = ["s", "p"] ++ "p" :: ["q"] := by decide +kernel
  have hout : "p" ∉ closed.order.settled := by
    rw [hclosed, Settling.close, Settling.search, hsettled]
    decide
  have hexact := (settling_exact graph).2
  refine ⟨⟨hdue, hsplit, ?_⟩, ?_, ?_, ?_⟩
  · exact (hexact 4).2.1 "s" [] ["s", "p"] "p" ["q"] hdue hsplit hout
  · rw [hlooped, hclosed, Settling.deliver, Settling.close]
  · rw [hlooped, hclosed, Settling.deliver, Settling.close, Settling.search, hdelivered]
  · refine (hexact 5).1 "p" (by decide +kernel) ?_
    show "p" ∉ looped.order.settled
    rw [hlooped]
    show "p" ∉ (Order.deliver topology closed.order "s").settled
    rwa [Order.deliver, Order.settled_arrivals]

end DecisionGraph
