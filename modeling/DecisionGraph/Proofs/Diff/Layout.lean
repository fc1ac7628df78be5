import DecisionGraph.Proofs.Diff.Mirror
import DecisionGraph.Proofs.Issue
import DecisionGraph.Proofs.Registry

/-!
# What a comparison says apart from movement

Where a node stands, in the list of nodes or on the canvas, and what it holds are two questions. The answer to
the one does not touch the answer to the other: however a graph is laid out, a comparison reports the same
added, removed and modified nodes, with the same fields and rows, and the same issues
(`Comparison.diff_of_layout`).

1. **Alignments of items with distinct ids are outer joins.** A current item is paired with the one previous
   item that has its id, whatever stands before it (`paired_iff_key_eq`). So up to the order of its entries an
   alignment is made of the items alone (`align_settled_perm`), and a join takes them in any order.
2. **What is reported of an entry** is, but for movement, what is reported of the entry that has nothing left
   of where its items stand (`Comparison.node_atRest`). For this, behaviors from outside must not look at
   where nodes are when they compare contents, as the known kinds do not (`Behavior.PlaceBlind`).

With repeated ids the first of several nodes is another one in another order, so ids have to be distinct.
-/

namespace DecisionGraph

variable {α γ : Type}

/-! ## Alignments as outer joins -/

/-- The entry with nothing left of where its items stand. -/
def Slot.settled (view : α → α) : Slot α → Slot α
  | .paired previous current _ => .paired ⟨0, view previous.item⟩ ⟨0, view current.item⟩ false
  | .added current => .added ⟨0, view current.item⟩
  | .removed previous => .removed ⟨0, view previous.item⟩

/-- The entry of a current item, given the previous item that it is paired with. -/
def Slot.joined (previous : Option α) (current : α) : Slot α :=
  match previous with
  | some previous => .paired ⟨0, previous⟩ ⟨0, current⟩ false
  | none => .added ⟨0, current⟩

/-- Each current item with the previous one that has its key, and then the previous items that are left. -/
def outerJoin (key : α → String) (previous current : List α) : List (Slot α) :=
  current.map (fun item => .joined (previous.find? fun old => key old = key item) item) ++
    (previous.filter fun old => key old ∉ current.map key).map fun old => .removed ⟨0, old⟩

/-- A join takes the current items in any order. -/
theorem outerJoin_perm (key : α → String) (previous : List α) {current others : List α}
    (h : current.Perm others) : (outerJoin key previous current).Perm (outerJoin key previous others) := by
  unfold outerJoin
  refine (h.map _).append ?_
  simp only [(h.map key).mem_iff]
  exact List.Perm.refl _

section Join

variable {key : α → String} {items previous current : List α}

/-- Among items with distinct keys it is found what has the key. -/
theorem find?_key_iff (h : (items.map key).Nodup) {id : String} {item : α} :
    items.find? (fun item => key item = id) = some item ↔ item ∈ items ∧ key item = id := by
  constructor
  · intro hfound
    exact ⟨List.mem_of_find?_eq_some hfound, by simpa using List.find?_some hfound⟩
  · rintro ⟨hmem, hkey⟩
    cases hfound : items.find? fun item => key item = id with
    | none => exact absurd (decide_eq_true hkey) (List.find?_eq_none.mp hfound item hmem)
    | some other =>
        have hother : key other = id := by simpa using List.find?_some hfound
        rw [List.inj_on_of_nodup_map h (List.mem_of_find?_eq_some hfound) hmem (hother.trans hkey.symm)]

theorem find?_key_perm {others : List α} (h : items.Perm others) (hdistinct : (items.map key).Nodup)
    (id : String) :
    items.find? (fun item => key item = id) = others.find? fun item => key item = id := by
  refine Option.ext fun item => ?_
  rw [find?_key_iff hdistinct, find?_key_iff ((h.map key).nodup_iff.mp hdistinct), h.mem_iff]

/-- Of a sequence with distinct keys the key of an item tells its place. -/
theorem eq_of_key_eq (h : (items.map key).Nodup) {item other : Placed α} (hitem : item ∈ placed items)
    (hother : other ∈ placed items) (hkey : key item.item = key other.item) : item = other := by
  refine (ascending_placed items).eq_of_index hitem hother ?_
  obtain ⟨hlt, hget⟩ := List.getElem?_eq_some_iff.mp (mem_placed.mp hitem)
  obtain ⟨hlt', hget'⟩ := List.getElem?_eq_some_iff.mp (mem_placed.mp hother)
  rw [← List.length_map key] at hlt hlt'
  have hsame : (items.map key)[item.index] = (items.map key)[other.index] := by
    rw [List.getElem_map, List.getElem_map, hget, hget', hkey]
  exact h.getElem_inj_iff.mp hsame

theorem map_key_view (view : α → α) (hview : ∀ item, key (view item) = key item) (items : List α) :
    (items.map view).map key = items.map key := by
  rw [List.map_map]
  exact List.map_congr_left fun item _ => hview item

theorem find?_key_view (view : α → α) (hview : ∀ item, key (view item) = key item) (id : String) :
    (items.map view).find? (fun item => key item = id)
      = (items.find? fun item => key item = id).map view := by
  rw [List.find?_map]
  simp only [Function.comp_def, hview]

/-- Under a key the same is seen in any order. -/
theorem find?_view_perm (view : α → α) (hview : ∀ item, key (view item) = key item) {others : List α}
    (h : (items.map view).Perm (others.map view)) (hdistinct : (items.map key).Nodup) (id : String) :
    (items.find? fun item => key item = id).map view
      = (others.find? fun item => key item = id).map view := by
  rw [← find?_key_view view hview, ← find?_key_view view hview]
  exact find?_key_perm h (by rwa [map_key_view view hview]) id

theorem entries_settled (view : α → α) (pairs : List (Option (Placed α) × Placed α)) :
    (Align.entries pairs).map (Slot.settled view) = pairs.map fun pair =>
      .joined ((pair.1.map Placed.item).map view) (view pair.2.item) := by
  unfold Align.entries
  rw [List.map_map]
  refine List.map_congr_left fun pair _ => ?_
  obtain ⟨partner, other⟩ := pair
  cases partner <;> rfl

variable (hprevious : (previous.map key).Nodup) (hcurrent : (current.map key).Nodup)
include hprevious hcurrent

/-- **Items with distinct keys are paired if they have one key.** -/
theorem paired_iff_key_eq {item other : Placed α} :
    Paired (fun item => .named (key item)) previous current item other
      ↔ item ∈ placed previous ∧ other ∈ placed current ∧ key item.item = key other.item := by
  constructor
  · intro h
    obtain ⟨hitem, hother, hlabels, _⟩ := h.spec
    exact ⟨hitem, hother, Label.named.inj hlabels⟩
  · rintro ⟨hitem, hother, hkey⟩
    by_contra hunpaired
    -- nothing else has the key on either side, so both would be left over
    have hadded : Slot.added other ∈ align (fun item => .named (key item)) previous current := by
      refine added_iff_unpaired.mpr ⟨hother, fun rival hrival => hunpaired ?_⟩
      have hsame := Label.named.inj hrival.spec.2.2.1
      rwa [eq_of_key_eq hprevious hitem hrival.spec.1 (hkey.trans hsame.symm)]
    have hremoved : Slot.removed item ∈ align (fun item => .named (key item)) previous current := by
      refine removed_iff_unpaired.mpr ⟨hitem, fun rival hrival => hunpaired ?_⟩
      have hsame := Label.named.inj hrival.spec.2.2.1
      rwa [eq_of_key_eq hcurrent hother hrival.spec.2.1 (hkey.symm.trans hsame)]
    cases unmarked_of_left_over hremoved hadded (congrArg Label.named hkey)

/-- The partner of a current item is what is found under its key. -/
theorem partner_eq_find? {pair : Option (Placed α) × Placed α}
    (hpair : pair ∈ (Align.pairUp (fun item => .named (key item)) (placed previous) (placed current)).1) :
    pair.1.map Placed.item = previous.find? fun old => key old = key pair.2.item := by
  obtain ⟨partner, other⟩ := pair
  cases partner with
  | none =>
      obtain ⟨hother, hunpaired⟩ := added_iff_unpaired.mp (added_mem_align.mpr hpair)
      rw [Option.map_none, eq_comm, List.find?_eq_none]
      intro old hold
      obtain ⟨index, hget⟩ := List.mem_iff_getElem?.mp hold
      rw [decide_eq_true_eq]
      exact fun hkey => hunpaired ⟨index, old⟩
        ((paired_iff_key_eq hprevious hcurrent).mpr ⟨mem_placed.mpr hget, hother, hkey⟩)
  | some item =>
      obtain ⟨hitem, -, hlabels, -⟩ := (paired_iff.mpr hpair).spec
      exact ((find?_key_iff hprevious).mpr
        ⟨List.mem_of_getElem? (mem_placed.mp hitem), Label.named.inj hlabels⟩).symm

/-- What is left over is what has a key that no current item has. -/
theorem left_eq_filter :
    (Align.pairUp (fun item => .named (key item)) (placed previous) (placed current)).2.map Placed.item
      = previous.filter fun old => key old ∉ current.map key := by
  have hleft : (Align.pairUp (fun item => .named (key item)) (placed previous) (placed current)).2
      = (placed previous).filter fun old => key old.item ∉ current.map key := by
    refine (Align.ascending_left (ascending_placed previous) _).ext
      (List.Pairwise.filter _ (ascending_placed previous)) fun item => ?_
    rw [← removed_mem_align, removed_iff_unpaired, List.mem_filter, decide_eq_true_eq]
    refine and_congr_right fun hitem => ?_
    simp only [paired_iff_key_eq hprevious hcurrent, hitem, true_and, not_and]
    constructor
    · intro h hmem
      obtain ⟨value, hvalue, hkey⟩ := List.mem_map.mp hmem
      obtain ⟨index, hget⟩ := List.mem_iff_getElem?.mp hvalue
      exact h ⟨index, value⟩ (mem_placed.mpr hget) hkey.symm
    · intro h other hother hkey
      exact h (hkey ▸ List.mem_map_of_mem (List.mem_of_getElem? (mem_placed.mp hother)))
  have hitems : (fun old : Placed α => decide (key old.item ∉ current.map key))
      = (fun old => decide (key old ∉ current.map key)) ∘ Placed.item := rfl
  rw [hleft, hitems, ← List.filter_map, placed_item]

/-- **An alignment of items with distinct keys is their outer join,** up to the order of the entries and
to where the items stand. -/
theorem align_settled_perm (view : α → α) (hview : ∀ item, key (view item) = key item) :
    ((align (fun item => .named (key item)) previous current).map (Slot.settled view)).Perm
      (outerJoin key (previous.map view) (current.map view)) := by
  have hpairs : (Align.pairUp (fun item => .named (key item)) (placed previous) (placed current)).1.map
      (fun pair => Slot.joined ((pair.1.map Placed.item).map view) (view pair.2.item))
        = (current.map view).map fun item =>
          .joined ((previous.map view).find? fun old => key old = key item) item := by
    rw [List.map_congr_left fun pair hpair => by rw [partner_eq_find? hprevious hcurrent hpair]]
    conv_rhs => rw [← placed_item current, ← Align.pairUp_current (fun item => .named (key item))
      (placed previous) (placed current)]
    simp only [List.map_map, Function.comp_def, find?_key_view view hview, hview]
  have hleft : (Align.pairUp (fun item => .named (key item)) (placed previous) (placed current)).2.map
      (fun old => (Slot.removed old).settled view)
        = ((previous.map view).filter fun old => key old ∉ (current.map view).map key).map
          fun old => .removed ⟨0, old⟩ := by
    have hitems := congrArg (List.map fun old => Slot.removed ⟨0, view old⟩)
      (left_eq_filter hprevious hcurrent)
    rw [List.map_map] at hitems
    rw [map_key_view view hview, List.filter_map, List.map_map]
    simp only [Function.comp_def, hview]
    exact hitems
  have hperm := (Align.place_perm
    (Align.pairUp (fun item => .named (key item)) (placed previous) (placed current)).2
    (Align.entries (Align.pairUp (fun item => .named (key item)) (placed previous)
      (placed current)).1)).map (Slot.settled view)
  rw [← align_eq, List.map_append, entries_settled, hpairs, List.map_map, Function.comp_def, hleft] at hperm
  exact hperm.trans List.perm_append_comm

/-- **What does not depend on where items stand is said of the same entries in any order.** -/
theorem align_map_perm (view : α → α) (hview : ∀ item, key (view item) = key item) {others : List α}
    (h : (current.map view).Perm (others.map view)) {report report' settled : Slot α → γ}
    (hreport : ∀ slot, report slot = settled (slot.settled view))
    (hreport' : ∀ slot, report' slot = settled (slot.settled view)) :
    ((align (fun item => .named (key item)) previous current).map report).Perm
      ((align (fun item => .named (key item)) previous others).map report') := by
  have hothers : (others.map key).Nodup := by
    rw [← map_key_view view hview] at hcurrent ⊢
    exact (h.map key).nodup_iff.mp hcurrent
  have hsettled : report = settled ∘ Slot.settled view := funext hreport
  have hsettled' : report' = settled ∘ Slot.settled view := funext hreport'
  rw [hsettled, hsettled', ← List.map_map, ← List.map_map]
  refine List.Perm.map settled ?_
  refine (align_settled_perm hprevious hcurrent view hview).trans ?_
  exact (outerJoin_perm key (previous.map view) h).trans
    (align_settled_perm hprevious hothers view hview).symm

end Join

/-! ## Entries with distinct keys -/

section Keys

variable {β : Type} {compare : Slot α → β} {change : β → Option Change} {item : β → α} {key : α → String}

theorem Reports.key_settled (h : Reports compare change item) (slot : Slot α) :
    key (item (compare (slot.settled id))) = key (item (compare slot)) := by
  unfold Slot.settled
  cases slot with
  | removed old => rw [(h.removed_eq _).2, (h.removed_eq _).2, id_eq]
  | paired old current moved => rw [h.item_eq rfl, h.item_eq rfl, id_eq]
  | added current => rw [h.item_eq rfl, h.item_eq rfl, id_eq]

/-- A join has the keys of the current items and those of the previous items that are left. -/
theorem Reports.keys_outerJoin (h : Reports compare change item) (previous current : List α) :
    (outerJoin key previous current).map (fun slot => key (item (compare slot)))
      = current.map key ++ (previous.filter fun old => key old ∉ current.map key).map key := by
  unfold outerJoin
  rw [List.map_append, List.map_map, List.map_map]
  refine congrArg₂ (· ++ ·) (List.map_congr_left fun item _ => ?_)
    (List.map_congr_left fun old _ => congrArg key (h.removed_eq _).2)
  cases hfound : previous.find? fun old => key old = key item with
  | none => rw [Function.comp_apply, hfound, Slot.joined, h.item_eq rfl]
  | some old => rw [Function.comp_apply, hfound, Slot.joined, h.item_eq rfl]

/-- **The entries of an alignment have distinct keys if the items of both sides do.** -/
theorem Reports.nodup_keys (h : Reports compare change item) {previous current : List α}
    (hprevious : (previous.map key).Nodup) (hcurrent : (current.map key).Nodup) :
    (((align (fun item => .named (key item)) previous current).map compare).map
      fun entry => key (item entry)).Nodup := by
  have hperm := (align_settled_perm hprevious hcurrent id fun _ => rfl).map
    fun slot => key (item (compare slot))
  rw [List.map_id, List.map_id, List.map_map, h.keys_outerJoin] at hperm
  simp only [Function.comp_def, h.key_settled] at hperm
  rw [List.map_map, Function.comp_def, hperm.nodup_iff, List.nodup_append]
  refine ⟨hcurrent, hprevious.sublist (List.filter_sublist.map key), ?_⟩
  rintro _ hmem _ hleft rfl
  obtain ⟨old, hold, rfl⟩ := List.mem_map.mp hleft
  exact of_decide_eq_true (List.mem_filter.mp hold).2 hmem

end Keys

/-! ## What is left without movement -/

/-- The node without its place. -/
def Node.unplaced (node : Node) : Node := { node with position := .origin }

/-- The change without the movement: none if there is nothing else to it. -/
def Change.atRest? : Change → Option Change
  | .moved => none
  | .modified fields _ => some (.modified fields false)
  | change => some change

/-- The node and its change, without its place and without its movement. -/
def ComparedNode.atRest (node : ComparedNode) : ComparedNode :=
  ⟨node.node.unplaced, node.change.bind Change.atRest?, node.lists⟩

/-- The edge and its change, without its movement. -/
def ComparedEdge.atRest (edge : ComparedEdge) : ComparedEdge :=
  ⟨edge.edge, edge.change.bind Change.atRest?⟩

namespace Change

theorem ofPair?_atRest (fields : FieldChanges) (moved : Bool) :
    (ofPair? fields moved).bind atRest? = ofPair? fields false := by
  cases fields with
  | nil => cases moved <;> rfl
  | cons field more => rfl

/-- **Changes that are one without their movement have the same fields, and both or neither of them are
additions, removals and modifications.** -/
theorem atRest?_eq_iff {a b : Option Change} :
    a.bind atRest? = b.bind atRest?
      ↔ a.elim [] fields = b.elim [] fields ∧ ∀ status ∈ ["added", "removed", "modified"],
        (status ∈ a.map Change.status ↔ status ∈ b.map Change.status) := by
  cases a with
  | none =>
    cases b with
    | none => simp
    | some b => cases b <;> simp [atRest?, status, fields]
  | some a =>
    cases b with
    | none => cases a <;> simp [atRest?, status, fields]
    | some b => cases a <;> cases b <;> simp [atRest?, status, fields]

end Change

/-- Contents are compared alike wherever the nodes are. -/
def Behavior.PlaceBlind (behavior : Behavior) : Prop :=
  ∀ previous current, behavior.compare previous current
    = behavior.compare previous.unplaced current.unplaced

theorem Behavior.ofKind_placeBlind (kind : Kind) : (ofKind kind).PlaceBlind := by
  intro previous current
  cases kind <;> rfl

/-- No id stands for two nodes, and none for two edges. -/
structure Graph.Distinct (graph : Graph) : Prop where
  nodes : graph.nodeIds.Nodup
  edges : (graph.edges.map Edge.id).Nodup

/-- The one graph is the other in another layout: its nodes and its edges stand in another order, and its
nodes at other places. -/
structure Graph.SameButLayout (graph other : Graph) : Prop where
  nodes : (graph.nodes.map Node.unplaced).Perm (other.nodes.map Node.unplaced)
  edges : graph.edges.Perm other.edges

namespace Comparison

section PlaceBlind

variable {registry : Registry}

theorem compareContents_unplaced (h : registry.Composed Behavior.PlaceBlind) (previous current : Node) :
    compareContents registry previous current
      = compareContents registry previous.unplaced current.unplaced := by
  unfold compareContents
  cases hget : registry.get? current.kind with
  | none =>
      rw [show registry.get? current.unplaced.kind = none from hget]
      rfl
  | some behavior =>
      have hblind : behavior.PlaceBlind := h.forall Behavior.ofKind_placeBlind (fun _ => id) hget
      rw [show registry.get? current.unplaced.kind = some behavior from hget]
      dsimp only
      rw [hblind previous current]
      rfl

/-- **What is said of nodes is said of them anywhere, but for their movement.** -/
theorem node_atRest (h : registry.Composed Behavior.PlaceBlind) (threshold : Option Float)
    (slot : Slot Node) :
    (((mk registry threshold).node slot).1.atRest, ((mk registry threshold).node slot).2)
      = (mk registry none).node (slot.settled Node.unplaced) := by
  cases slot with
  | added current => rfl
  | removed previous => rfl
  | paired previous current moved =>
      unfold node Slot.settled compareNodes ComparedNode.atRest isRepositioned
      dsimp only
      rw [Change.ofPair?_atRest, ← compareContents_unplaced h]
      rfl

theorem edge_atRest (slot : Slot Edge) : (edge slot).atRest = edge (slot.settled id) := by
  cases slot with
  | added current => rfl
  | removed previous => rfl
  | paired previous current moved =>
      unfold edge Slot.settled ComparedEdge.atRest
      dsimp only
      rw [Change.ofPair?_atRest]
      rfl

variable {previous current current' : Graph}

/-- The same is reported of all nodes in another layout, in some order. -/
theorem nodes_of_layout (h : registry.Composed Behavior.PlaceBlind) (threshold threshold' : Option Float)
    (hprevious : previous.Distinct) (hcurrent : current.Distinct)
    (hlayout : current.SameButLayout current') :
    (((align (fun node => .named node.id) previous.nodes current.nodes).map
        (mk registry threshold).node).map (Prod.map ComparedNode.atRest id)).Perm
      (((align (fun node => .named node.id) previous.nodes current'.nodes).map
        (mk registry threshold').node).map (Prod.map ComparedNode.atRest id)) := by
  rw [List.map_map, List.map_map]
  exact align_map_perm hprevious.nodes hcurrent.nodes Node.unplaced (fun _ => rfl) hlayout.nodes
    (node_atRest h threshold) (node_atRest h threshold')

/-- The same issues are reported in another layout. -/
theorem issues_of_layout (h : registry.Composed Behavior.PlaceBlind) (threshold threshold' : Option Float)
    (hprevious : previous.Distinct) (hcurrent : current.Distinct)
    (hlayout : current.SameButLayout current') :
    (diff ⟨registry, threshold⟩ previous current).issues
      = (diff ⟨registry, threshold'⟩ previous current').issues := by
  have hperm := (nodes_of_layout h threshold threshold' hprevious hcurrent hlayout).flatMap_right Prod.snd
  simp only [List.flatMap_map, Prod.map_snd, id_eq] at hperm
  unfold diff
  refine Issue.report_congr fun issue => ?_
  simp only [List.flatMap_map]
  exact hperm.mem_iff

/--
**Where nodes are says nothing about what they hold.**

Lay the current graph out anew: put its nodes and its edges in any order and its nodes at any places, and
choose any threshold. Then the same is reported of every node and every edge but for its movement: whether
it was added, removed or modified, its fields and its rows. The same issues are reported, too.
-/
theorem diff_of_layout (h : registry.Composed Behavior.PlaceBlind) (threshold threshold' : Option Float)
    (hprevious : previous.Distinct) (hcurrent : current.Distinct)
    (hlayout : current.SameButLayout current') :
    let first := diff ⟨registry, threshold⟩ previous current
    let second := diff ⟨registry, threshold'⟩ previous current'
    ((first.nodes.map ComparedNode.atRest).Perm (second.nodes.map ComparedNode.atRest)
        ∧ ∀ id, (first.node? id).map ComparedNode.atRest = (second.node? id).map ComparedNode.atRest)
      ∧ ((first.edges.map ComparedEdge.atRest).Perm (second.edges.map ComparedEdge.atRest)
        ∧ ∀ id, (first.edge? id).map ComparedEdge.atRest = (second.edge? id).map ComparedEdge.atRest)
      ∧ first.issues = second.issues := by
  intro first second
  have hnodes : (first.nodes.map ComparedNode.atRest).Perm (second.nodes.map ComparedNode.atRest) := by
    have hperm := (nodes_of_layout h threshold threshold' hprevious hcurrent hlayout).map Prod.fst
    simp only [List.map_map] at hperm
    rw [diff_nodes, diff_nodes, List.map_map, List.map_map]
    exact hperm
  have hedges : (first.edges.map ComparedEdge.atRest).Perm (second.edges.map ComparedEdge.atRest) := by
    rw [diff_edges, diff_edges, List.map_map, List.map_map]
    refine align_map_perm hprevious.edges hcurrent.edges id (fun _ => rfl) ?_ edge_atRest edge_atRest
    rw [List.map_id, List.map_id]
    exact hlayout.edges
  have hnodeIds : (first.nodes.map fun node => node.node.id).Nodup := by
    rw [diff_nodes]
    exact (node_reports _).nodup_keys hprevious.nodes hcurrent.nodes
  have hedgeIds : (first.edges.map fun edge => edge.edge.id).Nodup := by
    rw [diff_edges]
    exact edge_reports.nodup_keys hprevious.edges hcurrent.edges
  refine ⟨⟨hnodes, fun id => ?_⟩, ⟨hedges, fun id => ?_⟩, ?_⟩
  · exact find?_view_perm ComparedNode.atRest (fun _ => rfl) hnodes hnodeIds id
  · exact find?_view_perm ComparedEdge.atRest (fun _ => rfl) hedges hedgeIds id
  · exact issues_of_layout h threshold threshold' hprevious hcurrent hlayout

end PlaceBlind

/-- Two nodes that change places, one of which also goes elsewhere on the canvas, and a third that is gone:
the first node has moved in the one layout and not in the other, and all else is reported alike. -/
theorem diff_of_layout_exchanged :
    let node (id name : String) : Node := ⟨id, "inputNode", name, .null, .origin⟩
    let previous : Graph := ⟨[node "a" "A", node "b" "B", node "c" "C"], []⟩
    let current : Graph := ⟨[node "a" "A", node "b" "b"], []⟩
    let current' : Graph := ⟨[node "b" "b", { node "a" "A" with position := ⟨⟨false, 1⟩, .zero⟩ }], []⟩
    let first := diff ⟨.builtin, none⟩ previous current
    let second := diff ⟨.builtin, none⟩ previous current'
    let status (result : ComparedGraph) (id : String) :=
      (result.node? id).map fun node => node.change.map fun change => (change.status, change.hasMoved)
    (∀ id, (first.node? id).map ComparedNode.atRest = (second.node? id).map ComparedNode.atRest)
      ∧ ["a", "b", "c"].map (status first)
        = [some none, some (some ("modified", false)), some (some ("removed", false))]
      ∧ ["a", "b", "c"].map (status second) = [some (some ("moved", true)),
        some (some ("modified", true)), some (some ("removed", false))] := by
  intro node previous current current' first second status
  have hcomposed : Registry.builtin.Composed Behavior.PlaceBlind := .builtin
  have hprevious : previous.Distinct := ⟨by decide, by decide⟩
  have hcurrent : current.Distinct := ⟨by decide, by decide⟩
  have hlayout : current.SameButLayout current' := ⟨List.Perm.swap .., List.Perm.refl _⟩
  obtain ⟨⟨-, hnodes⟩, -⟩ := diff_of_layout hcomposed none none hprevious hcurrent hlayout
  exact ⟨hnodes, by decide, by decide⟩

end Comparison

end DecisionGraph
