import DecisionGraph.Proofs.Diff.Natural
import DecisionGraph.Proofs.Diff.Tolerance
import DecisionGraph.Proofs.Diff.Partners
import DecisionGraph.Proofs.Propagation.Cycles
import DecisionGraph.Proofs.Propagation.Unannotated

/-!
# Names of kinds

A kind has a tag and other names, and it makes no difference under which of them a node goes
(`Graph.canonical_alike`). Write the tag of its kind into every node:

* **Propagation** comes to the same shapes, dirty nodes and cycles. Data flow along the same edges, and the
  output of a node is what its kind makes of it (`Environment.infer_canonical`).
* **Comparison** pairs the same nodes, since it pairs by ids (`align_map`), and says the same of each pair
  (`Comparison.compareNodes_canonical`). What it records as the previous tag is another text, of course.

Two tags of different kinds stay different. For this the tags have to be names of kinds: any other tag is left
as it is, and two texts can be taken for one where the tag of a kind and that text would not be.
-/

namespace DecisionGraph

/-! ## Tags -/

/-- The tag of the kind that has the name. A name that no kind has is left as it is. -/
def Kind.canonical (name : String) : String := (ofName? name).elim name tag

namespace Kind

theorem ofName?_tag (kind : Kind) : ofName? kind.tag = some kind := by
  cases kind <;> decide

/-- **The canonical tag stands for the same kind.** -/
theorem ofName?_canonical (name : String) : ofName? (canonical name) = ofName? name := by
  unfold canonical
  cases hname : ofName? name with
  | none => exact hname
  | some kind => exact ofName?_tag kind

/-- No name of a kind has white space around it. -/
theorem trim_of_ofName? {name : String} {kind : Kind} (h : ofName? name = some kind) :
    Text.trim name = name := by
  have hnames : ∀ kind ∈ all, ∀ name ∈ kind.names, Text.trim name = name := by decide
  exact hnames kind (List.mem_of_find?_eq_some h) name (by simpa using List.find?_some h)

end Kind

/-- The node with the tag of its kind. -/
def Node.canonical (node : Node) : Node := { node with kind := Kind.canonical node.kind }

/-- The graph with the tag of its kind in every node. -/
def Graph.canonical (graph : Graph) : Graph := { graph with nodes := graph.nodes.map Node.canonical }

/-- All tags of the nodes are names of kinds. -/
def Graph.Known (graph : Graph) : Prop := ∀ node ∈ graph.nodes, ∃ kind, Kind.ofName? node.kind = some kind

namespace Registry

theorem get?_canonical (name : String) : builtin.get? (Kind.canonical name) = builtin.get? name := by
  rw [get?_builtin_eq, get?_builtin_eq, Kind.ofName?_canonical]

/-- Names count as one kind if they stand for one. -/
theorem equates_iff_ofName? {name other : String} {kind : Kind} (h : Kind.ofName? name = some kind) :
    builtin.equates name other = true ↔ Kind.ofName? name = Kind.ofName? other := by
  refine ⟨ofName?_of_equates, fun heq => ?_⟩
  exact equates_builtin_iff.mpr (Or.inr ⟨kind, h, heq ▸ h⟩)

theorem equates_canonical {name other : String} {kind : Kind} (h : Kind.ofName? name = some kind) :
    builtin.equates (Kind.canonical name) (Kind.canonical other) = builtin.equates name other := by
  have hcanonical : Kind.ofName? (Kind.canonical name) = some kind := by rw [Kind.ofName?_canonical, h]
  rw [Bool.eq_iff_iff, equates_iff_ofName? h, equates_iff_ofName? hcanonical, Kind.ofName?_canonical,
    Kind.ofName?_canonical]

end Registry

/-! ## Propagation -/

/-- With the same flow of data the same nodes form cycles. -/
theorem Graph.SameFlow.isCycle_iff {previous current : Graph} (h : previous.SameFlow current)
    {ids : List String} : previous.IsCycle ids ↔ current.IsCycle ids := by
  constructor
  · intro hcycle
    exact ⟨h.nodeIds ▸ hcycle.inOrder, h.feeds ▸ hcycle.component, h.feeds ▸ hcycle.cyclic⟩
  · intro hcycle
    exact ⟨h.nodeIds ▸ hcycle.inOrder, h.feeds ▸ hcycle.component, h.feeds ▸ hcycle.cyclic⟩

namespace Environment

/-- **The output of a node is what its kind makes of it, whatever name that goes by.** -/
theorem infer_canonical (external : Option Shape) (node : Node) (input : Shape) :
    (infer ⟨.builtin, external⟩ node input).output
      = (infer ⟨.builtin, external⟩ node.canonical input).output := by
  have hget : Registry.builtin.get? node.canonical.kind = Registry.builtin.get? node.kind :=
    Registry.get?_canonical node.kind
  rw [infer_output, infer_output]
  dsimp only
  rw [hget, Registry.get?_builtin_eq]
  cases Kind.ofName? node.kind with
  | none => rfl
  | some kind => cases kind <;> rfl

variable {registry : Registry} {external : Option Shape} {previous current : Graph}

/-- With the same flow of data and the same outputs for all inputs, propagation comes to the same. -/
theorem shapes_of_flow (environment : Environment) (h : previous.SameFlow current)
    (hinfer : ∀ id node other, previous.node? id = some node → current.node? id = some other →
      ∀ input, (environment.infer node input).output = (environment.infer other input).output)
    (changed : List String) (id : String) :
    ((environment.propagate previous changed none).node? id).map (fun shapes => (shapes.input, shapes.output))
      = ((environment.propagate current changed none).node? id).map
        fun shapes => (shapes.input, shapes.output) := by
  by_cases hid : id ∈ previous.nodeIds
  · obtain ⟨shapes, shapes', hsome, hsome', hinput, houtput⟩ :=
      environment.propagate_alike_of_flow h hinfer changed id hid
    rw [hsome, hsome', Option.map_some, Option.map_some, hinput, houtput]
  · have hid' : id ∉ current.nodeIds := h.nodeIds ▸ hid
    rw [((environment.propagate_solves previous changed none).outside hid).1,
      ((environment.propagate_solves current changed none).outside hid').1]

/-- With the same flow of data the same cycles are reported. -/
theorem cycle_issues_of_flow (hregistry : registry.Composed Behavior.Quiet) (h : previous.SameFlow current)
    (changed : List String) :
    (propagate ⟨registry, external⟩ previous changed none).issues.filter Issue.isCycle
      = (propagate ⟨registry, external⟩ current changed none).issues.filter Issue.isCycle := by
  have hascending : ∀ graph : Graph, Issue.Ascending
      ((propagate ⟨registry, external⟩ graph changed none).issues.filter Issue.isCycle) :=
    fun graph => List.Pairwise.filter _ (Issue.ascending_report _)
  refine (hascending previous).ext (hascending current) fun issue => ?_
  rw [List.mem_filter, List.mem_filter]
  refine and_congr_left fun hcycle => ?_
  cases issue with
  | malformedContent | unknownKind | invalidExpression => cases hcycle
  | cyclicDependency ids =>
      rw [(propagate_cycles hregistry .none previous changed).1,
        (propagate_cycles hregistry .none current changed).1, h.isCycle_iff]

end Environment

theorem Graph.canonical_sameFlow (graph : Graph) : graph.SameFlow graph.canonical where
  nodeIds := by
    unfold nodeIds canonical
    rw [List.map_map]
    rfl
  ends := rfl

theorem Graph.canonical_node? (graph : Graph) (id : String) :
    graph.canonical.node? id = (graph.node? id).map Node.canonical := List.find?_map ..

/-- **Propagation does not depend on the names of kinds.** -/
theorem Environment.propagate_canonical (external : Option Shape) (graph : Graph) (changed : List String) :
    let plain := propagate ⟨.builtin, external⟩ graph changed none
    let canonical := propagate ⟨.builtin, external⟩ graph.canonical changed none
    (∀ id, (plain.node? id).map (fun shapes => (shapes.input, shapes.output))
        = (canonical.node? id).map fun shapes => (shapes.input, shapes.output))
      ∧ plain.dirty = canonical.dirty
      ∧ plain.issues.filter Issue.isCycle = canonical.issues.filter Issue.isCycle := by
  intro plain canonical
  have hflow := graph.canonical_sameFlow
  have hinfer : ∀ id node other, graph.node? id = some node → graph.canonical.node? id = some other →
      ∀ input, (infer ⟨.builtin, external⟩ node input).output
        = (infer ⟨.builtin, external⟩ other input).output := by
    intro id node other hnode hother input
    rw [Graph.canonical_node?, hnode] at hother
    obtain rfl := Option.some.inj hother
    exact infer_canonical external node input
  exact ⟨shapes_of_flow _ hflow hinfer changed, congrArg sortedDistinct (hflow.downstream changed),
    cycle_issues_of_flow .builtin hflow changed⟩

/-! ## Maps that differ under one name -/

/-- The maps have the same names, and the same values under all names but one. -/
structure Keyed.SameBut {α : Type} (name : String) (entries others : Keyed α) : Prop where
  names : Keyed.names entries = Keyed.names others
  get? : ∀ other, other ≠ name → Keyed.get? other entries = Keyed.get? other others

namespace Keyed

variable {α : Type} {name : String} {entries others : Keyed α}

theorem SameBut.refl (name : String) (entries : Keyed α) : SameBut name entries entries :=
  ⟨rfl, fun _ _ => rfl⟩

/-- Where a name is put depends on the names that are there. -/
theorem names_insert_congr (h : names entries = names others) (key : String) (value value' : α) :
    names (insert key value entries) = names (insert key value' others) := by
  induction entries generalizing others with
  | nil =>
      obtain rfl := List.map_eq_nil_iff.mp h.symm
      rfl
  | cons entry rest ih =>
      obtain ⟨⟨first, old⟩, more, rfl, hfirst, hrest⟩ := List.map_eq_cons_iff.mp h.symm
      obtain ⟨other, old'⟩ := entry
      obtain rfl : first = other := hfirst
      unfold insert
      split
      · exact congrArg (key :: ·) h
      · split
        · exact congrArg (key :: ·) hrest.symm
        · exact congrArg (first :: ·) (ih hrest.symm)

/-- Under the name itself the two maps may get different values. -/
theorem SameBut.insert (h : SameBut name entries others) {key : String} {value value' : α}
    (hvalue : key ≠ name → value = value') :
    SameBut name (insert key value entries) (insert key value' others) where
  names := names_insert_congr h.names key value value'
  get? := by
    intro other hother
    rw [get?_insert, get?_insert]
    split
    · rename_i hkey
      rw [hvalue (hkey ▸ hother)]
    · exact h.get? other hother

theorem SameBut.union (h : SameBut name entries others) (more : Keyed α) :
    SameBut name (union entries more) (union others more) := by
  unfold Keyed.union
  induction more generalizing entries others with
  | nil => exact h
  | cons entry rest ih => exact ih (h.insert fun _ => rfl)

end Keyed

/-! ## Comparison -/

/-- The changes say the same but for the value of the tag before. -/
structure Change.SameButTag (change other : Change) : Prop where
  status : change.status = other.status
  moved : change.hasMoved = other.hasMoved
  fields : Keyed.SameBut "type" change.fields other.fields

theorem Change.SameButTag.refl (change : Change) : change.SameButTag change := ⟨rfl, rfl, .refl _ _⟩

theorem Change.ofPair?_sameButTag {fields others : FieldChanges} (h : Keyed.SameBut "type" fields others)
    (moved : Bool) : Option.Rel SameButTag (ofPair? fields moved) (ofPair? others moved) := by
  cases fields with
  | nil =>
      obtain rfl := List.map_eq_nil_iff.mp h.names.symm
      cases moved with
      | false => exact .none
      | true => exact .some (.refl _)
  | cons field rest =>
      cases others with
      | nil => cases h.names
      | cons other more => exact .some ⟨rfl, rfl, h⟩

/-- The same is reported of the node and of the one that has the tag of its kind, but for the tag before. -/
structure ComparedNode.SameButTag (node canonical : ComparedNode) : Prop where
  node_eq : canonical.node = node.node.canonical
  change : Option.Rel Change.SameButTag node.change canonical.change
  lists : node.lists = canonical.lists

namespace Comparison

/-- Contents are compared as the kind asks, whatever name that goes by. -/
theorem compareContents_canonical (previous current : Node) :
    (compareContents .builtin previous current).1
      = (compareContents .builtin previous.canonical current.canonical).1 := by
  have hname : Kind.ofName? current.canonical.kind = Kind.ofName? current.kind :=
    Kind.ofName?_canonical current.kind
  rw [compareContents_builtin, compareContents_builtin, hname]
  cases Kind.ofName? current.kind with
  | none => rfl
  | some kind => cases kind <;> rfl

/-- Names and tags of nodes of different kinds: the same fields changed. -/
theorem changedFields_canonical (name : Option FieldChange) {tag other : String} {kind kind' : Kind}
    (htag : Kind.ofName? tag = some kind) (hother : Kind.ofName? other = some kind') (hne : kind ≠ kind') :
    Keyed.SameBut "type"
      (changedFields [("name", name), ("type", FieldChange.ofTexts? (some tag) (some other))])
      (changedFields [("name", name), ("type",
        FieldChange.ofTexts? (some (Kind.canonical tag)) (some (Kind.canonical other)))]) := by
  have hsome : ∀ {first second : String}, Kind.ofName? first = some kind →
      Kind.ofName? second = some kind' →
      FieldChange.ofTexts? (some first) (some second) = some ⟨some (.text first)⟩ := by
    intro first second hfirst hsecond
    refine if_neg fun htrim => hne ?_
    rw [Option.getD_some, Option.getD_some, Kind.trim_of_ofName? hfirst, Kind.trim_of_ofName? hsecond]
      at htrim
    rw [htrim, hsecond] at hfirst
    exact (Option.some.inj hfirst).symm
  rw [hsome htag hother, hsome (by rw [Kind.ofName?_canonical, htag])
    (by rw [Kind.ofName?_canonical, hother])]
  cases name with
  | none => exact (Keyed.SameBut.refl _ []).insert fun hne => absurd rfl hne
  | some diff =>
      exact ((Keyed.SameBut.refl _ []).insert fun _ => rfl).insert fun hne => absurd rfl hne

/-- **The same is said of two nodes under the tags of their kinds.** -/
theorem compareNodes_canonical (threshold : Option Float) {previous current : Node} {kind kind' : Kind}
    (hprevious : Kind.ofName? previous.kind = some kind) (hcurrent : Kind.ofName? current.kind = some kind')
    (moved : Bool) :
    ((mk .builtin threshold).compareNodes previous current moved).1.SameButTag
      ((mk .builtin threshold).compareNodes previous.canonical current.canonical moved).1 := by
  have hequates : Registry.builtin.equates previous.canonical.kind current.canonical.kind
      = Registry.builtin.equates previous.kind current.kind := Registry.equates_canonical hprevious
  have hcontents := compareContents_canonical previous current
  unfold compareNodes
  dsimp only
  rw [hequates]
  cases hsame : Registry.builtin.equates previous.kind current.kind with
  | true =>
      rw [if_pos rfl, if_pos rfl, if_pos rfl, if_pos rfl, ← hcontents]
      exact ⟨rfl, Change.ofPair?_sameButTag (.refl _ _) _, rfl⟩
  | false =>
      have hne : kind ≠ kind' := by
        rintro rfl
        rw [(Registry.equates_iff_ofName? hprevious).mpr (hprevious.trans hcurrent.symm)] at hsame
        cases hsame
      rw [if_neg Bool.false_ne_true, if_neg Bool.false_ne_true, if_neg Bool.false_ne_true,
        if_neg Bool.false_ne_true]
      exact ⟨rfl, Change.ofPair?_sameButTag
        ((changedFields_canonical _ hprevious hcurrent hne).union _) _, rfl⟩

/-- The same is said of the nodes of two graphs, place by place. -/
theorem diff_nodes_canonical (threshold : Option Float) {previous current : Graph}
    (hprevious : previous.Known) (hcurrent : current.Known) :
    List.Forall₂ ComparedNode.SameButTag (diff ⟨.builtin, threshold⟩ previous current).nodes
      (diff ⟨.builtin, threshold⟩ previous.canonical current.canonical).nodes := by
  have halign : align (fun node => .named node.id) previous.canonical.nodes current.canonical.nodes
      = (align (fun node => .named node.id) previous.nodes current.nodes).map (Slot.map Node.canonical) :=
    align_map Node.canonical (fun node => .named node.id) previous.nodes current.nodes
  rw [diff_nodes, diff_nodes, halign, List.map_map, List.forall₂_map_left_iff, List.forall₂_map_right_iff,
    List.forall₂_same]
  intro slot hslot
  cases slot with
  | added node => exact ⟨rfl, .some (.refl _), rfl⟩
  | removed node => exact ⟨rfl, .some (.refl _), rfl⟩
  | paired node other moved =>
      obtain ⟨hnode, hother, -⟩ := Paired.spec ⟨moved, hslot⟩
      obtain ⟨kind, hkind⟩ := hprevious node.item (List.mem_of_getElem? (mem_placed.mp hnode))
      obtain ⟨kind', hkind'⟩ := hcurrent other.item (List.mem_of_getElem? (mem_placed.mp hother))
      exact compareNodes_canonical threshold hkind hkind' moved

end Comparison

/--
**It makes no difference under which of its names a kind goes.**

Write the tag of its kind into every node of two graphs whose tags are names of known kinds.

* Propagation through the second of them gives every node the same input and the same output, finds the same
  nodes dirty and reports the same cycles, whatever comes from outside and whatever is said to be changed.
* The comparison of the two says the same of all nodes, place by place: their status, whether they have
  moved, which fields changed and what these were before, and their rows. Only what it records as the tag
  before is the tag of the kind. What it says of edges is the same.
-/
theorem Graph.canonical_alike {previous current : Graph} (hprevious : previous.Known)
    (hcurrent : current.Known) :
    (∀ external changed,
      let plain := Environment.propagate ⟨.builtin, external⟩ current changed none
      let canonical := Environment.propagate ⟨.builtin, external⟩ current.canonical changed none
      (∀ id, (plain.node? id).map (fun shapes => (shapes.input, shapes.output))
          = (canonical.node? id).map fun shapes => (shapes.input, shapes.output))
        ∧ plain.dirty = canonical.dirty
        ∧ plain.issues.filter Issue.isCycle = canonical.issues.filter Issue.isCycle)
    ∧ ∀ threshold,
      let plain := Comparison.diff ⟨.builtin, threshold⟩ previous current
      let canonical := Comparison.diff ⟨.builtin, threshold⟩ previous.canonical current.canonical
      List.Forall₂ ComparedNode.SameButTag plain.nodes canonical.nodes
        ∧ plain.edges = canonical.edges :=
  ⟨fun external changed => Environment.propagate_canonical external current changed,
    fun threshold => ⟨Comparison.diff_nodes_canonical threshold hprevious hcurrent, rfl⟩⟩

/-- A calculation under a short name that is compared with one under its tag, and with a switch. -/
theorem Graph.canonical_alike_short :
    let node (id kind name : String) : Node := ⟨id, kind, name, .null, .origin⟩
    let previous : Graph := ⟨[node "a" "expr" "A", node "b" "expr" "B"], []⟩
    let current : Graph := ⟨[node "b" "switch" "B", node "a" "expressionNode" "a"], []⟩
    let plain := Comparison.diff ⟨.builtin, none⟩ previous current
    let canonical := Comparison.diff ⟨.builtin, none⟩ previous.canonical current.canonical
    let fields (result : ComparedGraph) := result.nodes.map fun node =>
      node.change.map fun change => (Keyed.names change.fields, change.hasMoved)
    List.Forall₂ ComparedNode.SameButTag plain.nodes canonical.nodes
      ∧ fields plain = [some (["type"], true), some (["name"], true)]
      ∧ fields canonical = fields plain := by
  intro node previous current plain canonical fields
  have hprevious : previous.Known := by
    intro other hother
    simp only [previous, List.mem_cons, List.not_mem_nil, or_false] at hother
    obtain rfl | rfl := hother <;> exact ⟨.expression, by decide⟩
  have hcurrent : current.Known := by
    intro other hother
    simp only [current, List.mem_cons, List.not_mem_nil, or_false] at hother
    obtain rfl | rfl := hother
    · exact ⟨.switch, by decide⟩
    · exact ⟨.expression, by decide⟩
  exact ⟨((canonical_alike hprevious hcurrent).2 none).1, by decide, by decide⟩

end DecisionGraph
