import DecisionGraph.Proofs.Behavior.Fits
import DecisionGraph.Proofs.Behavior.Issues
import DecisionGraph.Proofs.Propagation.Fresh

/-!
# Content that does not fit its kind

Comparison reads the content of every node of a known kind, and so finds whatever is wrong with it
(`Kind.compare_self_eq_error`). Inference reads that of five kinds: those whose output depends on it, and
functions, where it is read to be checked and for nothing else. Output nodes, switches and custom nodes pass
their input on with their content unread (`Kind.examines`).

So for the five kinds the two agree on what is wrong with content, to the message (`Kind.infer_eq_error`). For
the other three a comparison reports what a propagation misses (`Graph.malformed_content`).
-/

namespace DecisionGraph

/-! ## What the kinds find -/

section Kinds

variable {ε α β : Type}

theorem map_eq_error {part : Except ε α} {f : α → β} {error : ε} :
    part.map f = .error error ↔ part = .error error := by
  cases part with
  | error other => exact ⟨fun h => by cases h; rfl, fun h => by cases h; rfl⟩
  | ok value => exact ⟨fun h => (nomatch h), fun h => (nomatch h)⟩

/-- What goes on without fail fails where it starts. -/
theorem bind_eq_error {first : Except ε α} {next : α → Except ε β}
    (h : ∀ value, ∃ result, next value = .ok result) {error : ε} :
    first >>= next = .error error ↔ first = .error error := by
  cases first with
  | error other => exact ⟨fun h => by cases h; rfl, fun h => by cases h; rfl⟩
  | ok value =>
      obtain ⟨result, hresult⟩ := h value
      refine ⟨fun hnext => ?_, fun h => (nomatch h)⟩
      cases hresult.symm.trans hnext

end Kinds

/-- Whether nodes of the kind have their content read to find what they put out. -/
def Kind.examines : Kind → Bool
  | .output | .switch | .custom => false
  | .input | .expression | .decisionTable | .function | .decision => true

namespace Kind

variable {kind : Kind} {node : Node} {input : Shape} {error : ContentMismatch}

/-- **A node can be compared with itself unless its content does not fit.** -/
theorem compare_self_eq_error :
    (Behavior.ofKind kind).compare node node = .error error ↔ kind.read node.content = .error error := by
  rw [Kind.compare_eq_read]
  cases kind.read node.content with
  | error other => exact ⟨fun h => by cases h; rfl, fun h => by cases h; rfl⟩
  | ok _ => exact ⟨fun h => (nomatch h), fun h => (nomatch h)⟩

/-- **Without data from outside, the kinds that examine content infer an output unless it does not fit.** -/
theorem infer_eq_error_of_examines (h : kind.examines = true) :
    (Behavior.ofKind kind).infer node input none = .error error ↔ kind.read node.content = .error error := by
  -- all of these read the content first, and nothing they do with it can fail
  cases kind with
  | output | switch | custom => cases h
  | input =>
      refine (bind_eq_error fun content => ?_).trans map_eq_error.symm
      split
      · exact ⟨_, rfl⟩
      · exact ⟨_, rfl⟩
  | expression | decisionTable | function | decision =>
      exact (bind_eq_error fun content => ⟨_, rfl⟩).trans map_eq_error.symm

/-- The other kinds pass their input on, whatever their content is. -/
theorem infer_of_not_examines (h : kind.examines = false) (node : Node) (input : Shape)
    (external : Option Shape) :
    (Behavior.ofKind kind).infer node input external = .ok (.of input) := by
  cases kind with
  | output | switch | custom => rfl
  | input | expression | decisionTable | function | decision => cases h

/-- **Inference finds what comparison finds, if the kind examines content, and nothing otherwise.** -/
theorem infer_eq_error :
    (Behavior.ofKind kind).infer node input none = .error error
      ↔ kind.examines = true ∧ (Behavior.ofKind kind).compare node node = .error error := by
  cases h : kind.examines with
  | true => rw [infer_eq_error_of_examines h, compare_self_eq_error, and_iff_right rfl]
  | false =>
      rw [infer_of_not_examines h]
      exact ⟨fun h => (nomatch h), fun h => (nomatch h.1)⟩

end Kind

/-! ## What a comparison reports -/

namespace Comparison

/-- In a graph that is compared with itself every node is compared with itself. -/
theorem align_nodes_self (nodes : List Node) :
    ∀ slot ∈ align (fun node => .named node.id) nodes nodes, slot.Keeps Eq :=
  align_keeps_iff.mpr (List.forall₂_same.mpr fun _ _ => ⟨rfl, Label.noConfusion, rfl⟩)

theorem issues_compareNodes_self (comparison : Comparison) (node : Node) (moved : Bool) :
    (comparison.compareNodes node node moved).2 = (compareContents comparison.registry node node).2 := by
  unfold compareNodes
  rw [Registry.equates_self]
  rfl

/-- The issues of a graph that is compared with itself are those of its nodes. -/
theorem mem_issues_self {comparison : Comparison} {graph : Graph} {issue : Issue} :
    issue ∈ (comparison.diff graph graph).issues
      ↔ ∃ node ∈ graph.nodes, issue ∈ (compareContents comparison.registry node node).2 := by
  have hslot : ∀ slot ∈ align (fun node => .named node.id) graph.nodes graph.nodes,
      ∃ node, slot.current?.map Placed.item = some node
        ∧ (comparison.node slot).2 = (compareContents comparison.registry node node).2 := by
    intro slot hslot
    have hkeeps := align_nodes_self graph.nodes slot hslot
    cases slot with
    | paired item other moved =>
        have hsame : item.item = other.item := hkeeps.2
        refine ⟨other.item, rfl, ?_⟩
        unfold Comparison.node
        dsimp only
        rw [hsame, issues_compareNodes_self]
    | added | removed => exact hkeeps.elim
  unfold diff
  rw [Issue.mem_report, List.flatMap_map, List.mem_flatMap]
  constructor
  · rintro ⟨slot, hmem, hissue⟩
    obtain ⟨node, hcurrent, hissues⟩ := hslot slot hmem
    exact ⟨node, mem_align_current.mpr ⟨slot, hmem, hcurrent⟩, hissues ▸ hissue⟩
  · rintro ⟨node, hnode, hissue⟩
    obtain ⟨slot, hmem, hcurrent⟩ := mem_align_current.mp hnode
    obtain ⟨other, hcurrent', hissues⟩ := hslot slot hmem
    obtain rfl := Option.some.inj (hcurrent.symm.trans hcurrent')
    exact ⟨slot, hmem, hissues ▸ hissue⟩

/-- **Content that cannot be compared is reported.** -/
theorem malformed_reported {kind : Kind} {node : Node} (hkind : Kind.ofName? node.kind = some kind)
    {error : ContentMismatch} (herror : (Behavior.ofKind kind).compare node node = .error error)
    (threshold : Option Float) {graph : Graph} (hnode : node ∈ graph.nodes) :
    .malformedContent node.id node.kind error.message ∈ (diff ⟨.builtin, threshold⟩ graph graph).issues := by
  refine mem_issues_self.mpr ⟨node, hnode, ?_⟩
  unfold compareContents
  rw [Registry.get?_builtin_eq, hkind, Option.map_some]
  dsimp only
  rw [herror]
  exact List.mem_singleton_self _

end Comparison

/-! ## What a propagation reports -/

namespace Environment

variable {external : Option Shape} {graph : Graph} {changed : List String} {node : Node}

/-- All issues that a node comes with are about that node. -/
theorem nodes_of_mem_compute {input : Shape} {issue : Issue}
    (h : issue ∈ (compute ⟨.builtin, external⟩ node input).issues) : issue.nodes = [node.id] := by
  have hyields := compute_yields ⟨.builtin, external⟩ node input
  generalize compute ⟨.builtin, external⟩ node input = shapes at h hyields
  cases hyields with
  | unregistered | malformed =>
      rw [List.mem_singleton.mp h]
      rfl
  | inferred hget hok =>
      obtain ⟨kind, rfl⟩ := Registry.get?_builtin hget
      obtain ⟨source, message, rfl⟩ := Behavior.ofKind_issues hok issue h
      rfl

/-- **What is reported of a node that lies on no cycle is what it comes with.** -/
theorem mem_issues_of_node (hnode : graph.node? node.id = some node) (hacyclic : ¬graph.OnCycle node.id)
    {issue : Issue} (hissue : issue.nodes = [node.id]) (hcycle : issue.isCycle = false) :
    issue ∈ (propagate ⟨.builtin, external⟩ graph changed none).issues
      ↔ issue ∈ (compute ⟨.builtin, external⟩ node
          ((propagate ⟨.builtin, external⟩ graph changed none).inputAt graph node.id)).issues := by
  have hsolves := propagate_solves ⟨.builtin, external⟩ graph changed none
  rw [mem_issues]
  constructor
  · rintro (⟨cycle, -, rfl⟩ | ⟨id, shapes, hentry, hmem⟩)
    · cases hcycle
    · rcases propagate_node?_cases hentry with ⟨-, rfl⟩ | ⟨other, hother, -, rfl⟩
      · -- nodes of a cycle come with no issue of their own
        cases hmem
      · rw [shapesFor_none] at hmem
        -- the issue names the node that it comes with
        obtain rfl : id = node.id := by
          rw [nodes_of_mem_compute hmem, Graph.node?_id hother] at hissue
          exact (List.cons.inj hissue).1
        rw [hnode] at hother
        obtain rfl := Option.some.inj hother
        exact hmem
  · intro hmem
    exact Or.inr ⟨node.id, _, (hsolves.acyclic hnode hacyclic).1, hmem⟩

/-- A node comes with malformed content if its kind fails to infer an output. -/
theorem malformed_mem_compute {kind : Kind} (hkind : Kind.ofName? node.kind = some kind) {input : Shape}
    {tag message : String} :
    .malformedContent node.id tag message ∈ (compute ⟨.builtin, external⟩ node input).issues
      ↔ tag = node.kind ∧ ∃ error, (Behavior.ofKind kind).infer node input external = .error error
        ∧ error.message = message := by
  unfold compute infer
  dsimp only
  rw [Registry.get?_builtin_eq, hkind, Option.map_some]
  dsimp only
  cases hinfer : (Behavior.ofKind kind).infer node input external with
  | error error => simp [eq_comm]
  | ok inferred =>
      refine iff_of_false (fun hmem => ?_) fun h => (nomatch h.2.choose_spec.1)
      obtain ⟨source, message, hissue⟩ := Behavior.ofKind_issues hinfer _ hmem
      cases hissue

end Environment

/-! ## Both reports side by side -/

/-- The shapes of a node of the kind whose content does not fit, and the issue that comes with them. -/
def Kind.unfit (kind : Kind) (input : Shape) (issue : Issue) : NodeShapes :=
  if kind.examines then ⟨input, .any, [issue]⟩ else ⟨input, input.truncate Shape.maxDepth, []⟩

theorem Environment.compute_unfit {node : Node} {kind : Kind} (hkind : Kind.ofName? node.kind = some kind)
    {error : ContentMismatch} (herror : (Behavior.ofKind kind).compare node node = .error error)
    (input : Shape) :
    compute ⟨.builtin, none⟩ node input
      = kind.unfit input (.malformedContent node.id node.kind error.message) := by
  unfold compute infer Kind.unfit
  dsimp only
  rw [Registry.get?_builtin_eq, hkind, Option.map_some]
  dsimp only
  cases hexamines : kind.examines with
  | true =>
      rw [Kind.infer_eq_error.mpr ⟨hexamines, herror⟩]
      exact congrArg (NodeShapes.mk input · _) (Shape.truncate_any _)
  | false =>
      rw [Kind.infer_of_not_examines hexamines]
      rfl

/--
**What becomes of content that does not fit its kind.**

Without data from outside, a kind fails to infer the output of a node if it examines content and the node
cannot be compared with itself, and it gives the same reason. In a graph that is compared with itself, all such
content is reported. Of a node that lies on no cycle, a propagation reports it if the kind examines content,
and then nothing is known about the output; otherwise the node puts out what flows into it.
-/
theorem Graph.malformed_content {node : Node} {kind : Kind} (hkind : Kind.ofName? node.kind = some kind) :
    (∀ input error, (Behavior.ofKind kind).infer node input none = .error error
        ↔ kind.examines = true ∧ (Behavior.ofKind kind).compare node node = .error error)
      ∧ ∀ (graph : Graph) (changed : List String) (threshold : Option Float),
        graph.node? node.id = some node → ¬graph.OnCycle node.id →
        let result := Environment.propagate ⟨.builtin, none⟩ graph changed none
        let compared := Comparison.diff ⟨.builtin, threshold⟩ graph graph
        (∀ error, (Behavior.ofKind kind).compare node node = .error error →
          let issue : Issue := .malformedContent node.id node.kind error.message
          issue ∈ compared.issues
            ∧ ∃ input, result.node? node.id = some (kind.unfit input issue))
        ∧ ∀ tag message, .malformedContent node.id tag message ∈ result.issues
          ↔ tag = node.kind ∧ kind.examines = true
            ∧ ∃ error, (Behavior.ofKind kind).compare node node = .error error
              ∧ error.message = message := by
  refine ⟨fun input error => Kind.infer_eq_error, fun graph changed threshold hnode hacyclic => ?_⟩
  intro result compared
  refine ⟨fun error herror => ⟨?_, result.inputAt graph node.id, ?_⟩, fun tag message => ?_⟩
  · exact Comparison.malformed_reported hkind herror threshold (List.mem_of_find?_eq_some hnode)
  · rw [((Environment.propagate_solves _ graph changed none).acyclic hnode hacyclic).1]
    exact congrArg some (Environment.compute_unfit hkind herror _)
  · rw [Environment.mem_issues_of_node hnode hacyclic rfl rfl, Environment.malformed_mem_compute hkind]
    simp only [Kind.infer_eq_error, and_assoc, exists_and_left]

/-- A decision whose content is a number: both report it. -/
theorem Graph.malformed_content_decision :
    let node : Node := ⟨"a", "decision", "A", .number (.integer 5), .origin⟩
    let graph : Graph := ⟨[node], []⟩
    let result := Environment.propagate ⟨.builtin, none⟩ graph [] none
    let compared := Comparison.diff ⟨.builtin, none⟩ graph graph
    let error : ContentMismatch :=
      ⟨"decisionNode", .wrongType node.content (.record "DecisionContent")⟩
    let issue : Issue := .malformedContent "a" "decision" error.message
    Kind.ofName? node.kind = some .decision
      ∧ graph.node? "a" = some node ∧ ¬graph.OnCycle "a"
      ∧ Behavior.decision.infer node .any none = .error error
      ∧ (issue ∈ compared.issues ∧ ∃ input, result.node? "a" = some ⟨input, .any, [issue]⟩)
      ∧ issue ∈ result.issues := by
  intro node graph result compared error issue
  have hkind : Kind.ofName? node.kind = some .decision := by decide
  have hnode : graph.node? node.id = some node := rfl
  have hacyclic : ¬graph.OnCycle node.id := by
    intro hcycle
    obtain ⟨_, ⟨edge, hedge, -⟩, -⟩ := Relation.TransGen.head'_iff.mp hcycle
    cases hedge
  have herror : (Behavior.ofKind .decision).compare node node = .error error := rfl
  obtain ⟨hinfer, hreported⟩ := malformed_content hkind
  obtain ⟨hissue, hmem⟩ := hreported graph [] none hnode hacyclic
  exact ⟨hkind, hnode, hacyclic, (hinfer .any error).mpr ⟨rfl, herror⟩, hissue error herror,
    (hmem _ _).mpr ⟨rfl, rfl, error, herror, rfl⟩⟩

/-- An output node whose content is a number cannot be compared with itself, and it still puts out what flows
into it; the comparison reports it and the propagation does not. -/
theorem Graph.malformed_output_unread :
    let node : Node := ⟨"a", "outputNode", "A", .number (.integer 5), .origin⟩
    let graph : Graph := ⟨[node], []⟩
    let result := Environment.propagate ⟨.builtin, none⟩ graph [] none
    let error : ContentMismatch := ⟨"outputNode", .wrongType node.content (.record "SchemaContent")⟩
    Behavior.output.compare node node = .error error
      ∧ Behavior.output.infer node .any none = .ok (.of .any)
      ∧ (Comparison.diff ⟨.builtin, none⟩ graph graph).issues
        = [.malformedContent "a" "outputNode" error.message]
      ∧ result.issues = []
      ∧ (result.node? "a").map NodeShapes.output = some .empty := by
  intro node graph result error
  exact ⟨rfl, rfl, by decide, by decide +kernel, by decide +kernel⟩

end DecisionGraph
