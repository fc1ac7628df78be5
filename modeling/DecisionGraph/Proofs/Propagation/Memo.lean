import DecisionGraph.Proofs.Behavior.Determined
import DecisionGraph.Proofs.Propagation.Reached
import DecisionGraph.Proofs.Registry

/-!
# Earlier results make no difference

A propagation that starts from an earlier result keeps what it may keep, and computes the rest. This
is how it comes to the same shapes as a propagation that computes everything:

1. **What is remembered is explained** (`Propagation.Explained`). If a result remembers what a node
   was computed from, its shapes are those that any node of that id with the same basis would get.
   This speaks of one result alone. Whether the node had a basis like this in the graph that the
   result came from, or was on a cycle before, or is another node by now, does not matter.
2. **Propagations explain what they remember** (`propagate_explained`), if what they start from does.
   A node that keeps its shapes stores its current basis. That is the same as the one remembered, so
   what explains the one explains the other.
3. **Nodes get the same from explained results** (`shapesFor_alike`), so along the flow of data the
   two propagations agree on one node after the other (`propagate_eq_fresh`).

Nodes on a cycle are remembered by nothing, and nothing is kept for them.
-/

namespace DecisionGraph

theorem NodeBasis.same_iff {a b : NodeBasis} :
    a.same b = true ↔ a.kind = b.kind ∧ a.input = b.input ∧ a.content.same b.content = true
      ∧ a.external = b.external := by
  simp [same, and_assoc]

/-- Shapes that are equal, with issues that tell the same about cycles. -/
structure NodeShapes.Alike (a b : NodeShapes) : Prop where
  input : a.input = b.input
  output : a.output = b.output
  cycles : ∀ issue : Issue, issue.isCycle = true → (issue ∈ a.issues ↔ issue ∈ b.issues)

theorem NodeShapes.Alike.refl (a : NodeShapes) : a.Alike a := ⟨rfl, rfl, fun _ _ => Iff.rfl⟩

theorem NodeShapes.Alike.trans {a b c : NodeShapes} (h : a.Alike b) (h' : b.Alike c) : a.Alike c :=
  ⟨h.input.trans h'.input, h.output.trans h'.output,
    fun issue hcycle => (h.cycles issue hcycle).trans (h'.cycles issue hcycle)⟩

/-- All behaviors of the registry are determined. -/
def Registry.Determined (registry : Registry) : Prop :=
  ∀ tag behavior, registry.get? tag = some behavior → behavior.Determined

namespace Environment

variable {registry : Registry} {external : Option Shape}

/-- With determined behaviors, results are stale if their basis is another one. -/
theorem isStale_eq (h : registry.Determined) (kind : String) (previous current : NodeBasis) :
    isStale ⟨registry, external⟩ kind previous current = !previous.same current := by
  unfold isStale
  dsimp only
  cases hget : registry.get? kind with
  | none => rfl
  | some behavior =>
      dsimp only
      rw [(h kind behavior hget).stale]

/-- **Nodes of one id and with the same basis are computed alike.** -/
theorem compute_alike (h : registry.Determined) {external' : Option Shape} {node other : Node}
    {input : Shape} (hid : node.id = other.id)
    (hsame : (basisOf ⟨registry, external⟩ node input).same (basisOf ⟨registry, external'⟩ other input)
      = true) :
    (compute ⟨registry, external⟩ node input).Alike (compute ⟨registry, external'⟩ other input) := by
  obtain ⟨hkind, _, hcontent, hexternal⟩ := NodeBasis.same_iff.mp hsame
  dsimp only [basisOf] at hkind hcontent hexternal
  unfold compute infer
  dsimp only
  rw [← hkind] at hexternal ⊢
  cases hget : registry.get? node.kind with
  | none =>
      dsimp only
      rw [hid]
      exact .refl _
  | some behavior =>
      rw [hget] at hexternal
      have hreads : behavior.readsExternal = true → external = external' := by
        intro hreads
        rwa [Option.any_some, if_pos hreads, if_pos hreads] at hexternal
      have hinfer : (behavior.infer node input external).toOption
          = (behavior.infer other input external').toOption :=
        (h node.kind behavior hget).infer hid hkind hcontent hreads
      dsimp only
      cases hfirst : behavior.infer node input external with
      | error error =>
          rw [hfirst] at hinfer
          cases hsecond : behavior.infer other input external' with
          | error error' =>
              -- the messages can be different, but are no cycles
              refine ⟨rfl, rfl, ?_⟩
              intro issue hcycle
              constructor
              · intro hmem
                rw [List.mem_singleton.mp hmem] at hcycle
                cases hcycle
              · intro hmem
                rw [List.mem_singleton.mp hmem] at hcycle
                cases hcycle
          | ok inferred => rw [hsecond] at hinfer; cases hinfer
      | ok inferred =>
          rw [hfirst] at hinfer
          cases hsecond : behavior.infer other input external' with
          | error error => rw [hsecond] at hinfer; cases hinfer
          | ok inferred' =>
              rw [hsecond] at hinfer
              obtain rfl := Option.some.inj hinfer
              exact .refl _

end Environment

/-- What a result remembers explains the shapes that it has. -/
def Propagation.Explained (registry : Registry) (result : Propagation) : Prop :=
  ∀ id basis, Keyed.get? id result.bases = some basis →
    ∃ shapes, result.node? id = some shapes
      ∧ ∀ (external : Option Shape) (node : Node), node.id = id →
        basis.same (Environment.basisOf ⟨registry, external⟩ node basis.input) = true →
        shapes.Alike (Environment.compute ⟨registry, external⟩ node basis.input)

namespace Environment

variable {registry : Registry} {external : Option Shape} {graph : Graph} {changed : List String}
  {previous : Option Propagation}

/-- **From an explained result a node gets what it would get without it.** -/
theorem shapesFor_alike (h : registry.Determined)
    (hprevious : ∀ result ∈ previous, result.Explained registry) (node : Node) (input : Shape) :
    (shapesFor ⟨registry, external⟩ changed previous node input).Alike
      (compute ⟨registry, external⟩ node input) := by
  unfold shapesFor
  cases hkept : kept? ⟨registry, external⟩ changed previous node
      (basisOf ⟨registry, external⟩ node input) with
  | none => exact .refl _
  | some kept =>
      obtain ⟨result, before, hresult, _, hbefore, hstale, hold⟩ := kept?_eq_some.mp hkept
      rw [isStale_eq h, Bool.not_eq_false'] at hstale
      have hinput : before.input = input := (NodeBasis.same_iff.mp hstale).2.1
      obtain ⟨shapes, hshapes, hexplained⟩ := hprevious result hresult node.id before hbefore
      obtain rfl : shapes = kept := Option.some.inj (hshapes.symm.trans hold)
      rw [hinput] at hexplained
      exact hexplained external node rfl hstale

/-- **A propagation from explained results is explained.** -/
theorem propagate_explained (h : registry.Determined)
    (hprevious : ∀ result ∈ previous, result.Explained registry) :
    (propagate ⟨registry, external⟩ graph changed previous).Explained registry := by
  have hsolves := propagate_solves ⟨registry, external⟩ graph changed previous
  intro id basis hbasis
  have hid : id ∈ graph.nodeIds := by
    refine Classical.byContradiction fun hout => ?_
    rw [(hsolves.outside hout).2] at hbasis
    cases hbasis
  have hc : ¬graph.OnCycle id := by
    intro hc
    rw [(hsolves.cyclic hc).2] at hbasis
    cases hbasis
  obtain ⟨node, hnode⟩ := Graph.exists_node? hid
  obtain ⟨hentry, hown⟩ := hsolves.acyclic hnode hc
  obtain rfl := Option.some.inj (hbasis.symm.trans hown)
  refine ⟨_, hentry, ?_⟩
  intro external' other hother hsame
  have hsameId : node.id = other.id := (Graph.node?_id hnode).trans hother.symm
  exact (shapesFor_alike h hprevious node _).trans (compute_alike h hsameId hsame)

/-- Node for node, a propagation from an explained result comes to what one without it comes to. -/
theorem propagate_alike (h : registry.Determined)
    (hprevious : ∀ result ∈ previous, result.Explained registry) :
    ∀ id ∈ graph.nodeIds, ∃ shapes fresh,
      (propagate ⟨registry, external⟩ graph changed previous).node? id = some shapes
        ∧ (propagate ⟨registry, external⟩ graph changed none).node? id = some fresh
        ∧ shapes.Alike fresh := by
  have hsolves := propagate_solves ⟨registry, external⟩ graph changed previous
  have hfresh := propagate_solves ⟨registry, external⟩ graph changed none
  refine Graph.flow_induction ?_ ?_
  · intro id hc
    exact ⟨_, _, (hsolves.cyclic hc).1, (hfresh.cyclic hc).1, .refl _⟩
  · intro id hid hc hsources
    obtain ⟨node, hnode⟩ := Graph.exists_node? hid
    have hinput : (propagate ⟨registry, external⟩ graph changed previous).inputAt graph id
        = (propagate ⟨registry, external⟩ graph changed none).inputAt graph id := by
      refine inputAt_congr fun source hfeeds => ?_
      obtain ⟨shapes, fresh, hshapes, hfresh', halike⟩ := hsources source hfeeds
      rw [hshapes, hfresh']
      exact congrArg some halike.output
    refine ⟨_, _, (hsolves.acyclic hnode hc).1, (hfresh.acyclic hnode hc).1, ?_⟩
    rw [hinput, shapesFor_none]
    exact shapesFor_alike h hprevious node _

/--
**Memoization is transparent.**

Whatever chain of propagations with one registry an earlier result comes from, a propagation that
starts from it gives every node the input and the output that it gets without it, and reports the
same cycles. The registry knows the known kinds, further names for them, and behaviors from outside
that are determined.
-/
theorem propagate_eq_fresh (hregistry : registry.Composed Behavior.Determined)
    (hprevious : Propagation.Reached (· = registry) previous) (external : Option Shape)
    (graph : Graph) (changed : List String) :
    let environment : Environment := ⟨registry, external⟩
    let result := environment.propagate graph changed previous
    let fresh := environment.propagate graph changed none
    (∀ id, (result.node? id).map (fun shapes => (shapes.input, shapes.output))
        = (fresh.node? id).map fun shapes => (shapes.input, shapes.output))
      ∧ result.issues.filter Issue.isCycle = fresh.issues.filter Issue.isCycle := by
  intro environment result fresh
  have hdetermined : registry.Determined :=
    fun tag behavior => hregistry.forall Behavior.ofKind_determined fun _ h => h
  have hexplained : ∀ earlier ∈ previous, earlier.Explained registry := by
    refine hprevious.forall ?_
    intro other external graph changed earlier heq hearlier
    subst heq
    exact propagate_explained hdetermined hearlier
  have halike : ∀ id, (result.node? id = none ∧ fresh.node? id = none)
      ∨ ∃ shapes shapes', result.node? id = some shapes ∧ fresh.node? id = some shapes'
        ∧ shapes.Alike shapes' := by
    intro id
    by_cases hid : id ∈ graph.nodeIds
    · exact Or.inr (propagate_alike hdetermined hexplained id hid)
    · have hout := environment.propagate_solves graph changed previous
      have hout' := environment.propagate_solves graph changed none
      exact Or.inl ⟨(hout.outside hid).1, (hout'.outside hid).1⟩
  constructor
  · intro id
    rcases halike id with ⟨hnone, hnone'⟩ | ⟨shapes, shapes', hsome, hsome', h⟩
    · rw [hnone, hnone']
    · rw [hsome, hsome', Option.map_some, Option.map_some, h.input, h.output]
  · -- both lists are in order, so it is enough that they have the same members
    refine Issue.Ascending.ext ((Issue.ascending_report _).filter _)
      ((Issue.ascending_report _).filter _) fun issue => ?_
    rw [List.mem_filter, List.mem_filter]
    refine and_congr_left fun hcycle => ?_
    rw [mem_issues, mem_issues]
    refine or_congr_right (exists_congr fun id => ?_)
    rcases halike id with ⟨hnone, hnone'⟩ | ⟨shapes, shapes', hsome, hsome', h⟩
    · rw [hnone, hnone']
    · rw [hsome, hsome']
      constructor
      · intro ⟨_, heq, hmem⟩
        obtain rfl := Option.some.inj heq
        exact ⟨shapes', rfl, (h.cycles issue hcycle).mp hmem⟩
      · intro ⟨_, heq, hmem⟩
        obtain rfl := Option.some.inj heq
        exact ⟨shapes, rfl, (h.cycles issue hcycle).mpr hmem⟩

/-- A node that was a function, and is now of a kind from outside that puts out what comes from outside, gets
nothing wrong from the earlier result. The node that feeds it is kept. -/
theorem propagate_eq_fresh_echo :
    let echo : Behavior :=
      { kind := "echo"
        compare := fun previous current => .ok (Behavior.compareWhole previous current)
        infer := fun _ input external => .ok (.of (external.getD input))
        readsExternal := true
        defaultContent := .null }
    let registry := (Registry.builtin.addAlias "lookup" "function").add echo
    let rows : Json := .object [("expressions",
      .array [.object [("id", .text "1"), ("key", .text "k"), ("value", .text "1 + 1")]])]
    let graph (kind : String) : Graph :=
      ⟨[⟨"a", kind, "a", .object [], .origin⟩, ⟨"b", "expressionNode", "b", rows, .origin⟩],
        [⟨"1", "b", "a", none, none⟩]⟩
    let earlier := propagate ⟨registry, none⟩ (graph "lookup") [] none
    let result := propagate ⟨registry, some .number⟩ (graph "echo") [] (some earlier)
    let fresh := propagate ⟨registry, some .number⟩ (graph "echo") [] none
    echo.Determined
      ∧ result.recomputed = ["a"] ∧ fresh.recomputed = ["a", "b"]
      ∧ (result.node? "a").map (fun shapes => (shapes.input, shapes.output)) = some (.object [("k", .number)], .number)
      ∧ (∀ id, (result.node? id).map (fun shapes => (shapes.input, shapes.output))
        = (fresh.node? id).map fun shapes => (shapes.input, shapes.output)) := by
  intro echo registry rows graph earlier result fresh
  have hecho : echo.Determined := by
    refine ⟨rfl, ?_⟩
    intro _ _ input external external' _ _ _ hexternal
    rw [hexternal rfl]
  have hregistry : registry.Composed Behavior.Determined := .add (.addAlias _ _ .builtin) hecho
  have hearlier : Propagation.Reached (· = registry) (some earlier) :=
    .propagate none (graph "lookup") [] rfl .none
  refine ⟨hecho, by decide +kernel, by decide +kernel, by decide +kernel, ?_⟩
  exact (propagate_eq_fresh hregistry hearlier (some .number) (graph "echo") []).1

end Environment

end DecisionGraph
