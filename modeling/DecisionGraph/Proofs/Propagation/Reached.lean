import DecisionGraph.Proofs.Propagation.Equations

/-!
# Chains of propagations

A propagation can start from the result of an earlier one, that from a still earlier one, and so on,
each of its own graph. `Propagation.Reached` is what such a chain comes to; what every propagation
makes of earlier results that have it holds of all of them (`Reached.forall`).
-/

namespace DecisionGraph.Propagation

/--
The earlier results that a propagation can start from.

There is none, or it comes from a propagation with an allowed registry, that itself started from such
a one. Graphs, changed nodes and data from outside can be different every time.
-/
inductive Reached (allowed : Registry → Prop) : Option Propagation → Prop where
  | none : Reached allowed none
  | propagate {registry : Registry} {previous : Option Propagation} (external : Option Shape)
      (graph : Graph) (changed : List String) :
      allowed registry → Reached allowed previous →
      Reached allowed (some (Environment.propagate ⟨registry, external⟩ graph changed previous))

/-- **What propagations preserve holds of every result of a chain.** -/
theorem Reached.forall {allowed : Registry → Prop} {P : Propagation → Prop}
    (hstep : ∀ (registry : Registry) (external : Option Shape) (graph : Graph)
      (changed : List String) (previous : Option Propagation), allowed registry →
      (∀ result ∈ previous, P result) →
      P (Environment.propagate ⟨registry, external⟩ graph changed previous))
    {previous : Option Propagation} (h : Reached allowed previous) : ∀ result ∈ previous, P result := by
  induction h with
  | none =>
      intro result hmem
      cases hmem
  | @propagate registry earlier external graph changed hallowed _ ih =>
      intro result hmem
      obtain rfl := Option.some.inj hmem
      exact hstep registry external graph changed earlier hallowed ih

end DecisionGraph.Propagation
