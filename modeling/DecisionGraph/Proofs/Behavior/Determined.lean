import DecisionGraph.Proofs.Behavior.Reading
import DecisionGraph.Proofs.Content.Agreement

/-!
# What outputs depend on

A result is worth keeping only if nothing but the basis of a node decides on its output. A behavior
is determined (`Behavior.Determined`) if its inference looks at the id, the kind, the content and
the input of a node, at the data from outside if it says so, and at nothing else, and if it is taken
for stale exactly when one of these has changed. Every known kind is (`Behavior.ofKind_determined`).

Contents count as unchanged when they are the same (`Json.same`).

Two statements about propagation ask for something else. To keep results it is enough that a behavior is
steady (`Behavior.Steady`). To get the same issues as well it has to be confined (`Behavior.Confined`), and
contents have to be equal: a message can quote a number with its sign.
-/

namespace DecisionGraph

/-- Nothing but the basis of a node decides on its output. -/
structure Behavior.Determined (behavior : Behavior) : Prop where
  /-- A result is stale if its basis is another one. -/
  stale : behavior.isStale = fun previous current => !previous.same current
  /-- Nodes with one basis have one output, or none has any. -/
  infer : ∀ {node other : Node} {input : Shape} {external external' : Option Shape},
    node.id = other.id → node.kind = other.kind → node.content.same other.content = true →
    (behavior.readsExternal = true → external = external') →
    (behavior.infer node input external).toOption = (behavior.infer other input external').toOption

/-! ## Decision tables -/

theorem Rule.cell?_eq {a b : Rule} (h : Json.sameMembers a b = true) (column : String) :
    a.cell? column = b.cell? column := by
  have hat : Json.SameAt (Keyed.get? column a) (Keyed.get? column b) := Json.sameAt_get? h
  unfold cell?
  rcases hat with ⟨hnone, hnone'⟩ | ⟨value, other, hsome, hsome', hvalue⟩
  · rw [hnone, hnone']
  · rw [hsome, hsome', Option.bind_some, Option.bind_some, Json.text?_eq_of_same hvalue]

/-- Tables that are the same are read alike. -/
theorem DecisionTableContent.Alike.readAlike {a b : DecisionTableContent} (h : a.Alike b) :
    a.ReadAlike b where
  collects := by rw [h.hitPolicy]
  outputs := by
    rw [h.outputs]
    exact List.forall₂_same.mpr fun _ _ => ⟨rfl, rfl⟩
  rules := h.rules.imp fun _ _ hsame column => Rule.cell?_eq hsame column
  routing := by
    rw [h.routing]
    exact .refl _

/-! ## The known kinds -/

namespace Behavior

/-- What an output is made of content, input and id alone. -/
theorem toOption_eq_of_respects {α : Type} {R : α → α → Prop} {decode : Decoder α}
    (h : decode.Respects R) (kind : String) {node other : Node}
    (hsame : node.content.same other.content = true) {f g : α → Inferred}
    (hfg : ∀ a b, R a b → f a = g b) :
    (decodeContent kind decode node.content >>= fun content => pure (f content)).toOption
      = (decodeContent kind decode other.content >>= fun content => pure (g content)).toOption := by
  refine Agrees.toOption_eq ((decodeContent_agrees h kind hsame).bind fun a b hab => ?_)
  exact .ok (hfg a b hab)

/-- **The known kinds are determined.** -/
theorem ofKind_determined (kind : Kind) : (ofKind kind).Determined := by
  cases kind with
  | input =>
      refine ⟨rfl, ?_⟩
      intro node other input external external' _ _ hsame hexternal
      -- input nodes say that they read the data from outside
      obtain rfl := hexternal rfl
      cases external with
      | some shape => rfl
      | none =>
          refine Agrees.toOption_eq ?_
          refine (decodeContent_agrees SchemaContent.decode_respects _ hsame).bind_eq fun content => ?_
          exact .of_eq (fun _ => rfl) _
  | output => exact ⟨rfl, fun _ _ _ _ => rfl⟩
  | expression =>
      refine ⟨rfl, ?_⟩
      intro node other input external external' hid _ hsame _
      refine toOption_eq_of_respects ExpressionContent.decode_respects _ hsame ?_
      intro a b heq
      rw [heq, hid]
  | decisionTable =>
      refine ⟨rfl, ?_⟩
      intro node other input external external' hid _ hsame _
      refine toOption_eq_of_respects DecisionTableContent.decode_respects _ hsame ?_
      intro a b halike
      rw [hid]
      exact halike.readAlike.infer_eq other.id input
  | switch => exact ⟨rfl, fun _ _ _ _ => rfl⟩
  | function =>
      refine ⟨rfl, ?_⟩
      intro node other input external external' _ _ hsame _
      exact toOption_eq_of_respects FunctionContent.decode_respects _ hsame fun _ _ _ => rfl
  | decision =>
      refine ⟨rfl, ?_⟩
      intro node other input external external' _ _ hsame _
      refine toOption_eq_of_respects DecisionContent.decode_respects _ hsame ?_
      intro a b heq
      rw [heq]
  | custom => exact ⟨rfl, fun _ _ _ _ => rfl⟩

/-- A result stays up to date as long as nothing in its basis changes. -/
def Steady (behavior : Behavior) : Prop :=
  ∀ previous current : NodeBasis, previous.same current = true → behavior.isStale previous current = false

theorem Determined.steady {behavior : Behavior} (h : behavior.Determined) : behavior.Steady := by
  intro previous current hsame
  rw [h.stale]
  dsimp only
  rw [hsame]
  rfl

/-- Inference looks at the id, the kind, the content and the input of a node, at the data from outside if it
says so, and at nothing else. -/
def Confined (behavior : Behavior) : Prop :=
  ∀ {node other : Node} {input : Shape} {external external' : Option Shape},
    node.id = other.id → node.kind = other.kind → node.content = other.content →
    (behavior.readsExternal = true → external = external') →
    behavior.infer node input external = behavior.infer other input external'

/-- **The known kinds are confined.** -/
theorem ofKind_confined (kind : Kind) : (ofKind kind).Confined := by
  intro node other input external external' hid _ hcontent hexternal
  cases kind with
  | input =>
      obtain rfl := hexternal rfl
      dsimp only [ofKind, Behavior.input]
      rw [hcontent]
  | output | switch | custom => rfl
  | expression =>
      dsimp only [ofKind, expression]
      rw [hcontent, hid]
  | decisionTable =>
      dsimp only [ofKind, decisionTable]
      rw [hcontent, hid]
  | function =>
      dsimp only [ofKind, function]
      rw [hcontent]
  | decision =>
      dsimp only [ofKind, decision]
      rw [hcontent]

end Behavior

end DecisionGraph
