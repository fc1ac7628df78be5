import DecisionGraph.Proofs.Diff.Tolerance

/-!
# Contents that fit a kind

Every known kind has one reader (`Kind.read`). Content fits the kind if the reader takes it, and what it says
of content that does not fit is all that can go wrong when contents are compared (`Kind.compare_eq_read`).
-/

namespace DecisionGraph

/-- Reads content as the kind asks, for what is wrong with it alone. -/
def Kind.read (kind : Kind) (content : Json) : Except ContentMismatch Unit :=
  let checked {α : Type} (decode : Decoder α) : Except ContentMismatch Unit :=
    (decodeContent kind.tag decode content).map fun _ => ()
  match kind with
  | .input | .output => checked SchemaContent.decode
  | .expression => checked ExpressionContent.decode
  | .decisionTable => checked DecisionTableContent.decode
  | .switch => checked SwitchContent.decode
  | .function => checked FunctionContent.decode
  | .decision => checked DecisionContent.decode
  | .custom => checked CustomContent.decode

/-- The content is what nodes of the kind hold. -/
def Kind.Fits (kind : Kind) (content : Json) : Prop := kind.read content = .ok ()

/-- What can be read can be read as something. -/
theorem exists_read {α : Type} {kind : String} {decode : Decoder α} {content : Json}
    (h : (decodeContent kind decode content).map (fun _ => ()) = .ok ()) :
    ∃ value, decodeContent kind decode content = .ok value := by
  cases hread : decodeContent kind decode content with
  | error error =>
      rw [hread] at h
      cases h
  | ok value => exact ⟨value, rfl⟩

namespace Behavior

variable {α : Type} {kind : String} {decode : Decoder α} {previous current : Node}

/-- Contents that are read before they are compared can be compared if both can be read. -/
theorem compareBoth_eq (compare : α → α → ComparedContent) :
    (decodeBoth kind decode previous current >>= fun both => pure (compare both.1 both.2))
      = ((decodeContent kind decode previous.content).map fun _ => ()) >>= fun _ =>
        ((decodeContent kind decode current.content).map fun _ => ()) >>= fun _ =>
          .ok (compareRead kind decode compare previous current) := by
  cases hbefore : decodeContent kind decode previous.content with
  | error error =>
      unfold decodeBoth
      rw [hbefore]
      rfl
  | ok before =>
      cases hafter : decodeContent kind decode current.content with
      | error error =>
          unfold decodeBoth
          rw [hbefore, hafter]
          rfl
      | ok after =>
          rw [compareRead_ok compare hbefore hafter]
          unfold decodeBoth
          rw [hbefore, hafter]
          rfl

end Behavior

/-- **Nodes of a known kind are compared after both contents have been read, the previous one first.** -/
theorem Kind.compare_eq_read (kind : Kind) (previous current : Node) :
    (Behavior.ofKind kind).compare previous current
      = kind.read previous.content >>= fun _ => kind.read current.content >>= fun _ =>
        .ok (kind.compare previous current) := by
  rw [Kind.compare_eq]
  cases kind with
  | input | output => exact Behavior.compareBoth_eq fun a b => .of (SchemaContent.compared a b) []
  | expression => exact Behavior.compareBoth_eq ExpressionContent.compare
  | decisionTable => exact Behavior.compareBoth_eq DecisionTableContent.compare
  | switch => exact Behavior.compareBoth_eq SwitchContent.compare
  | function => exact Behavior.compareBoth_eq fun a b => .of (FunctionContent.compared a b) []
  | decision => exact Behavior.compareBoth_eq fun a b => .of (DecisionContent.compared a b) []
  | custom => exact Behavior.compareBoth_eq fun a b => .of (CustomContent.compared a b) []

/-- Contents that fit can be compared. -/
theorem Kind.Fits.compare_ok {kind : Kind} {previous current : Node} (h : kind.Fits previous.content)
    (h' : kind.Fits current.content) :
    (Behavior.ofKind kind).compare previous current = .ok (kind.compare previous current) := by
  unfold Fits at h h'
  rw [Kind.compare_eq_read, h, h']
  rfl

end DecisionGraph
