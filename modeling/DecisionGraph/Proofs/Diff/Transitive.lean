import DecisionGraph.Proofs.Content.Agreement
import DecisionGraph.Proofs.Diff.Tolerance

/-!
# Comparing across a snapshot in between

If nothing is annotated from a first graph to a second and from there to a third, is nothing annotated from
the first to the third? The comparison of every field is an equivalence (`Tolerance`), rows that match have
one label, and nodes and edges without changes stand at one place, so all this can be chained.

**Cells of rules are where it fails.** Blank text can become a missing cell and the missing cell `null`, both
unnoticed, and blank text and `null` differ (`Comparison.diff_not_transitive`). Nothing else gets through in
two steps (`Comparison.diff_transitive`).

Tags may turn into other names of the same kind, but have to be kept otherwise: a tag with white space around
it is of no known kind, so contents are compared as a whole on the way to it and back, and in one step as the
kind asks.
-/

namespace DecisionGraph

/-! ## Lists -/

/-- Lists in relation item by item are compared across the one in the middle item by item. -/
theorem forall₂_across {α : Type} {R S : α → α → Prop} (P : Option α → Option α → Option α → Prop)
    (hnone : P none none none)
    (hstep : ∀ a b c, R a b → R b c → (S a c ↔ P (some a) (some b) (some c))) {as bs cs : List α}
    (hab : List.Forall₂ R as bs) (hbc : List.Forall₂ R bs cs) :
    List.Forall₂ S as cs ↔ ∀ place : Nat, P as[place]? bs[place]? cs[place]? := by
  induction hab generalizing cs with
  | nil =>
      cases hbc
      exact iff_of_true .nil fun _ => hnone
  | @cons a b as bs hfirst _ ih =>
      cases hbc with
      | @cons _ c _ cs hnext hrest =>
          rw [List.forall₂_cons, ih hrest, hstep a b c hfirst hnext]
          exact Nat.and_forall_add_one (p := fun place =>
            P (a :: as)[place]? (b :: bs)[place]? (c :: cs)[place]?)

/-- Rows match across the ones in the middle if they are compared as an equivalence has it. -/
theorem RowRule.matches_across {α : Type} {rule : RowRule α}
    (h : Equivalence fun a b => rule.compare a b = []) {as bs cs : List α}
    (hab : List.Forall₂ rule.Matches as bs) (hbc : List.Forall₂ rule.Matches bs cs) :
    List.Forall₂ rule.Matches as cs := by
  refine (forall₂_across (fun _ _ _ => True) trivial ?_ hab hbc).mpr fun _ => trivial
  exact fun a b c hab hbc => iff_true_intro (hab.trans h hbc)

/-- Some cell of a rule is blank text on the one side and `null` on the other, and the rule in the middle
does not have it. -/
def Rule.Bridged (a b c : Option Rule) : Prop :=
  ∃ column, column ≠ Rule.idKey
    ∧ Rule.bridges (a.bind (Keyed.get? column)) (b.bind (Keyed.get? column)) (c.bind (Keyed.get? column))
      = true

theorem Rule.not_bridged_none : ¬Rule.Bridged none none none := by
  rintro ⟨column, _, hbridges⟩
  cases hbridges

/-- **Rules match across the ones in the middle unless some cell is bridged.** -/
theorem Rule.matches_across {as bs cs : List Rule} (hab : List.Forall₂ Rule.rowRule.Matches as bs)
    (hbc : List.Forall₂ Rule.rowRule.Matches bs cs) :
    List.Forall₂ Rule.rowRule.Matches as cs
      ↔ ∀ place : Nat, ¬Rule.Bridged as[place]? bs[place]? cs[place]? := by
  refine forall₂_across (fun a b c => ¬Rule.Bridged a b c) not_bridged_none ?_ hab hbc
  rintro a b c ⟨hlabel, hmarked, hcompare⟩ ⟨hlabel', hmarked', hcompare'⟩
  unfold RowRule.Matches
  rw [and_iff_right (hlabel.trans hlabel'), and_iff_right hmarked']
  refine (Rule.compare_trans hcompare hcompare').trans ?_
  simp [Rule.Bridged]

/-! ## Contents -/

/-- Contents that cannot be read are the same in all steps or in none, so what is compared as a whole can be
chained, too. -/
theorem Behavior.compareRead_across {α : Type} {R : α → α → Prop} {decode : Decoder α}
    (hrespects : decode.Respects R) {kind : String} {compare : α → α → ComparedContent} {a b c : Node}
    {P : Prop}
    (hread : ∀ x y z, decodeContent kind decode a.content = .ok x →
      decodeContent kind decode b.content = .ok y → decodeContent kind decode c.content = .ok z →
      compare x y = .empty → compare y z = .empty → (compare x z = .empty ↔ P))
    (hunread : ∀ e e' e'', decodeContent kind decode a.content = .error e →
      decodeContent kind decode b.content = .error e' → decodeContent kind decode c.content = .error e'' → P)
    (hab : compareRead kind decode compare a b = .empty)
    (hbc : compareRead kind decode compare b c = .empty) :
    compareRead kind decode compare a c = .empty ↔ P := by
  cases ha : decodeContent kind decode a.content with
  | error e =>
      rw [compareRead_error_left compare ha, compareWhole_eq_empty] at hab ⊢
      have hagrees := decodeContent_agrees hrespects kind hab
      cases hb : decodeContent kind decode b.content with
      | ok y =>
          rw [ha, hb] at hagrees
          cases hagrees
      | error e' =>
          rw [compareRead_error_left compare hb, compareWhole_eq_empty] at hbc
          have hagrees := decodeContent_agrees hrespects kind hbc
          cases hc : decodeContent kind decode c.content with
          | ok z =>
              rw [hb, hc] at hagrees
              cases hagrees
          | error e'' => exact iff_of_true (Json.same_trans hab hbc) (hunread e e' e'' ha hb hc)
  | ok x =>
      cases hb : decodeContent kind decode b.content with
      | error e =>
          rw [compareRead_error_right compare hb, compareWhole_eq_empty] at hab
          have hagrees := decodeContent_agrees hrespects kind hab
          rw [ha, hb] at hagrees
          cases hagrees
      | ok y =>
          cases hc : decodeContent kind decode c.content with
          | error e =>
              rw [compareRead_error_right compare hc, compareWhole_eq_empty] at hbc
              have hagrees := decodeContent_agrees hrespects kind hbc
              rw [hb, hc] at hagrees
              cases hagrees
          | ok z =>
              rw [compareRead_ok compare ha hb] at hab
              rw [compareRead_ok compare hb hc] at hbc
              rw [compareRead_ok compare ha hc]
              exact hread x y z ha hb hc hab hbc

/-- Contents without rows can be chained if their fields are compared as an equivalence has it. -/
theorem Behavior.compareFields_across {α : Type} {R : α → α → Prop} {decode : Decoder α}
    (hrespects : decode.Respects R) {kind : String} {fields : α → α → List (String × Option FieldChange)}
    (h : Equivalence (Silent fields)) {a b c : Node}
    (hab : compareRead kind decode (fun x y => .of (fields x y) []) a b = .empty)
    (hbc : compareRead kind decode (fun x y => .of (fields x y) []) b c = .empty) :
    compareRead kind decode (fun x y => .of (fields x y) []) a c = .empty := by
  refine (compareRead_across hrespects (P := True) ?_ (fun _ _ _ _ _ _ => trivial) hab hbc).mpr trivial
  intro x y z _ _ _ hxy hyz
  rw [ComparedContent.of_eq_empty] at hxy hyz
  refine iff_true_intro (ComparedContent.of_eq_empty.mpr ⟨h.trans hxy.1 hyz.1, ?_⟩)
  exact List.forall_mem_nil _

/-- The rules in content of a kind. Content that does not fit has none, and there are kinds that have none
at all. -/
def Kind.rules (kind : Kind) (content : Json) : List Rule :=
  match kind with
  | .decisionTable =>
    (decodeContent kind.tag DecisionTableContent.decode content).toOption.elim []
      DecisionTableContent.rules
  | _ => []

theorem ExpressionContent.compare_eq_empty {a b : ExpressionContent} :
    a.compare b = .empty
      ↔ Silent compared a b ∧ List.Forall₂ ExpressionRow.rule.Matches a.expressions b.expressions := by
  unfold compare
  rw [ComparedContent.of_eq_empty, List.forall_mem_singleton]
  exact and_congr_right' RowRule.rows_unannotated

theorem DecisionTableContent.compare_eq_empty {a b : DecisionTableContent} :
    a.compare b = .empty ↔ Silent compared a b
      ∧ List.Forall₂ TableColumn.rule.Matches a.inputs b.inputs
      ∧ List.Forall₂ TableColumn.rule.Matches a.outputs b.outputs
      ∧ List.Forall₂ Rule.rowRule.Matches a.rules b.rules := by
  have hlists : (∀ list ∈ [("inputs", TableColumn.rule.rows a.inputs b.inputs),
      ("outputs", TableColumn.rule.rows a.outputs b.outputs),
      ("rules", Rule.rowRule.rows a.rules b.rules)], ∀ row ∈ list.2, row.change = none)
        ↔ List.Forall₂ TableColumn.rule.Matches a.inputs b.inputs
          ∧ List.Forall₂ TableColumn.rule.Matches a.outputs b.outputs
          ∧ List.Forall₂ Rule.rowRule.Matches a.rules b.rules := by
    rw [List.forall_mem_cons, List.forall_mem_cons, List.forall_mem_singleton]
    exact and_congr RowRule.rows_unannotated
      (and_congr RowRule.rows_unannotated RowRule.rows_unannotated)
  unfold compare
  rw [ComparedContent.of_eq_empty, hlists]
  exact Iff.rfl

theorem SwitchContent.compare_eq_empty {a b : SwitchContent} :
    a.compare b = .empty
      ↔ Silent compared a b ∧ List.Forall₂ SwitchStatement.rule.Matches a.statements b.statements := by
  have hlists : (∀ list ∈ [("statements", SwitchStatement.rule.rows a.statements b.statements)],
      ∀ row ∈ list.2, row.change = none)
        ↔ List.Forall₂ SwitchStatement.rule.Matches a.statements b.statements := by
    rw [List.forall_mem_singleton]
    exact RowRule.rows_unannotated
  unfold compare
  rw [ComparedContent.of_eq_empty, hlists]
  exact Iff.rfl

/-- **Contents of a known kind can be chained unless some cell is bridged.** -/
theorem Kind.compare_across (kind : Kind) {a b c : Node} (hab : kind.compare a b = .empty)
    (hbc : kind.compare b c = .empty) :
    kind.compare a c = .empty ↔ ∀ place : Nat, ¬Rule.Bridged (kind.rules a.content)[place]?
      (kind.rules b.content)[place]? (kind.rules c.content)[place]? := by
  have hruleless : ∀ _ : Nat, ¬Rule.Bridged none none none := fun _ => Rule.not_bridged_none
  rw [Kind.compare_eq] at hab hbc ⊢
  cases kind with
  | input | output =>
      refine iff_of_true ?_ hruleless
      exact Behavior.compareFields_across SchemaContent.decode_respects
        SchemaContent.compared_equivalence hab hbc
  | expression =>
      refine iff_of_true ?_ hruleless
      refine (Behavior.compareRead_across ExpressionContent.decode_respects (P := True) ?_
        (fun _ _ _ _ _ _ => trivial) hab hbc).mpr trivial
      intro x y z _ _ _ hxy hyz
      obtain ⟨hfields, hrows⟩ := ExpressionContent.compare_eq_empty.mp hxy
      obtain ⟨hfields', hrows'⟩ := ExpressionContent.compare_eq_empty.mp hyz
      refine iff_true_intro (ExpressionContent.compare_eq_empty.mpr ⟨?_, ?_⟩)
      · exact ExpressionContent.compared_equivalence.trans hfields hfields'
      · exact RowRule.matches_across ExpressionRow.compare_equivalence hrows hrows'
  | decisionTable =>
      refine Behavior.compareRead_across DecisionTableContent.decode_respects ?_ ?_ hab hbc
      · intro x y z hx hy hz hxy hyz
        obtain ⟨hfields, hinputs, houtputs, hrules⟩ := DecisionTableContent.compare_eq_empty.mp hxy
        obtain ⟨hfields', hinputs', houtputs', hrules'⟩ := DecisionTableContent.compare_eq_empty.mp hyz
        unfold Kind.rules
        dsimp only
        rw [DecisionTableContent.compare_eq_empty, hx, hy, hz,
          and_iff_right (DecisionTableContent.compared_equivalence.trans hfields hfields'),
          and_iff_right (RowRule.matches_across TableColumn.compare_equivalence hinputs hinputs'),
          and_iff_right (RowRule.matches_across TableColumn.compare_equivalence houtputs houtputs')]
        exact Rule.matches_across hrules hrules'
      · intro _ _ _ hx hy hz
        unfold Kind.rules
        dsimp only
        rw [hx, hy, hz]
        exact hruleless
  | switch =>
      refine iff_of_true ?_ hruleless
      refine (Behavior.compareRead_across SwitchContent.decode_respects (P := True) ?_
        (fun _ _ _ _ _ _ => trivial) hab hbc).mpr trivial
      intro x y z _ _ _ hxy hyz
      obtain ⟨hfields, hrows⟩ := SwitchContent.compare_eq_empty.mp hxy
      obtain ⟨hfields', hrows'⟩ := SwitchContent.compare_eq_empty.mp hyz
      refine iff_true_intro (SwitchContent.compare_eq_empty.mpr ⟨?_, ?_⟩)
      · exact SwitchContent.compared_equivalence.trans hfields hfields'
      · exact RowRule.matches_across SwitchStatement.compare_equivalence hrows hrows'
  | function =>
      refine iff_of_true ?_ hruleless
      exact Behavior.compareFields_across FunctionContent.decode_respects
        FunctionContent.compared_equivalence hab hbc
  | decision =>
      refine iff_of_true ?_ hruleless
      exact Behavior.compareFields_across DecisionContent.decode_respects
        DecisionContent.compared_equivalence hab hbc
  | custom =>
      refine iff_of_true ?_ hruleless
      exact Behavior.compareFields_across CustomContent.decode_respects
        CustomContent.compared_equivalence hab hbc

/-! ## Nodes, edges and graphs -/

/-- The rules in the content of a node. -/
def Node.rules (node : Node) : List Rule :=
  (Kind.ofName? node.kind).elim [] fun kind => kind.rules node.content

/-- Some cell at one place of the tables of three nodes is bridged. -/
def Node.Bridged (a b c : Option Node) : Prop :=
  ∃ place : Nat, Rule.Bridged (a.bind (·.rules[place]?)) (b.bind (·.rules[place]?))
    (c.bind (·.rules[place]?))

/-- Some cell at one place of three graphs is bridged. -/
def Graph.Bridged (a b c : Graph) : Prop :=
  ∃ place : Nat, Node.Bridged a.nodes[place]? b.nodes[place]? c.nodes[place]?

/-- No tag of a node differs in nothing but the white space around it from that of the node at its place. -/
def Graph.KeepsTags (previous current : Graph) : Prop :=
  ∀ pair ∈ previous.nodes.zip current.nodes,
    Text.trim pair.1.kind = Text.trim pair.2.kind → pair.1.kind = pair.2.kind

instance (previous current : Graph) : Decidable (previous.KeepsTags current) :=
  inferInstanceAs (Decidable (∀ _ ∈ _, _ → _))

theorem Graph.KeepsTags.forall₂ {R : Node → Node → Prop} {previous current : Graph}
    (h : previous.KeepsTags current) (hnodes : List.Forall₂ R previous.nodes current.nodes) :
    List.Forall₂ (fun node other => R node other
      ∧ (Text.trim node.kind = Text.trim other.kind → node.kind = other.kind))
      previous.nodes current.nodes := by
  obtain ⟨hlength, hpairs⟩ := List.forall₂_iff_zip.mp hnodes
  exact List.forall₂_iff_zip.mpr ⟨hlength, fun hmem => ⟨hpairs hmem, h (_, _) hmem⟩⟩

namespace Comparison

/-- Nodes without changes between them whose tags are kept have tags of one kind. -/
theorem equates_of_unannotated {a b : Node} {moved : Bool}
    (hkept : Text.trim a.kind = Text.trim b.kind → a.kind = b.kind)
    (h : (compareNodes ⟨.builtin, none⟩ a b moved).1.Unannotated) :
    Registry.builtin.equates a.kind b.kind = true
      ∧ Text.trim a.name = Text.trim b.name ∧ (compareContents .builtin a b).1 = .empty := by
  obtain ⟨_, hname, hcontent⟩ := compareNodes_unannotated.mp h
  by_cases hequates : Registry.builtin.equates a.kind b.kind = true
  · rw [if_pos hequates] at hcontent
    exact ⟨hequates, hname, hcontent⟩
  · rw [if_neg hequates] at hcontent
    rw [hkept hcontent.1] at hequates
    exact absurd (Registry.equates_self _ _) hequates

/-- **Nodes whose tags are kept can be chained unless some cell is bridged.** -/
theorem compareNodes_across {a b c : Node}
    (hab : (compareNodes ⟨.builtin, none⟩ a b false).1.Unannotated)
    (hbc : (compareNodes ⟨.builtin, none⟩ b c false).1.Unannotated)
    (hkept : Text.trim a.kind = Text.trim b.kind → a.kind = b.kind)
    (hkept' : Text.trim b.kind = Text.trim c.kind → b.kind = c.kind) :
    (compareNodes ⟨.builtin, none⟩ a c false).1.Unannotated
      ↔ ¬Node.Bridged (some a) (some b) (some c) := by
  obtain ⟨hequates, hname, hcontent⟩ := equates_of_unannotated hkept hab
  obtain ⟨hequates', hname', hcontent'⟩ := equates_of_unannotated hkept' hbc
  have hkind := Registry.ofName?_of_equates hequates
  have hkind' := Registry.ofName?_of_equates hequates'
  rw [compareNodes_unannotated, if_pos (Registry.equates_builtin_trans hequates hequates'),
    and_iff_right rfl, and_iff_right (hname.trans hname')]
  rw [compareContents_builtin] at hcontent hcontent' ⊢
  unfold Node.Bridged Node.rules
  dsimp only [Option.bind_some]
  rw [hkind, hkind']
  rw [hkind'] at hcontent
  generalize Kind.ofName? c.kind = known at hcontent hcontent' ⊢
  cases known with
  | none =>
      refine iff_of_true ?_ fun ⟨_, hbridged⟩ => Rule.not_bridged_none hbridged
      dsimp only [Option.elim_none] at hcontent hcontent' ⊢
      rw [Behavior.compareWhole_eq_empty] at hcontent hcontent' ⊢
      exact Json.same_trans hcontent hcontent'
  | some kind => exact (kind.compare_across hcontent hcontent').trans not_exists.symm

/--
**What two comparisons in a row overlook, one overlooks,** bridged cells apart.

If nothing is annotated from a first graph to a second and from there to a third, and tags are kept on the
way, then nothing is annotated from the first to the third, unless some cell of a rule is blank text in the
one, `null` in the other, and missing in between.
-/
theorem diff_transitive {a b c : Graph} (hab : (diff ⟨.builtin, none⟩ a b).Unannotated)
    (hbc : (diff ⟨.builtin, none⟩ b c).Unannotated) (hkept : a.KeepsTags b) (hkept' : b.KeepsTags c) :
    (diff ⟨.builtin, none⟩ a c).Unannotated ↔ ¬Graph.Bridged a b c := by
  obtain ⟨hnodes, hedges⟩ := diff_unannotated.mp hab
  obtain ⟨hnodes', hedges'⟩ := diff_unannotated.mp hbc
  have hacross : List.Forall₂ (fun node other => node.id = other.id
      ∧ (compareNodes ⟨.builtin, none⟩ node other false).1.Unannotated) a.nodes c.nodes
        ↔ ∀ place : Nat, ¬Node.Bridged a.nodes[place]? b.nodes[place]? c.nodes[place]? := by
    refine forall₂_across (fun a b c => ¬Node.Bridged a b c) ?_ ?_ (hkept.forall₂ hnodes)
      (hkept'.forall₂ hnodes')
    · exact fun ⟨_, hbridged⟩ => Rule.not_bridged_none hbridged
    · rintro a b c ⟨⟨hid, hab⟩, hkept⟩ ⟨⟨hid', hbc⟩, hkept'⟩
      rw [and_iff_right (hid.trans hid')]
      exact compareNodes_across hab hbc hkept hkept'
  have hedges'' : List.Forall₂ (fun edge other => edge.id = other.id ∧ compareEdges edge other = [])
      a.edges c.edges := by
    refine (forall₂_across (fun _ _ _ => True) trivial ?_ hedges hedges').mpr fun _ => trivial
    exact fun a b c hab hbc => iff_true_intro
      ⟨hab.1.trans hbc.1, compareEdges_equivalence.trans hab.2 hbc.2⟩
  rw [diff_unannotated, hacross, and_iff_left hedges'']
  exact not_exists.symm

/-- The other way round: a cell that was `null`, dropped and filled with blanks, in a table that goes by three
names of its kind. -/
theorem diff_transitive_null_to_blank :
    let graph (tag : String) (cells : List (String × Json)) : Graph :=
      ⟨[⟨"a", tag, "A", .object [("rules", .array [.object (("_id", .text "r") :: cells)])], .origin⟩], []⟩
    let first := graph "table" [("x", .null)]
    let second := graph "decisionTable" []
    let third := graph "decisionTableNode" [("x", .text " ")]
    (diff ⟨.builtin, none⟩ first second).Unannotated ∧ (diff ⟨.builtin, none⟩ second third).Unannotated
      ∧ Graph.Bridged first second third ∧ ¬(diff ⟨.builtin, none⟩ first third).Unannotated := by
  intro graph first second third
  have hforth : (diff ⟨.builtin, none⟩ first second).Unannotated := by decide
  have hfurther : (diff ⟨.builtin, none⟩ second third).Unannotated := by decide
  have hbridged : Graph.Bridged first second third := ⟨0, 0, "x", by decide, by decide⟩
  refine ⟨hforth, hfurther, hbridged, fun h => ?_⟩
  exact (diff_transitive hforth hfurther (by decide) (by decide)).mp h hbridged

/-- A cell that was emptied, dropped and set to `null`. -/
theorem diff_not_transitive :
    let graph (cells : List (String × Json)) : Graph :=
      ⟨[⟨"a", "decisionTableNode", "A", .object [("rules", .array [.object (("_id", .text "r") :: cells)])],
        .origin⟩], []⟩
    let first := graph [("x", .text "")]
    let second := graph []
    let third := graph [("x", .null)]
    (diff ⟨.builtin, none⟩ first second).Unannotated ∧ (diff ⟨.builtin, none⟩ second third).Unannotated
      ∧ ¬(diff ⟨.builtin, none⟩ first third).Unannotated := by
  decide

end Comparison

end DecisionGraph
