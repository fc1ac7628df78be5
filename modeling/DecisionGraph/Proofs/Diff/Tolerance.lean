import DecisionGraph.Proofs.Diff.Unannotated
import DecisionGraph.Proofs.Json.Same
import DecisionGraph.Proofs.Registry

/-!
# What comparisons tolerate

A comparison of fields finds nothing between things that may still be written differently. Is it an
equivalence of things, so that it neither matters which of them comes first, nor how many steps lie between
them? It is wherever texts are compared by what is left when they are trimmed, flags by what they count as,
and other values by deep equality.

**Cells of rules are the exception.** Two values in cells tolerate each other as an equivalence has it, but a
missing cell passes for blank text, and it passes for `null`, too, and these two are not the same. A step
from the one to the other is overlooked if the cell is missing in between (`Rule.compareCells_trans`), and
that is all that keeps the comparison of rules from being transitive (`Rule.compare_trans`).
-/

namespace DecisionGraph

/-- No field of the one thing differs from the other. -/
def Silent {α : Type} (fields : α → α → List (String × Option FieldChange)) (a b : α) : Prop :=
  ∀ field ∈ fields a b, field.2 = none

/-- Things that are told apart by what can be seen of them. -/
theorem equivalence_of_view {α β : Type} {R : α → α → Prop} (view : α → β)
    (h : ∀ a b, R a b ↔ view a = view b) : Equivalence R where
  refl := fun a => (h a a).mpr rfl
  symm := fun hab => (h _ _).mpr ((h _ _).mp hab).symm
  trans := fun hab hbc => (h _ _).mpr (((h _ _).mp hab).trans ((h _ _).mp hbc))

/-! ## Fields of contents

The fields that are compared of the contents of each kind.
-/

theorem Routing.compared_equivalence : Equivalence (Silent Routing.compared) :=
  equivalence_of_view
    (fun options => (Text.trim (options.executionMode.getD .single).tag,
      Text.trim (options.inputField.getD ""), Text.trim (options.outputPath.getD ""),
      options.passThrough.getD false))
    (by simp [Silent, compared, FieldChange.ofTexts?_eq_none, FieldChange.ofFlags?_eq_none])

/-- One text is compared. -/
theorem text_equivalence {α : Type} (name : String) (text : α → Option String) :
    Equivalence (Silent fun a b : α => [(name, FieldChange.ofTexts? (text a) (text b))]) :=
  equivalence_of_view (fun a => Text.trim ((text a).getD ""))
    (by simp [Silent, FieldChange.ofTexts?_eq_none])

/-- One text is compared before the other fields. -/
theorem text_cons_equivalence {α : Type} (name : String) (text : α → Option String)
    {fields : α → α → List (String × Option FieldChange)} (h : Equivalence (Silent fields)) :
    Equivalence (Silent fun a b : α =>
      (name, FieldChange.ofTexts? (text a) (text b)) :: fields a b) := by
  have hcons : ∀ a b : α,
      Silent (fun a b : α => (name, FieldChange.ofTexts? (text a) (text b)) :: fields a b) a b
        ↔ Text.trim ((text a).getD "") = Text.trim ((text b).getD "") ∧ Silent fields a b := by
    intro a b
    unfold Silent
    rw [List.forall_mem_cons, FieldChange.ofTexts?_eq_none]
  constructor
  · intro a
    exact (hcons a a).mpr ⟨rfl, h.refl a⟩
  · intro a b hab
    obtain ⟨htext, hfields⟩ := (hcons a b).mp hab
    exact (hcons b a).mpr ⟨htext.symm, h.symm hfields⟩
  · intro a b c hab hbc
    obtain ⟨htext, hfields⟩ := (hcons a b).mp hab
    obtain ⟨htext', hfields'⟩ := (hcons b c).mp hbc
    exact (hcons a c).mpr ⟨htext.trans htext', h.trans hfields hfields'⟩

def SchemaContent.compared (previous current : SchemaContent) : List (String × Option FieldChange) :=
  [("schema", FieldChange.ofTexts? previous.schema current.schema)]

theorem SchemaContent.compared_equivalence : Equivalence (Silent SchemaContent.compared) :=
  text_equivalence "schema" schema

def ExpressionContent.compared (previous current : ExpressionContent) :
    List (String × Option FieldChange) := previous.routing.compared current.routing

theorem ExpressionContent.compared_equivalence : Equivalence (Silent ExpressionContent.compared) :=
  Routing.compared_equivalence.comap routing

def DecisionTableContent.compared (previous current : DecisionTableContent) :
    List (String × Option FieldChange) :=
  ("hitPolicy", FieldChange.ofTexts? (some (HitPolicy.tagOrDefault previous.hitPolicy))
      (some (HitPolicy.tagOrDefault current.hitPolicy))) ::
    previous.routing.compared current.routing

theorem DecisionTableContent.compared_equivalence : Equivalence (Silent DecisionTableContent.compared) :=
  (text_cons_equivalence "hitPolicy"
    (fun content : DecisionTableContent => some (HitPolicy.tagOrDefault content.hitPolicy))
    (Routing.compared_equivalence.comap routing) :)

def SwitchContent.compared (previous current : SwitchContent) : List (String × Option FieldChange) :=
  [("hitPolicy", FieldChange.ofTexts? (some (HitPolicy.tagOrDefault previous.hitPolicy))
    (some (HitPolicy.tagOrDefault current.hitPolicy)))]

theorem SwitchContent.compared_equivalence : Equivalence (Silent SwitchContent.compared) :=
  (text_equivalence "hitPolicy" fun content : SwitchContent =>
    some (HitPolicy.tagOrDefault content.hitPolicy) :)

def FunctionContent.compared (previous current : FunctionContent) :
    List (String × Option FieldChange) :=
  [("source", FieldChange.ofTexts? (some previous.source) (some current.source))]

theorem FunctionContent.compared_equivalence : Equivalence (Silent FunctionContent.compared) :=
  (text_equivalence "source" fun content : FunctionContent => some content.source :)

def DecisionContent.compared (previous current : DecisionContent) :
    List (String × Option FieldChange) :=
  ("key", FieldChange.ofTexts? previous.key current.key) :: previous.routing.compared current.routing

theorem DecisionContent.compared_equivalence : Equivalence (Silent DecisionContent.compared) :=
  text_cons_equivalence "key" key (Routing.compared_equivalence.comap routing)

def CustomContent.compared (previous current : CustomContent) : List (String × Option FieldChange) :=
  [("kind", FieldChange.ofTexts? previous.kind current.kind),
    ("config", FieldChange.ofValues? (previous.config.getD .null) (current.config.getD .null))]

theorem CustomContent.compared_equivalence : Equivalence (Silent CustomContent.compared) := by
  refine text_cons_equivalence "kind" kind ?_
  have hsame : ∀ a b : CustomContent, Silent (fun a b : CustomContent =>
      [("config", FieldChange.ofValues? (a.config.getD .null) (b.config.getD .null))]) a b
        ↔ (a.config.getD .null).same (b.config.getD .null) = true := by
    simp [Silent, FieldChange.ofValues?_eq_none]
  constructor
  · exact fun a => (hsame a a).mpr (Json.same_refl _)
  · exact fun hab => (hsame _ _).mpr (Json.same_symm ((hsame _ _).mp hab))
  · exact fun hab hbc => (hsame _ _).mpr (Json.same_trans ((hsame _ _).mp hab) ((hsame _ _).mp hbc))

/-! ## Rows -/

theorem ExpressionRow.compare_equivalence :
    Equivalence fun a b => ExpressionRow.rule.compare a b = [] :=
  equivalence_of_view
    (fun row => (Text.trim (row.key.getD ""), Text.trim (row.value.getD "")))
    (by simp [rule, compare, changedFields_eq_nil, FieldChange.ofTexts?_eq_none])

theorem TableColumn.compare_equivalence :
    Equivalence fun a b => TableColumn.rule.compare a b = [] :=
  equivalence_of_view
    (fun column => (Text.trim (column.name.getD ""), Text.trim (column.field.getD "")))
    (by simp [rule, compare, changedFields_eq_nil, FieldChange.ofTexts?_eq_none])

theorem SwitchStatement.compare_equivalence :
    Equivalence fun a b => SwitchStatement.rule.compare a b = [] :=
  equivalence_of_view (fun statement => Text.trim (statement.condition.getD ""))
    (by simp [rule, compare, changedFields_eq_nil, FieldChange.ofTexts?_eq_none])

/-- If rows are compared as an equivalence has it, then so are lists of rows that match. -/
theorem RowRule.Matches.trans {α : Type} {rule : RowRule α}
    (h : Equivalence fun a b => rule.compare a b = []) {a b c : α} (hab : rule.Matches a b)
    (hbc : rule.Matches b c) : rule.Matches a c :=
  ⟨hab.1.trans hbc.1, hbc.2.1, h.trans hab.2.2 hbc.2.2⟩

/-! ## Cells of rules -/

namespace Rule

/-- Whether a cell holds text, and it is blank. -/
def isBlank : Option Json → Bool
  | some (.text text) => Text.trim text = ""
  | _ => false

/-- Whether a cell holds `null`. -/
def isNull : Option Json → Bool
  | some .null => true
  | _ => false

/-- Blank text on the one side and `null` on the other, and no cell in between. -/
def bridges (a b c : Option Json) : Bool :=
  b.isNone && (isBlank a && isNull c || isNull a && isBlank c)

theorem isBlank_iff {cell : Option Json} :
    isBlank cell = true ↔ ∃ text, cell = some (.text text) ∧ Text.trim text = "" := by
  unfold isBlank
  split <;> simp_all

theorem isNull_iff {cell : Option Json} : isNull cell = true ↔ cell = some .null := by
  unfold isNull
  split <;> simp_all

/-- Two values in cells between which nothing is found: texts that are equal when trimmed, or values that
are the same. -/
def Tolerates (value other : Json) : Prop :=
  (∃ text text', value = .text text ∧ other = .text text' ∧ Text.trim text = Text.trim text')
    ∨ value.same other = true

theorem tolerates_text {text : String} {other : Json} :
    Tolerates (.text text) other ↔ ∃ text', other = .text text' ∧ Text.trim text = Text.trim text' := by
  constructor
  · rintro (⟨_, text', hvalue, hother, htrim⟩ | hsame)
    · obtain rfl := Json.text.inj hvalue
      exact ⟨text', hother, htrim⟩
    · exact ⟨text, Json.same_text.mp hsame, rfl⟩
  · rintro ⟨text', hother, htrim⟩
    exact Or.inl ⟨text, text', rfl, hother, htrim⟩

theorem Tolerates.symm {value other : Json} (h : Tolerates value other) : Tolerates other value := by
  rcases h with ⟨text, text', hvalue, hother, htrim⟩ | hsame
  · exact Or.inl ⟨text', text, hother, hvalue, htrim.symm⟩
  · exact Or.inr (Json.same_symm hsame)

theorem Tolerates.trans {a b c : Json} (hab : Tolerates a b) (hbc : Tolerates b c) : Tolerates a c := by
  rcases hab with ⟨text, text', rfl, rfl, htrim⟩ | hsame
  · obtain ⟨text'', rfl, htrim'⟩ := tolerates_text.mp hbc
    exact tolerates_text.mpr ⟨text'', rfl, htrim.trans htrim'⟩
  · rcases hbc with ⟨text', text'', rfl, rfl, htrim'⟩ | hsame'
    · obtain rfl := Json.same_text.mp (Json.same_symm hsame)
      exact tolerates_text.mpr ⟨text'', rfl, htrim'⟩
    · exact Or.inr (Json.same_trans hsame hsame')

/-- What passes for a missing cell. -/
def PassesForNone (value : Json) : Prop := isBlank (some value) = true ∨ isNull (some value) = true

theorem PassesForNone.of_tolerates {value other : Json} (h : PassesForNone value)
    (htolerates : Tolerates value other) :
    isBlank (some other) = isBlank (some value) ∧ isNull (some other) = isNull (some value) := by
  rcases h with hblank | hnull
  · obtain ⟨text, hvalue, _⟩ := isBlank_iff.mp hblank
    obtain rfl := Option.some.inj hvalue
    obtain ⟨text', rfl, htrim⟩ := tolerates_text.mp htolerates
    exact ⟨by rw [isBlank, isBlank, htrim], rfl⟩
  · obtain rfl := Option.some.inj (isNull_iff.mp hnull)
    rcases htolerates with ⟨_, _, hvalue, _⟩ | hsame
    · cases hvalue
    · obtain rfl := Json.same_null.mp hsame
      exact ⟨rfl, rfl⟩

/-! ### The comparison of cells -/

theorem compareCells_some {value other : Json} :
    compareCells (some value) (some other) = none ↔ Tolerates value other := by
  unfold compareCells
  split
  · -- two texts
    rename_i htextual
    rw [FieldChange.ofTexts?_eq_none]
    cases value <;> cases other <;> simp [isTextual] at htextual
    rename_i text text'
    exact (tolerates_text.trans (by simp [Json.text?])).symm
  · rename_i htextual
    rw [FieldChange.ofValues?_eq_none, Option.getD_some, Option.getD_some]
    refine ⟨Or.inr, ?_⟩
    rintro (⟨_, _, rfl, rfl, _⟩ | hsame)
    · exact absurd rfl htextual
    · exact hsame

theorem compareCells_none_right {value : Json} :
    compareCells (some value) none = none ↔ PassesForNone value := by
  unfold compareCells PassesForNone
  cases value with
  | text text =>
      have hempty : Text.trim "" = "" := by decide
      simp [isTextual, FieldChange.ofTexts?_eq_none, isBlank, isNull, Json.text?, hempty]
  | null => simp [isTextual, FieldChange.ofValues?_eq_none, isNull, Json.same]
  | boolean | number | array | object =>
      simp [isTextual, FieldChange.ofValues?_eq_none, isBlank, isNull, Json.same]

theorem compareCells_self (cell : Option Json) : compareCells cell cell = none := by
  cases cell with
  | none => rfl
  | some value => exact compareCells_some.mpr (Or.inr (Json.same_refl value))

/-- It does not matter which of two cells comes first. -/
theorem compareCells_symm {a b : Option Json} (h : compareCells a b = none) : compareCells b a = none := by
  have htextual : (isTextual b && isTextual a) = (isTextual a && isTextual b) := Bool.and_comm ..
  unfold compareCells at h ⊢
  rw [htextual]
  split at h
  · rw [if_pos ‹_›]
    exact FieldChange.ofTexts?_eq_none.mpr (FieldChange.ofTexts?_eq_none.mp h).symm
  · rw [if_neg ‹_›]
    exact FieldChange.ofValues?_eq_none.mpr (Json.same_symm (FieldChange.ofValues?_eq_none.mp h))

theorem compareCells_none_left {value : Json} :
    compareCells none (some value) = none ↔ PassesForNone value :=
  ⟨fun h => compareCells_none_right.mp (compareCells_symm h),
    fun h => compareCells_symm (compareCells_none_right.mpr h)⟩

/-- **What is overlooked in two steps is overlooked in one,** unless a missing cell lies between blank text
and `null`. -/
theorem compareCells_trans {a b c : Option Json} (hab : compareCells a b = none)
    (hbc : compareCells b c = none) : compareCells a c = none ↔ bridges a b c = false := by
  cases b with
  | some middle =>
      refine iff_of_true ?_ rfl
      cases a with
      | none =>
          rw [compareCells_none_left] at hab
          cases c with
          | none => rfl
          | some last =>
              obtain ⟨hblank, hnull⟩ := hab.of_tolerates (compareCells_some.mp hbc)
              exact compareCells_none_left.mpr (by unfold PassesForNone; rwa [hblank, hnull])
      | some first =>
          rw [compareCells_some] at hab
          cases c with
          | none =>
              rw [compareCells_none_right] at hbc ⊢
              obtain ⟨hblank, hnull⟩ := hbc.of_tolerates hab.symm
              unfold PassesForNone
              rwa [hblank, hnull]
          | some last => exact compareCells_some.mpr (hab.trans (compareCells_some.mp hbc))
  | none =>
      cases a with
      | none => exact iff_of_true hbc (by simp [bridges, isBlank, isNull])
      | some first =>
          cases c with
          | none => exact iff_of_true hab (by simp [bridges, isBlank, isNull])
          | some last =>
              rw [compareCells_none_right] at hab
              rw [compareCells_none_left] at hbc
              rw [compareCells_some]
              unfold PassesForNone at hab hbc
              simp only [isBlank_iff, isNull_iff, Option.some.injEq] at hab hbc
              rcases hab with ⟨text, rfl, htrim⟩ | rfl <;> rcases hbc with ⟨text', rfl, htrim'⟩ | rfl
              · refine iff_of_true (tolerates_text.mpr ⟨text', rfl, by rw [htrim, htrim']⟩) ?_
                simp [bridges, isNull]
              · exact iff_of_false (by simp [tolerates_text]) (by simp [bridges, isBlank, isNull, htrim])
              · refine iff_of_false (fun h => ?_) (by simp [bridges, isBlank, isNull, htrim'])
                simpa using tolerates_text.mp h.symm
              · exact iff_of_true (Or.inr rfl) rfl

/-! ### The comparison of rules -/

/-- **Nothing changed between two rules if nothing changed between their cells, column by column.** A column
that neither of them has need not be left out. -/
theorem compare_eq_nil {a b : Rule} :
    Rule.compare a b = [] ↔ ∀ column, column ≠ idKey →
      compareCells (Keyed.get? column a) (Keyed.get? column b) = none := by
  unfold compare cells
  simp only [changedFields_eq_nil, List.forall_mem_map, mem_sortedDistinct, List.mem_append,
    Keyed.names_erase, List.mem_filter, decide_eq_true_eq]
  constructor
  · intro h column hcolumn
    by_cases hmem : column ∈ Keyed.names a ∨ column ∈ Keyed.names b
    · exact h column (hmem.imp (⟨·, hcolumn⟩) (⟨·, hcolumn⟩))
    · rw [not_or, Keyed.mem_names, Keyed.mem_names, Option.not_isSome_iff_eq_none,
        Option.not_isSome_iff_eq_none] at hmem
      rw [hmem.1, hmem.2]
      rfl
  · rintro h column (⟨_, hcolumn⟩ | ⟨_, hcolumn⟩) <;> exact h column hcolumn

theorem compare_symm {a b : Rule} (h : Rule.compare a b = []) : Rule.compare b a = [] :=
  compare_eq_nil.mpr fun column hcolumn => compareCells_symm (compare_eq_nil.mp h column hcolumn)

/-- **The same for rules.** -/
theorem compare_trans {a b c : Rule} (hab : Rule.compare a b = []) (hbc : Rule.compare b c = []) :
    Rule.compare a c = [] ↔ ∀ column, column ≠ idKey →
      bridges (Keyed.get? column a) (Keyed.get? column b) (Keyed.get? column c) = false := by
  rw [compare_eq_nil] at hab hbc ⊢
  exact forall₂_congr fun column hcolumn => compareCells_trans (hab column hcolumn) (hbc column hcolumn)

end Rule

/-! ## Edges -/

/-- Edges are compared as an equivalence has it. -/
theorem Comparison.compareEdges_equivalence : Equivalence fun a b => compareEdges a b = [] :=
  equivalence_of_view
    (fun edge => (Text.trim edge.source, Text.trim edge.target, Text.trim (edge.sourceHandle.getD ""),
      Text.trim (edge.targetHandle.getD "")))
    (by simp [compareEdges, changedFields_eq_nil, FieldChange.ofTexts?_eq_none])

/-! ## Contents -/

namespace Behavior

/-- What is found between two contents that are read before they are compared. They are compared as a whole
if one of them cannot be read. -/
def compareRead {α : Type} (kind : String) (decode : Decoder α) (compare : α → α → ComparedContent)
    (previous current : Node) : ComparedContent :=
  (decodeBoth kind decode previous current >>= fun both => pure (compare both.1 both.2)).toOption.getD
    (compareWhole previous current)

variable {α : Type} {decode : Decoder α} {kind : String} {previous current : Node}

theorem compareRead_ok (compare : α → α → ComparedContent) {before after : α}
    (hbefore : decodeContent kind decode previous.content = .ok before)
    (hafter : decodeContent kind decode current.content = .ok after) :
    compareRead kind decode compare previous current = compare before after := by
  unfold compareRead decodeBoth
  rw [hbefore, hafter]
  rfl

theorem compareRead_error_left (compare : α → α → ComparedContent) {error : ContentMismatch}
    (hbefore : decodeContent kind decode previous.content = .error error) :
    compareRead kind decode compare previous current = compareWhole previous current := by
  unfold compareRead decodeBoth
  rw [hbefore]
  rfl

theorem compareRead_error_right (compare : α → α → ComparedContent) {error : ContentMismatch}
    (hafter : decodeContent kind decode current.content = .error error) :
    compareRead kind decode compare previous current = compareWhole previous current := by
  unfold compareRead decodeBoth
  rw [hafter]
  cases decodeContent kind decode previous.content <;> rfl

end Behavior

/-- What is found between the contents of two nodes of a known kind. -/
def Kind.compare (kind : Kind) (previous current : Node) : ComparedContent :=
  ((Behavior.ofKind kind).compare previous current).toOption.getD
    (Behavior.compareWhole previous current)

/-- **Every known kind compares the fields of what it reads, and some compare lists of rows.** -/
theorem Kind.compare_eq (kind : Kind) (previous current : Node) :
    kind.compare previous current =
      match kind with
      | .input | .output =>
        Behavior.compareRead kind.tag SchemaContent.decode (fun a b => .of (a.compared b) []) previous current
      | .expression =>
        Behavior.compareRead kind.tag ExpressionContent.decode ExpressionContent.compare previous current
      | .decisionTable =>
        Behavior.compareRead kind.tag DecisionTableContent.decode DecisionTableContent.compare previous
          current
      | .switch =>
        Behavior.compareRead kind.tag SwitchContent.decode SwitchContent.compare previous current
      | .function =>
        Behavior.compareRead kind.tag FunctionContent.decode (fun a b => .of (a.compared b) []) previous
          current
      | .decision =>
        Behavior.compareRead kind.tag DecisionContent.decode (fun a b => .of (a.compared b) []) previous
          current
      | .custom =>
        Behavior.compareRead kind.tag CustomContent.decode (fun a b => .of (a.compared b) []) previous
          current := by
  cases kind <;> rfl

/-- What is found between contents, the known kinds being registered. -/
theorem Comparison.compareContents_builtin (previous current : Node) :
    (compareContents .builtin previous current).1
      = (Kind.ofName? current.kind).elim (Behavior.compareWhole previous current)
          fun kind => kind.compare previous current := by
  rw [compareContents_fst, Registry.get?_builtin_eq]
  cases Kind.ofName? current.kind <;> rfl

end DecisionGraph
