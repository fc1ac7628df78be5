import DecisionGraph.Proofs.Behavior.Determined
import DecisionGraph.Proofs.Diff.Tolerance
import DecisionGraph.Proofs.Registry

/-!
# What comparisons overlook

A comparison does not see everything: white space around texts, the difference between a missing text
and an empty one, between a missing flag and a false one, or between a missing cell and `null`. Whatever
it overlooks, inference does not read either. Contents of a known kind between which nothing is found
have the same output (`Behavior.infer_overlooked`).

This goes part by part, each part of a content being compared by one function and read by another:

* options of mapping (`Routing.alike_of_compared`),
* the rows of expressions (`ExpressionRow.parts?_eq`),
* the columns and the rules of decision tables (`TableColumn.read_eq`, `Rule.cell?_eq_of_matches`). A
  column can have the name under which rules keep their ids; what stands there is compared as part of the
  label of a rule.

If one of the contents does not fit its kind, both are compared as a whole. They are the same then, and
the kinds being determined, that will do.
-/

namespace DecisionGraph

/-! ## Texts -/

theorem Text.trimmed?_eq_filter (text : Option String) :
    Text.trimmed? text = (some (Text.trim (text.getD ""))).filter fun trimmed => !trimmed.isEmpty := by
  cases text with
  | none => rfl
  | some text => rfl

/-- Texts that are compared as equal are trimmed to the same. -/
theorem Text.trimmed?_eq {a b : Option String} (h : FieldChange.ofTexts? a b = none) :
    Text.trimmed? a = Text.trimmed? b := by
  rw [trimmed?_eq_filter, trimmed?_eq_filter, FieldChange.ofTexts?_eq_none.mp h]

/-- An empty text is as good as none. -/
theorem Text.trimmed?_filter (text : Option String) :
    Text.trimmed? (text.filter fun text => !text.isEmpty) = Text.trimmed? text := by
  cases text with
  | none => rfl
  | some text =>
      by_cases hempty : text = ""
      · rw [hempty]
        rfl
      · rw [Option.filter_some_pos (by simpa using hempty)]

/-- Things of one label have one id, if one that is empty counts as none. -/
theorem Label.id_eq {id id' print print' : Option String}
    (h : Label.of id print = Label.of id' print') :
    (id.filter fun id => !id.isEmpty) = id'.filter fun id => !id.isEmpty := by
  unfold Label.of at h
  generalize (id.filter fun id => !id.isEmpty) = first at h ⊢
  generalize (id'.filter fun id => !id.isEmpty) = second at h ⊢
  cases first with
  | none =>
      cases second with
      | none => rfl
      | some other => cases print <;> cases h
  | some text =>
      cases second with
      | none => cases print' <;> cases h
      | some other => rw [Label.named.inj h]

/-- Ids that are always there are equal, since one that is empty equals no other. -/
theorem Label.id_eq_of_some {id id' : String} {print print' : Option String}
    (h : Label.of (some id) print = Label.of (some id') print') : id = id' := by
  have hid := Label.id_eq h
  by_cases hempty : id = ""
  · by_cases hempty' : id' = ""
    · rw [hempty, hempty']
    · simp [Option.filter, hempty, hempty'] at hid
  · by_cases hempty' : id' = ""
    · simp [Option.filter, hempty, hempty'] at hid
    · simpa [Option.filter, hempty, hempty'] using hid

/-! ## Options of mapping -/

theorem ExecutionMode.eq_of_trim_tag {a b : ExecutionMode} (h : Text.trim a.tag = Text.trim b.tag) :
    a = b := by
  cases a <;> cases b <;> first | rfl | exact absurd h (by decide)

theorem Routing.loops_eq (options : Routing) :
    options.loops = (options.executionMode.getD .single == .loop) := by
  unfold loops
  cases options.executionMode with
  | none => rfl
  | some mode => rfl

/-- **Options between which nothing changed are alike.** -/
theorem Routing.alike_of_compared {a b : Routing}
    (h : ∀ field ∈ a.compared b, field.2 = none) : a.Alike b := by
  unfold compared at h
  simp only [List.forall_mem_cons] at h
  obtain ⟨hmode, hselection, htarget, hpasses, _⟩ := h
  rw [FieldChange.ofTexts?_eq_none, Option.getD_some, Option.getD_some] at hmode
  refine ⟨Text.trimmed?_eq hselection, Text.trimmed?_eq htarget,
    FieldChange.ofFlags?_eq_none.mp hpasses, ?_⟩
  rw [loops_eq, loops_eq, ExecutionMode.eq_of_trim_tag hmode]

/-! ## Expressions -/

/-- Rows between which nothing changed have the same parts. -/
theorem ExpressionRow.parts?_eq {row other : ExpressionRow}
    (h : ExpressionRow.rule.Matches row other) : row.parts? = other.parts? := by
  obtain ⟨_, _, hfields⟩ := h
  dsimp only [ExpressionRow.rule, compare] at hfields
  simp only [changedFields_eq_nil, List.forall_mem_cons] at hfields
  obtain ⟨hkey, hvalue, _⟩ := hfields
  unfold parts?
  rw [Text.trimmed?_eq hkey, Text.trimmed?_eq hvalue]

/-- Expressions between which nothing is found have the same output. -/
theorem ExpressionContent.infer_overlooked {a b : ExpressionContent} (h : a.compare b = .empty)
    (node : String) (input : Shape) : a.infer node input = b.infer node input := by
  obtain ⟨hfields, hlists⟩ := ComparedContent.of_eq_empty.mp h
  rw [List.forall_mem_singleton, RowRule.rows_unannotated] at hlists
  refine infer_eq (Routing.alike_of_compared hfields) ?_ node input
  exact hlists.imp fun _ _ hmatches => ExpressionRow.parts?_eq hmatches

/-! ## Decision tables -/

/-- Columns between which nothing changed are read alike. -/
theorem TableColumn.read_eq {column other : TableColumn} (h : TableColumn.rule.Matches column other) :
    column.id = other.id ∧ Text.trimmed? column.field = Text.trimmed? other.field := by
  obtain ⟨hlabel, _, hfields⟩ := h
  dsimp only [TableColumn.rule, label, compare] at hlabel hfields
  simp only [changedFields_eq_nil, List.forall_mem_cons] at hfields
  obtain ⟨_, hfield, _⟩ := hfields
  exact ⟨Label.id_eq_of_some hlabel, Text.trimmed?_eq hfield⟩

namespace Rule

/-- Cells between which nothing changed have the same text. A missing cell is as good as `null`. -/
theorem trimmed?_eq_of_compareCells {a b : Option Json} (h : compareCells a b = none) :
    Text.trimmed? (a.bind Json.text?) = Text.trimmed? (b.bind Json.text?) := by
  have hnull : ∀ cell : Option Json, cell.bind Json.text? = (cell.getD .null).text? := by
    intro cell
    cases cell with
    | none => rfl
    | some value => rfl
  unfold compareCells at h
  split at h
  · exact Text.trimmed?_eq h
  · rw [hnull, hnull, Json.text?_eq_of_same (FieldChange.ofValues?_eq_none.mp h)]

/-- **Rules between which nothing changed have the same cells.** -/
theorem cell?_eq_of_matches {a b : Rule} (h : Rule.rowRule.Matches a b) (column : String) :
    a.cell? column = b.cell? column := by
  obtain ⟨hlabel, _, hcells⟩ := h
  dsimp only [rowRule, label] at hlabel hcells
  unfold cell?
  by_cases hcolumn : column = idKey
  · -- the id of a rule is in its label
    rw [hcolumn, ← Text.trimmed?_filter, Label.id_eq hlabel, Text.trimmed?_filter]
  · exact trimmed?_eq_of_compareCells (compare_eq_nil.mp hcells column hcolumn)

end Rule

theorem HitPolicy.eq_of_trim_tag {a b : HitPolicy} (h : Text.trim a.tag = Text.trim b.tag) :
    a = b := by
  cases a <;> cases b <;> first | rfl | exact absurd h (by decide)

theorem HitPolicy.collects_iff (policy : Option HitPolicy) :
    policy = some .collect ↔ policy.getD .first = .collect := by
  cases policy with
  | none => exact iff_of_false nofun nofun
  | some policy => exact Option.some_inj

/-- Tables between which nothing is found have the same output. -/
theorem DecisionTableContent.infer_overlooked {a b : DecisionTableContent} (h : a.compare b = .empty)
    (node : String) (input : Shape) : a.infer node input = b.infer node input := by
  obtain ⟨hfields, hlists⟩ := ComparedContent.of_eq_empty.mp h
  simp only [List.forall_mem_cons, RowRule.rows_unannotated] at hfields hlists
  obtain ⟨hpolicy, hrouting⟩ := hfields
  obtain ⟨_, houtputs, hrules, _⟩ := hlists
  rw [FieldChange.ofTexts?_eq_none, Option.getD_some, Option.getD_some] at hpolicy
  refine ReadAlike.infer_eq ⟨?_, ?_, ?_, ?_⟩ node input
  · rw [HitPolicy.collects_iff, HitPolicy.collects_iff, HitPolicy.eq_of_trim_tag hpolicy]
  · exact houtputs.imp fun _ _ => TableColumn.read_eq
  · exact hrules.imp fun _ _ hmatches => Rule.cell?_eq_of_matches hmatches
  · exact Routing.alike_of_compared hrouting

/-! ## The known kinds -/

namespace Behavior

variable {previous current : Node}

/-- If nothing is found between two contents, they are the same, or both fit and nothing is found between
what is read from them. -/
theorem of_overlooked {α : Type} (decode : Decoder α) {kind : String}
    (compare : α → α → ComparedContent) {P : Prop}
    (h : ((decodeBoth kind decode previous current >>= fun both =>
        pure (compare both.1 both.2)).toOption.getD (compareWhole previous current)) = .empty)
    (hsame : previous.content.same current.content = true → P)
    (hread : ∀ before after, decodeContent kind decode previous.content = .ok before →
      decodeContent kind decode current.content = .ok after → compare before after = .empty → P) :
    P := by
  unfold decodeBoth at h
  cases hbefore : decodeContent kind decode previous.content with
  | error error =>
      rw [hbefore] at h
      exact hsame (compareWhole_eq_empty.mp h)
  | ok before =>
      cases hafter : decodeContent kind decode current.content with
      | error error =>
          rw [hbefore, hafter] at h
          exact hsame (compareWhole_eq_empty.mp h)
      | ok after =>
          rw [hbefore, hafter] at h
          exact hread before after hbefore hafter h

/-- Nodes of one id whose contents are the same have the same output, whatever name of their kind they
have. -/
theorem ofKind_infer_same (kind : Kind) (hid : previous.id = current.id)
    (hsame : previous.content.same current.content = true) (input : Shape) (external : Option Shape) :
    ((ofKind kind).infer previous input external).toOption
      = ((ofKind kind).infer current input external).toOption := by
  have hrenamed : (ofKind kind).infer previous input external
      = (ofKind kind).infer { previous with kind := current.kind } input external := by
    cases kind <;> rfl
  rw [hrenamed]
  exact (ofKind_determined kind).infer hid rfl hsame fun _ => rfl

/-- **What a comparison of two contents of a known kind overlooks, inference does not read.** -/
theorem infer_overlooked (kind : Kind) (hid : previous.id = current.id)
    (h : ((ofKind kind).compare previous current).toOption.getD (compareWhole previous current)
      = .empty) (input : Shape) (external : Option Shape) :
    ((ofKind kind).infer previous input external).toOption
      = ((ofKind kind).infer current input external).toOption := by
  have hsame := fun hsame => ofKind_infer_same kind hid hsame input external
  cases kind with
  | input =>
      refine of_overlooked SchemaContent.decode (fun before after => .of [("schema",
        FieldChange.ofTexts? before.schema after.schema)] []) h hsame ?_
      intro before after hbefore hafter hempty
      have hfields := (ComparedContent.of_eq_empty.mp hempty).1
      simp only [List.forall_mem_cons] at hfields
      have hdocument : before.document? = after.document? := by
        unfold SchemaContent.document?
        rw [Text.trimmed?_eq hfields.1]
      cases external with
      | some shape => rfl
      | none =>
          unfold ofKind Behavior.input
          dsimp only
          rw [hbefore, hafter]
          dsimp only [bind, Except.bind]
          rw [hdocument]
  | output => rfl
  | expression =>
      refine of_overlooked ExpressionContent.decode ExpressionContent.compare h hsame ?_
      intro before after hbefore hafter hempty
      unfold ofKind expression
      dsimp only
      rw [hbefore, hafter, hid]
      exact congrArg some (ExpressionContent.infer_overlooked hempty current.id input)
  | decisionTable =>
      refine of_overlooked DecisionTableContent.decode DecisionTableContent.compare h hsame ?_
      intro before after hbefore hafter hempty
      unfold ofKind decisionTable
      dsimp only
      rw [hbefore, hafter, hid]
      exact congrArg some (DecisionTableContent.infer_overlooked hempty current.id input)
  | switch => rfl
  | function =>
      refine of_overlooked FunctionContent.decode (fun before after => .of [("source",
        FieldChange.ofTexts? (some before.source) (some after.source))] []) h hsame ?_
      intro before after hbefore hafter _
      -- nothing is known about the output of a function but that its content fits
      unfold ofKind function
      dsimp only
      rw [hbefore, hafter]
      rfl
  | decision =>
      refine of_overlooked DecisionContent.decode (fun before after => .of (("key",
        FieldChange.ofTexts? before.key after.key) :: before.routing.compared after.routing) []) h
        hsame ?_
      intro before after hbefore hafter hempty
      have hfields := (ComparedContent.of_eq_empty.mp hempty).1
      rw [List.forall_mem_cons] at hfields
      have hrouting := Routing.alike_of_compared hfields.2
      unfold ofKind decision
      dsimp only
      rw [hbefore, hafter]
      dsimp only [bind, Except.bind]
      rw [hrouting.passesThrough]
  | custom => rfl

end Behavior

end DecisionGraph
