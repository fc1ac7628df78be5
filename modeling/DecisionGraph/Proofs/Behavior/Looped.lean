import DecisionGraph.Proofs.Behavior.Fits
import DecisionGraph.Proofs.Behavior.Issues
import DecisionGraph.Proofs.Keyed

/-!
# Nodes that loop

A node that loops works on an item of what it selects, and puts out an array of what it determines. All that
lies between is the same as in a node that works on its input as a whole. So looping is no second way of
working: an expression node or a decision table that loops puts out arrays of what the same node puts out for
one item, if it loops no more and selects nothing (`infer_looped`).

1. **Options.** Work that is done between the input and the output is the work on one item, done without the
   loop and the selection and put into an array (`Routing.around_of_loops`).
2. **Contents.** An expression node and a decision table are such work (`ExpressionContent.infer_eq_around`,
   `DecisionTableContent.infer_eq_around`).
3. **Members.** Taking the loop and the selection out of a content takes two members, and no other member is read
   in another way (`ExpressionContent.decode_whole`, `DecisionTableContent.decode_whole`).

Only the selecting expression itself can have an issue that the node without it has not.
-/

namespace DecisionGraph

/-! ## Options without a loop -/

namespace Routing

/-- The part of the input that is selected, all of it if nothing selects, and the issue that comes with it. -/
def selected (options : Routing) (node : String) (input : Shape) : Shape × List Issue :=
  match options.selection? with
  | some source => typeOrReport node input source
  | none => (input, [])

/-- The options of a node that works on its input as a whole. -/
def whole (options : Routing) : Routing :=
  { options with inputField := none, executionMode := some .single }

/-- What is worked out between input and output, as options have it. -/
def around (options : Routing) (node : String) (input : Shape) (work : Shape → Shape × List Issue) : Inferred :=
  let (working, issues) := options.workingInput node input
  let (determined, more) := work working
  ⟨options.workingOutput input determined, issues ++ more⟩

variable {options : Routing}

/-- A selection has no issue but that its expression has no shape. -/
theorem selected_issues (options : Routing) (node : String) (input : Shape) :
    (options.selected node input).2 = []
    ∨ ∃ source error, options.selection? = some source ∧ typeOf input source = .error error
      ∧ options.selected node input = (.any, [.invalidExpression node source error.message]) := by
  unfold selected
  cases hselection : options.selection? with
  | none => exact .inl rfl
  | some source =>
      dsimp only
      unfold typeOrReport
      cases htype : typeOf input source with
      | ok shape => exact .inl rfl
      | error error => exact .inr ⟨source, error, rfl, htype, rfl⟩

theorem workingInput_of_loops (h : options.loops = true) (node : String) (input : Shape) :
    options.workingInput node input
      = ((options.selected node input).1.element, (options.selected node input).2) := by
  unfold workingInput selected
  rw [h]
  rfl

theorem workingInput_whole (options : Routing) (node : String) (input : Shape) :
    options.whole.workingInput node input = (input, []) := rfl

section Output

variable (htarget : options.target? = none) (hpasses : options.passesThrough = false)
include htarget hpasses

theorem workingOutput_of_loops (h : options.loops = true) (input determined : Shape) :
    options.workingOutput input determined = .array determined := by
  unfold workingOutput
  rw [h, htarget, hpasses]
  rfl

theorem workingOutput_whole (input determined : Shape) :
    options.whole.workingOutput input determined = determined := by
  have htarget' : options.whole.target? = none := htarget
  have hpasses' : options.whole.passesThrough = false := hpasses
  unfold workingOutput
  rw [htarget', hpasses']
  rfl

/-- **What loops does the same work on one item.** -/
theorem around_of_loops (h : options.loops = true) (node : String) (input : Shape)
    (work : Shape → Shape × List Issue) :
    options.around node input work
      = let selected := options.selected node input
        let item := options.whole.around node selected.1.element work
        ⟨.array item.output, selected.2 ++ item.issues⟩ := by
  unfold around
  simp only [workingInput_of_loops h, workingInput_whole, workingOutput_of_loops htarget hpasses h,
    workingOutput_whole htarget hpasses, List.nil_append]

end Output

end Routing

/-- The work of an expression node are its rows. -/
theorem ExpressionContent.infer_eq_around (content : ExpressionContent) (node : String) (input : Shape) :
    content.infer node input = content.routing.around node input fun working =>
      ExpressionRow.inferAll node content.expressions working .empty := rfl

/-- The work of a decision table are its columns, gathered if it collects. -/
theorem DecisionTableContent.infer_eq_around (content : DecisionTableContent) (node : String) (input : Shape) :
    content.infer node input = content.routing.around node input fun working =>
      let (determined, issues) := inferColumns node working content.rules content.outputs .empty
      (if content.hitPolicy = some .collect then .array determined else determined, issues) := rfl

/-! ## Contents without a loop -/

/-- The members of a content that works on its input as a whole, and says else the same. -/
def Routing.wholeMembers (members : Keyed Json) : Keyed Json :=
  Keyed.insert "executionMode" (.text ExecutionMode.single.tag) (Keyed.erase "inputField" members)

section Members

variable {α : Type} {members : Keyed Json}

/-- Two members are not what they were, and the others are read as before. -/
theorem Routing.member_wholeMembers {name : String} (hmode : "executionMode" ≠ name)
    (hselection : name ≠ "inputField") (missing : α) (decode : Decoder α) :
    Decode.member (wholeMembers members) name missing decode = Decode.member members name missing decode := by
  unfold Decode.member wholeMembers
  rw [Keyed.get?_insert_of_ne hmode, Keyed.get?_erase_of_ne hselection]

theorem Routing.decode_whole {options : Routing} (h : decode members = .ok options) :
    decode (wholeMembers members) = .ok options.whole := by
  obtain ⟨mode, _, h⟩ := of_bind_eq_ok h
  obtain ⟨selection, _, h⟩ := of_bind_eq_ok h
  obtain ⟨path, hpath, h⟩ := of_bind_eq_ok h
  obtain ⟨pass, hpass, h⟩ := of_bind_eq_ok h
  obtain rfl := Except.ok.inj h
  have hsingle : Decode.member (wholeMembers members) "executionMode" none
      (Decode.optional ExecutionMode.decode) = .ok (some .single) := by
    unfold Decode.member wholeMembers
    rw [Keyed.get?_insert_self]
    rfl
  have hnone : Decode.member (wholeMembers members) "inputField" none (Decode.optional Decode.text)
      = .ok none := by
    unfold Decode.member wholeMembers
    rw [Keyed.get?_insert_of_ne (by decide), Keyed.get?_erase, if_pos rfl]
  dsimp only [decode]
  rw [hsingle, hnone, member_wholeMembers (by decide) (by decide), hpath,
    member_wholeMembers (by decide) (by decide), hpass]
  rfl

/-- The rows of an expression node do not say whether it loops. -/
theorem ExpressionContent.decode_whole {content : ExpressionContent}
    (h : decode (.object members) = .ok content) :
    Routing.decode members = .ok content.routing
    ∧ decode (.object (Routing.wholeMembers members))
      = .ok { content with routing := content.routing.whole } := by
  obtain ⟨rows, hrows, h⟩ := of_bind_eq_ok h
  obtain ⟨options, hoptions, h⟩ := of_bind_eq_ok h
  obtain rfl := Except.ok.inj h
  refine ⟨hoptions, ?_⟩
  dsimp only [decode, Decode.objectRecord]
  rw [Routing.member_wholeMembers (by decide) (by decide), hrows, Routing.decode_whole hoptions]
  rfl

/-- The columns and rules of a table do not say whether it loops. -/
theorem DecisionTableContent.decode_whole {content : DecisionTableContent}
    (h : decode (.object members) = .ok content) :
    Routing.decode members = .ok content.routing
    ∧ decode (.object (Routing.wholeMembers members))
      = .ok { content with routing := content.routing.whole } := by
  obtain ⟨policy, hpolicy, h⟩ := of_bind_eq_ok h
  obtain ⟨inputs, hinputs, h⟩ := of_bind_eq_ok h
  obtain ⟨outputs, houtputs, h⟩ := of_bind_eq_ok h
  obtain ⟨rules, hrules, h⟩ := of_bind_eq_ok h
  obtain ⟨options, hoptions, h⟩ := of_bind_eq_ok h
  obtain rfl := Except.ok.inj h
  refine ⟨hoptions, ?_⟩
  dsimp only [decode, Decode.objectRecord]
  rw [Routing.member_wholeMembers (by decide) (by decide), hpolicy,
    Routing.member_wholeMembers (by decide) (by decide), hinputs,
    Routing.member_wholeMembers (by decide) (by decide), houtputs,
    Routing.member_wholeMembers (by decide) (by decide), hrules, Routing.decode_whole hoptions]
  rfl

end Members

/-! ## Nodes that loop -/

section Read

variable {α : Type} {kind : String} {decode : Decoder α} {members : Keyed Json}

/-- Members that fit can be read as something. -/
theorem exists_decode (h : (decodeContent kind decode (.object members)).map (fun _ => ()) = .ok ()) :
    ∃ content, decode (.object members) = .ok content := by
  cases hread : decode (.object members) with
  | error mismatch =>
      change ((decode (.object members)).mapError _).map _ = _ at h
      rw [hread] at h
      cases h
  | ok content => exact ⟨content, rfl⟩

/-- What is worked out of members is worked out of what is read from them. -/
theorem infer_of_decode {content : α} (h : decode (.object members) = .ok content) (infer : α → Inferred) :
    (decodeContent kind decode (.object members) >>= fun content => pure (infer content))
      = .ok (infer content) := by
  change (decode (.object members)).mapError _ >>= _ = _
  rw [h]
  rfl

end Read

/-- **Looping lifts a node from one item to an array.** An expression node or a decision table that loops and
puts its output in no other place puts out an array of what the node for the whole puts out for one item of
what is selected. Both find fault with the same, but that the looping node may first report the expression
that selects. -/
theorem infer_looped {kind : Kind} (hkind : kind = .expression ∨ kind = .decisionTable) {members : Keyed Json}
    (hfits : kind.Fits (.object members)) {options : Routing} (hoptions : Routing.decode members = .ok options)
    (hloops : options.loops = true) (htarget : options.target? = none) (hpasses : options.passesThrough = false)
    (node : Node) (input : Shape) (external : Option Shape) :
    let looping := { node with content := .object members }
    let single := { node with content := .object (Routing.wholeMembers members) }
    let selected := options.selected node.id input
    ∃ item, (Behavior.ofKind kind).infer single selected.1.element external = .ok item
      ∧ (Behavior.ofKind kind).infer looping input external
        = .ok ⟨.array item.output, selected.2 ++ item.issues⟩
      ∧ (selected.2 = [] ∨ ∃ source error, options.selection? = some source
        ∧ typeOf input source = .error error
        ∧ selected = (.any, [.invalidExpression node.id source error.message])) := by
  intro looping single selected
  have hissues := options.selected_issues node.id input
  rcases hkind with rfl | rfl
  · obtain ⟨content, hread⟩ := exists_decode hfits
    obtain ⟨hrouting, hwhole⟩ := ExpressionContent.decode_whole hread
    obtain rfl := Except.ok.inj (hrouting.symm.trans hoptions)
    have hlooped := content.infer_eq_around node.id input
    rw [Routing.around_of_loops htarget hpasses hloops] at hlooped
    exact ⟨_, infer_of_decode hwhole fun content => content.infer node.id selected.1.element,
      (infer_of_decode hread fun content => content.infer node.id input).trans (congrArg _ hlooped), hissues⟩
  · obtain ⟨content, hread⟩ := exists_decode hfits
    obtain ⟨hrouting, hwhole⟩ := DecisionTableContent.decode_whole hread
    obtain rfl := Except.ok.inj (hrouting.symm.trans hoptions)
    have hlooped := content.infer_eq_around node.id input
    rw [Routing.around_of_loops htarget hpasses hloops] at hlooped
    exact ⟨_, infer_of_decode hwhole fun content => content.infer node.id selected.1.element,
      (infer_of_decode hread fun content => content.infer node.id input).trans (congrArg _ hlooped), hissues⟩

/-- An expression node that works out the lines of an order. Its second row has no shape. -/
theorem infer_looped_lines :
    let row (key value : String) : Json := .object [("key", .text key), ("value", .text value)]
    let members : Keyed Json := [("executionMode", .text "loop"),
      ("expressions", .array [row "total" "price * 2", row "rest" "$.total +"]), ("inputField", .text "lines")]
    let node : Node := ⟨"each", "expressionNode", "Each", .object members, .origin⟩
    let options : Routing := ⟨some "lines", none, none, some .loop⟩
    let input : Shape := .object [("lines", .array (.object [("price", .number)]))]
    Kind.expression.Fits (.object members) ∧ Routing.decode members = .ok options ∧ options.loops = true
      ∧ options.target? = none ∧ options.passesThrough = false
      ∧ ∃ item, (Behavior.ofKind .expression).infer
          { node with content := .object (Routing.wholeMembers members) } (.object [("price", .number)]) none
            = .ok item
        ∧ item.output = .object [("rest", .any), ("total", .number)]
        ∧ (Behavior.ofKind .expression).infer node input none = .ok ⟨.array item.output, item.issues⟩ := by
  intro row members node options input
  have hfits : Kind.expression.Fits (.object members) := rfl
  have hoptions : Routing.decode members = .ok options := rfl
  obtain ⟨item, hitem, hall, -⟩ := infer_looped (.inl rfl) hfits hoptions rfl rfl rfl node input none
  have houtput : ((Behavior.ofKind .expression).infer
      { node with content := .object (Routing.wholeMembers members) }
        (options.selected node.id input).1.element none).toOption.map Inferred.output
      = some (.object [("rest", .any), ("total", .number)]) := by
    decide +kernel
  rw [hitem] at houtput
  have hselected : options.selected node.id input = (.array (.object [("price", .number)]), []) := rfl
  rw [hselected] at hitem hall
  exact ⟨hfits, hoptions, rfl, rfl, rfl, item, hitem, Option.some.inj houtput, hall⟩

end DecisionGraph
