import DecisionGraph.Proofs.Behavior.Reading
import DecisionGraph.Proofs.Expression.Identifiers
import DecisionGraph.Proofs.Path
import DecisionGraph.Proofs.Shape.Access

/-!
# What the rows of an expression node see

The rows of an expression node are worked out one after the other. What the rows in front of a row leave to
it is a stage: the shape that it sees, and the shape that has been determined so far. The result of a row is
written to both, under its key to what is determined and under its key behind `$.` to what is seen.

1. A step does nothing else (`Stage.next_cases`), and both paths are the same but for the `$`.
2. So rows change what is seen under `$` only. A row that does not mention `$` has the shape that it would
   have alone (`ExpressionContent.row_apart`), unless a union stood in the way.
3. What is seen under `$` is what has been determined (`ExpressionContent.dollar_determined`).
-/

namespace DecisionGraph

namespace ExpressionRow

/-- What the rows in front of a row leave to it. -/
structure Stage where
  /-- What the row sees. -/
  working : Shape
  /-- What has been determined. -/
  determined : Shape

/-- The path that the result of a row is put under, if the row has a key and an expression. -/
def target? (row : ExpressionRow) : Option Path :=
  row.parts?.bind fun parts => (Path.parse parts.1).toOption

/-- The result of the row can be seen by the rows behind it. -/
def isSeen (row : ExpressionRow) : Bool := row.target?.any fun path => path.length < Path.maxLength

namespace Stage

/-- The stage behind a row. -/
def next (node : String) (stage : Stage) (row : ExpressionRow) : Stage :=
  match row.parts? with
  | none => stage
  | some (key, source) =>
    let shape := (typeOrReport node stage.working source).1
    ⟨stage.working.set ("$." ++ key) shape, stage.determined.set key shape⟩

/-- The stage behind some rows. -/
def run (node : String) (stage : Stage) (rows : List ExpressionRow) : Stage :=
  rows.foldl (next node) stage

theorem run_cons (node : String) (stage : Stage) (row : ExpressionRow) (rest : List ExpressionRow) :
    stage.run node (row :: rest) = (stage.next node row).run node rest := rfl

end Stage

/-! ## Stages of inference -/

variable (node : String)

/-- **Inference goes from stage to stage.** -/
theorem inferAll_append (before rest : List ExpressionRow) (stage : Stage) :
    inferAll node (before ++ rest) stage.working stage.determined
      = let behind := stage.run node before
        let inferred := inferAll node rest behind.working behind.determined
        (inferred.1, (inferAll node before stage.working stage.determined).2 ++ inferred.2) := by
  induction before generalizing stage with
  | nil => rfl
  | cons row others ih =>
      rw [List.cons_append, inferAll, inferAll, Stage.run_cons]
      unfold Stage.next
      cases row.parts? with
      | none => exact ih stage
      | some parts =>
          have hrest := ih ⟨stage.working.set ("$." ++ parts.1) (typeOrReport node stage.working parts.2).1,
            stage.determined.set parts.1 (typeOrReport node stage.working parts.2).1⟩
          dsimp only at hrest ⊢
          rw [hrest]
          dsimp only
          rw [List.append_assoc]

theorem inferAll_determined (rows : List ExpressionRow) (stage : Stage) :
    (inferAll node rows stage.working stage.determined).1 = (stage.run node rows).determined := by
  have hall := inferAll_append node rows [] stage
  rw [List.append_nil] at hall
  rw [hall]
  rfl

/-! ## One row -/

/-- The key of a row is trimmed and not empty. -/
theorem key_trimmed {row : ExpressionRow} {key source : String} (h : row.parts? = some (key, source)) :
    Text.trimChars key.toList = key.toList ∧ key.toList ≠ [] := by
  obtain ⟨key', hkey, h⟩ := Option.bind_eq_some_iff.mp h
  obtain ⟨source', -, h⟩ := Option.bind_eq_some_iff.mp h
  obtain ⟨rfl, -⟩ := Prod.mk.inj (Option.some.inj h)
  exact Text.trimmed?_eq_some hkey

/-- **What a row does.** Without a key, an expression or a path in the key it does nothing. Otherwise its
result is written along the path to what is determined, and below `$` to what is seen, if there is room for
one step more. -/
theorem Stage.next_cases (stage : Stage) (row : ExpressionRow) :
    (row.target? = none ∧ stage.next node row = stage) ∨
    ∃ key source path shape, row.parts? = some (key, source) ∧ row.target? = some path
      ∧ (typeOrReport node stage.working source).1 = shape
      ∧ stage.next node row =
        ⟨if path.length < Path.maxLength then Shape.setAt (.key "$" :: path) stage.working shape
          else stage.working, Shape.setAt path stage.determined shape⟩ := by
  unfold next target?
  cases hparts : row.parts? with
  | none => exact .inl ⟨rfl, rfl⟩
  | some parts =>
      -- both texts are read as paths: the key, and the key behind `$.`
      obtain ⟨key, source⟩ := parts
      obtain ⟨htrimmed, hkey⟩ := key_trimmed hparts
      have hdollar := Path.parse_dollar htrimmed hkey
      dsimp only [Option.bind_some]
      cases hparse : Path.parse key with
      | error error =>
          have hnone : ∀ path, Path.parse key ≠ .ok path := fun path h => nomatch hparse.symm.trans h
          have hnone' : ∀ path, Path.parse ("$." ++ key) ≠ .ok path := by
            intro path h
            obtain ⟨rest, hrest, -⟩ := (hdollar path).mp h
            exact hnone rest hrest
          rw [Shape.set_of_not_parse hnone, Shape.set_of_not_parse hnone']
          exact .inl ⟨rfl, rfl⟩
      | ok path =>
          refine .inr ⟨key, source, path, _, rfl, rfl, rfl, ?_⟩
          rw [Shape.set_of_parse hparse]
          split
          · rename_i hlt
            rw [Shape.set_of_parse ((hdollar _).mpr ⟨path, hparse, hlt, rfl⟩)]
          · rename_i hlt
            have hnone : ∀ long, Path.parse ("$." ++ key) ≠ .ok long := by
              intro long h
              obtain ⟨rest, hrest, hshort, -⟩ := (hdollar long).mp h
              rw [hparse] at hrest
              exact hlt ((Except.ok.inj hrest) ▸ hshort)
            rw [Shape.set_of_not_parse hnone]

/-! ## Apart from `$` -/

/-- A row that can be seen puts `$` into what is seen, in place of anything that is no object; any other row
leaves what is seen as it is. -/
theorem Stage.next_working (stage : Stage) (row : ExpressionRow) :
    (row.isSeen = false ∧ (stage.next node row).working = stage.working) ∨
    (row.isSeen = true ∧ ∃ dollar, (stage.next node row).working
      = .object (Keyed.insert "$" dollar stage.working.fieldsOrNone)) := by
  unfold isSeen
  rcases stage.next_cases node row with ⟨htarget, hnext⟩ | ⟨_, _, path, shape, -, htarget, -, hnext⟩
  · rw [htarget, hnext]
    exact .inl ⟨rfl, rfl⟩
  · rw [htarget, hnext]
    by_cases hlt : path.length < Path.maxLength
    · refine .inr ⟨decide_eq_true hlt, ?_⟩
      rw [if_pos hlt]
      exact ⟨_, rfl⟩
    · refine .inl ⟨decide_eq_false hlt, ?_⟩
      rw [if_neg hlt]

/-- **Rows change what is seen under `$` only**, in place of anything that is no object. -/
theorem Stage.run_working (rows : List ExpressionRow) (stage : Stage) :
    (rows.any isSeen = false ∧ (stage.run node rows).working = stage.working) ∨
    (rows.any isSeen = true ∧ ∃ dollar, (stage.run node rows).working
      = .object (Keyed.insert "$" dollar stage.working.fieldsOrNone)) := by
  induction rows generalizing stage with
  | nil => exact .inl ⟨rfl, rfl⟩
  | cons row rest ih =>
      rw [run_cons, List.any_cons]
      rcases stage.next_working node row with ⟨hseen, hnext⟩ | ⟨hseen, dollar, hnext⟩
      · rw [hseen, Bool.false_or, ← hnext]
        exact ih (stage.next node row)
      · -- once there is an object, later rows only replace what stands under `$`
        rw [hseen, Bool.true_or]
        refine .inr ⟨rfl, ?_⟩
        rcases ih (stage.next node row) with ⟨-, hrest⟩ | ⟨-, dollar', hrest⟩
        · exact ⟨dollar, hrest.trans hnext⟩
        · refine ⟨dollar', ?_⟩
          rw [hrest, hnext, Shape.fieldsOrNone, Keyed.insert_insert]

/-- What a row sees if `$` is left aside: what the rows started from, or nothing if that was a union and one
of the rows in front can be seen. -/
def apart (working : Shape) (before : List ExpressionRow) : Shape :=
  if working.isUnion && before.any isSeen then .any else working

/-- Under any name but `$` a row sees what it would see alone. -/
theorem Stage.run_sameUnder (stage : Stage) (before : List ExpressionRow) {names : List String}
    (hfree : "$" ∉ names) :
    Expr.SameUnder (stage.run node before).working (apart stage.working before) names := by
  intro name hname
  have hne : "$" ≠ name := fun heq => hfree (heq ▸ hname)
  unfold apart
  rcases stage.run_working node before with ⟨hseen, hrun⟩ | ⟨hseen, dollar, hrun⟩
  · rw [hseen, Bool.and_false, hrun]
    rfl
  · rw [hseen, Bool.and_true, hrun, Shape.step, Keyed.get?_insert_of_ne hne]
    cases hunion : stage.working.isUnion with
    | false => exact (Shape.step_key hunion name).symm
    | true =>
        cases hworking : stage.working with
        | union members => rfl
        | _ =>
            rw [hworking] at hunion
            cases hunion

/-! ## Under `$` -/

namespace Stage

variable {node} {fields : Keyed Shape} {stage : Stage}

/-- What is seen are the fields, and under `$` what has been determined. -/
def InStep (fields : Keyed Shape) (stage : Stage) : Prop :=
  stage.working = .object (Keyed.insert "$" stage.determined fields)

theorem InStep.next (h : stage.InStep fields) {row : ExpressionRow}
    (hshort : ∀ path ∈ row.target?, path.length < Path.maxLength) :
    (stage.next node row).InStep fields := by
  rcases stage.next_cases node row with ⟨-, hnext⟩ | ⟨_, _, path, shape, -, htarget, -, hnext⟩
  · rw [hnext]
    exact h
  · -- both are written along one path, and both started from one shape
    have hworking : Shape.setAt (.key "$" :: path) stage.working shape
        = .object (Keyed.insert "$" (Shape.setAt path stage.determined shape) fields) := by
      rw [h, Shape.setAt, Shape.fieldsOrNone, Keyed.get?_insert_self, Option.getD_some,
        Keyed.insert_insert]
    rw [hnext, if_pos (hshort path htarget), hworking]
    rfl

theorem InStep.run (h : stage.InStep fields) {rows : List ExpressionRow}
    (hshort : ∀ row ∈ rows, ∀ path ∈ row.target?, path.length < Path.maxLength) :
    (stage.run node rows).InStep fields := by
  induction rows generalizing stage with
  | nil => exact h
  | cons row rest ih =>
      obtain ⟨hrow, hrest⟩ := List.forall_mem_cons.mp hshort
      exact ih (h.next hrow) hrest

/-- The first row that is put somewhere brings `$` into step. -/
theorem inStep_next (hnone : Keyed.get? "$" fields = none) {row : ExpressionRow}
    (htarget : row.target?.isSome) (hshort : ∀ path ∈ row.target?, path.length < Path.maxLength) :
    (next node ⟨.object fields, .empty⟩ row).InStep fields := by
  rcases next_cases node ⟨.object fields, .empty⟩ row with
    ⟨hnot, -⟩ | ⟨_, _, path, shape, -, hpath, -, hnext⟩
  · rw [hnot] at htarget
    cases htarget
  · have hworking : Shape.setAt (.key "$" :: path) (.object fields) shape
        = .object (Keyed.insert "$" (Shape.setAt path .empty shape) fields) := by
      rw [Shape.setAt, Shape.fieldsOrNone, hnone, Option.getD_none, Shape.setAt_empty]
    rw [hnext, if_pos (hshort path hpath), hworking]
    rfl

/-- **As soon as a row has been put somewhere, `$` is in step.** -/
theorem inStep_run (hnone : Keyed.get? "$" fields = none) {rows : List ExpressionRow}
    (hshort : ∀ row ∈ rows, ∀ path ∈ row.target?, path.length < Path.maxLength)
    (hput : ∃ row ∈ rows, row.target?.isSome) :
    (run node ⟨.object fields, .empty⟩ rows).InStep fields := by
  induction rows with
  | nil =>
      obtain ⟨row, hrow, -⟩ := hput
      cases hrow
  | cons row rest ih =>
      obtain ⟨hrow, hrest⟩ := List.forall_mem_cons.mp hshort
      cases htarget : row.target? with
      | some path => exact (inStep_next hnone (by rw [htarget]; rfl) hrow).run hrest
      | none =>
          -- nothing has happened yet, and the row that is put somewhere is one of the rest
          have hnext : next node ⟨.object fields, .empty⟩ row = ⟨.object fields, .empty⟩ := by
            rcases next_cases node ⟨.object fields, .empty⟩ row with
              ⟨-, hnext⟩ | ⟨_, _, path, _, -, hpath, -⟩
            · exact hnext
            · exact nomatch htarget.symm.trans hpath
          have hput : ∃ row ∈ rest, row.target?.isSome := by
            obtain ⟨other, hother, hsome⟩ := hput
            rcases List.mem_cons.mp hother with rfl | hother
            · rw [htarget] at hsome
              cases hsome
            · exact ⟨other, hother, hsome⟩
          rw [run_cons, hnext]
          exact ih hrest hput

end Stage

end ExpressionRow

/-! ## Whole nodes -/

namespace ExpressionContent

open ExpressionRow

/-- What the first row of a node sees. -/
def start (content : ExpressionContent) (node : String) (input : Shape) : Stage :=
  ⟨(content.routing.workingInput node input).1, .empty⟩

/-- **Behind some rows, inference goes on from the stage that they leave.** -/
theorem infer_behind (content : ExpressionContent) (node : String) (input : Shape)
    {before rest : List ExpressionRow} (hrows : content.expressions = before ++ rest) :
    let start := content.start node input
    let stage := start.run node before
    let inferred := inferAll node rest stage.working stage.determined
    content.infer node input = ⟨content.routing.workingOutput input inferred.1,
      (content.routing.workingInput node input).2
        ++ ((inferAll node before start.working start.determined).2 ++ inferred.2)⟩ := by
  have happend := inferAll_append node before rest (content.start node input)
  intro start stage inferred
  unfold infer
  dsimp only
  rw [hrows]
  exact congrArg (fun result : Shape × List Issue =>
    (⟨content.routing.workingOutput input result.1,
      (content.routing.workingInput node input).2 ++ result.2⟩ : Inferred)) happend

/--
**A row that does not mention `$` is typed as if it stood alone.**

It has the shape and the issues that its expression has against what the node selects from its input,
whatever rows stand in front of it, and the output of the node is made with that. Only if the node has
selected a union, and a row in front can be seen, is nothing known about any identifier.
-/
theorem row_apart (content : ExpressionContent) (node : String) (input : Shape)
    {before after : List ExpressionRow} {row : ExpressionRow}
    (hrows : content.expressions = before ++ row :: after) {key source : String}
    (hparts : row.parts? = some (key, source))
    (hfree : ∀ expr, parse source = .ok expr → "$" ∉ expr.identifiers) :
    let start := content.start node input
    let stage := start.run node before
    let typed := typeOrReport node (apart start.working before) source
    let others := inferAll node after (stage.working.set ("$." ++ key) typed.1)
      (stage.determined.set key typed.1)
    typeOrReport node stage.working source = typed
      ∧ content.infer node input = ⟨content.routing.workingOutput input others.1,
        (content.routing.workingInput node input).2
          ++ ((inferAll node before start.working start.determined).2 ++ (typed.2 ++ others.2))⟩ := by
  intro start stage typed others
  have htyped : typeOrReport node stage.working source = typed := by
    have hsame : typeOf stage.working source = typeOf (apart start.working before) source :=
      typeOf_congr fun expr hparse => start.run_sameUnder node before (hfree expr hparse)
    unfold typed typeOrReport
    rw [hsame]
  refine ⟨htyped, ?_⟩
  have hnext : inferAll node (row :: after) stage.working stage.determined
      = (others.1, typed.2 ++ others.2) := by
    rw [inferAll, hparts]
    dsimp only
    rw [htyped]
  rw [content.infer_behind node input hrows, hnext]

/-- A closure is typed as if no row stood in front of it. -/
theorem row_apart_closure :
    let first : ExpressionRow := ⟨none, some "k", some "1"⟩
    let row : ExpressionRow := ⟨none, some "m", some "map(items, # + a)"⟩
    let content : ExpressionContent := ⟨[first, row], ⟨none, none, none, none⟩⟩
    let input : Shape := .object [("a", .number), ("items", .array .number)]
    let stage := (content.start "n" input).run "n" [first]
    content.expressions = [first] ++ row :: []
      ∧ row.parts? = some ("m", "map(items, # + a)")
      ∧ (∀ expr, parse "map(items, # + a)" = .ok expr → "$" ∉ expr.identifiers)
      ∧ typeOrReport "n" stage.working "map(items, # + a)" = (.array .number, []) := by
  intro first row content input stage
  have hparse : parse "map(items, # + a)"
      = .ok (.call "map" [.identifier "items", .binary .add .pointer (.identifier "a")]) := rfl
  have hparts : row.parts? = some ("m", "map(items, # + a)") := rfl
  have hfree : ∀ expr, parse "map(items, # + a)" = .ok expr → "$" ∉ expr.identifiers := by
    intro expr h
    obtain rfl := Except.ok.inj (hparse.symm.trans h)
    decide
  have hrows : content.expressions = [first] ++ row :: [] := rfl
  obtain ⟨htyped, -⟩ := content.row_apart "n" input hrows hparts hfree
  have happart : apart (content.start "n" input).working [first] = input := rfl
  have hshape : typeOrReport "n" input "map(items, # + a)" = (.array .number, []) := by
    unfold typeOrReport typeOf
    rw [hparse]
    rfl
  rw [happart, hshape] at htyped
  exact ⟨hrows, hparts, hfree, htyped⟩

/-- A union of two objects is lost behind a row that does not concern it. -/
theorem row_behind_union :
    let first : ExpressionRow := ⟨none, some "k", some "1"⟩
    let second : ExpressionRow := ⟨none, some "m", some "a"⟩
    let content (rows : List ExpressionRow) : ExpressionContent := ⟨rows, ⟨none, none, none, none⟩⟩
    let input : Shape := .union [.object [("a", .number)], .object [("a", .text)]]
    typeOrReport "n" input "a" = (.union [.number, .text], [])
      ∧ (content [second]).infer "n" input = .of (.object [("m", .union [.number, .text])])
      ∧ (content [first, second]).infer "n" input = .of (.object [("k", .number), ("m", .any)]) :=
  ⟨rfl, rfl, rfl⟩

/--
**Under `$` a row sees what has been determined.**

If a node has selected an object without `$`, and all paths have room for one step more, then a row behind
another one that was put somewhere sees this object, and under `$` the shape that the rows in front have
determined.
-/
theorem dollar_determined (content : ExpressionContent) (node : String) (input : Shape)
    {before after : List ExpressionRow} {row : ExpressionRow}
    (hrows : content.expressions = before ++ row :: after) {fields : Keyed Shape}
    (hobject : (content.routing.workingInput node input).1 = .object fields)
    (hnone : Keyed.get? "$" fields = none)
    (hshort : ∀ row ∈ before, ∀ path ∈ row.target?, path.length < Path.maxLength)
    (hput : ∃ row ∈ before, row.target?.isSome) :
    let stage := (content.start node input).run node before
    let earlier := inferAll node before (.object fields) .empty
    let others := inferAll node (row :: after) stage.working earlier.1
    stage.working.step (.key "$") = earlier.1
      ∧ stage.working = .object (Keyed.insert "$" earlier.1 fields)
      ∧ content.infer node input = ⟨content.routing.workingOutput input others.1,
        (content.routing.workingInput node input).2 ++ (earlier.2 ++ others.2)⟩ := by
  intro stage earlier others
  have hstart : content.start node input = ⟨.object fields, .empty⟩ := by
    unfold start
    rw [hobject]
  have hearlier : earlier.1 = stage.determined := by
    unfold stage
    rw [hstart]
    exact inferAll_determined node before ⟨.object fields, .empty⟩
  have hworking : stage.working = .object (Keyed.insert "$" earlier.1 fields) := by
    rw [hearlier]
    unfold stage
    rw [hstart]
    exact Stage.inStep_run hnone hshort hput
  refine ⟨?_, hworking, ?_⟩
  · rw [hworking, Shape.step, Keyed.get?_insert_self, Option.getD_some]
  · unfold others stage
    rw [content.infer_behind node input hrows, ← hearlier, hstart]

/-- Rows under a key, under no path, and under an item of an array. -/
theorem dollar_determined_items :
    let before : List ExpressionRow := [⟨none, some "total", some "price * 2"⟩,
      ⟨none, some "a..b", some "1"⟩, ⟨none, some "lines[0].text", some "'x'"⟩]
    let row : ExpressionRow := ⟨none, some "m", some "$.total"⟩
    let content : ExpressionContent := ⟨before ++ [row], ⟨none, none, none, none⟩⟩
    let input : Shape := .object [("price", .number)]
    let stage := (content.start "n" input).run "n" before
    (content.routing.workingInput "n" input).1 = input
      ∧ Keyed.get? "$" [("price", Shape.number)] = none
      ∧ (∀ row ∈ before, ∀ path ∈ row.target?, path.length < Path.maxLength)
      ∧ (∃ row ∈ before, row.target?.isSome)
      ∧ stage.working.step (.key "$")
        = .object [("lines", .array (.object [("text", .text)])), ("total", .number)] := by
  intro before row content input stage
  have hshort : ∀ row ∈ before, ∀ path ∈ row.target?, path.length < Path.maxLength := by decide
  have hput : ∃ row ∈ before, row.target?.isSome := by decide
  have hearlier : (inferAll "n" before input .empty).1
      = .object [("lines", .array (.object [("text", .text)])), ("total", .number)] := by
    decide +kernel
  exact ⟨rfl, rfl, hshort, hput,
    (content.dollar_determined "n" input rfl rfl rfl hshort hput).1.trans hearlier⟩

end ExpressionContent

end DecisionGraph
