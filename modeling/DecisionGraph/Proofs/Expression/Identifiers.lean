import DecisionGraph.Expression.Typing
import DecisionGraph.Proofs.Shape.Access

/-!
# What expressions read of the root

An expression reads the root shape through its identifiers and in no other way: under two root shapes in
which each of its identifiers stands for the same shape, it has the same shape or the same error
(`Expr.typeIn_congr`).

So of all roots under which an expression has one shape there is one that holds nothing else
(`Shape.seenThrough`), and what is written into a root under a name that the expression does not mention
goes unnoticed. Both are put together in `Expr.typeIn_reads_identifiers`.
-/

namespace DecisionGraph

namespace Expr

mutual

/-- The identifiers of an expression, from left to right. The names of members and functions and the keys of
objects are none. -/
def identifiers : Expr → List String
  | .literal _ | .pointer => []
  | .identifier name => [name]
  | .member target _ => identifiers target
  | .index target position => identifiers target ++ identifiers position
  | .array items => identifiersOfItems items
  | .object fields => identifiersOfFields fields
  | .unary _ operand => identifiers operand
  | .binary _ left right => identifiers left ++ identifiers right
  | .conditional condition yes no => identifiers condition ++ identifiers yes ++ identifiers no
  | .call _ args => identifiersOfItems args

def identifiersOfItems : List Expr → List String
  | [] => []
  | item :: rest => identifiers item ++ identifiersOfItems rest

def identifiersOfFields : List (String × Expr) → List String
  | [] => []
  | (_, value) :: rest => identifiers value ++ identifiersOfFields rest

end

/-- Each of the names stands for the same shape in both roots. -/
def SameUnder (root root' : Shape) (names : List String) : Prop :=
  ∀ name ∈ names, root.step (.key name) = root'.step (.key name)

variable {root root' : Shape}

theorem sameUnder_append {names names' : List String} :
    SameUnder root root' (names ++ names') ↔ SameUnder root root' names ∧ SameUnder root root' names' :=
  List.forall_mem_append

mutual

/-- **An expression reads the root through its identifiers and in no other way.** -/
theorem typeIn_congr : ∀ (expr : Expr) (item : Shape), SameUnder root root' expr.identifiers →
    typeIn root item expr = typeIn root' item expr
  | .literal _, _, _ | .pointer, _, _ => rfl
  | .identifier name, _, h => congrArg Except.ok (h name (List.mem_singleton_self name))
  | .member target name, item, h => congrArg (Except.map _) (typeIn_congr target item h)
  | .index target position, item, h => by
    obtain ⟨htarget, hposition⟩ := sameUnder_append.mp h
    rw [typeIn, typeIn, typeIn_congr target item htarget, typeIn_congr position item hposition]
  | .array items, item, h => congrArg (Except.map _) (typesIn_congr items item h)
  | .object fields, item, h => congrArg (Except.map _) (fieldTypesIn_congr fields item h)
  | .unary op operand, item, h => congrArg (· >>= op.result) (typeIn_congr operand item h)
  | .binary op left right, item, h => by
    obtain ⟨hleft, hright⟩ := sameUnder_append.mp h
    rw [typeIn, typeIn, typeIn_congr left item hleft, typeIn_congr right item hright]
  | .conditional condition yes no, item, h => by
    obtain ⟨h, hno⟩ := sameUnder_append.mp h
    obtain ⟨hcondition, hyes⟩ := sameUnder_append.mp h
    rw [typeIn, typeIn, typeIn_congr condition item hcondition, typeIn_congr yes item hyes,
      typeIn_congr no item hno]
  | .call name args, item, h => by
    rw [typeIn, typeIn]
    cases Builtin.find? name with
    | none => rfl
    | some function =>
      dsimp only
      split
      · split
        · -- the body of a closure is typed with the items of its collection
          rename_i kind collection body _ _
          obtain ⟨hcollection, h⟩ := sameUnder_append.mp h
          rw [typeIn_congr collection item hcollection]
          refine congrArg (typeIn root' item collection >>= ·) (funext fun shape => ?_)
          rw [typeIn_congr body shape.element (sameUnder_append.mp h).1]
        · rw [typesIn_congr _ item h]
      · rfl

theorem typesIn_congr : ∀ (items : List Expr) (item : Shape),
    SameUnder root root' (identifiersOfItems items) → typesIn root item items = typesIn root' item items
  | [], _, _ => rfl
  | expr :: rest, item, h => by
    obtain ⟨hexpr, hrest⟩ := sameUnder_append.mp h
    rw [typesIn, typesIn, typeIn_congr expr item hexpr, typesIn_congr rest item hrest]

theorem fieldTypesIn_congr : ∀ (fields : List (String × Expr)) (item : Shape),
    SameUnder root root' (identifiersOfFields fields) →
      fieldTypesIn root item fields = fieldTypesIn root' item fields
  | [], _, _ => rfl
  | (_, value) :: rest, item, h => by
    obtain ⟨hvalue, hrest⟩ := sameUnder_append.mp h
    rw [fieldTypesIn, fieldTypesIn, typeIn_congr value item hvalue, fieldTypesIn_congr rest item hrest]

end

end Expr

/-- The same holds of written expressions. One that cannot be read has the same error under every root. -/
theorem typeOf_congr {root root' : Shape} {source : String}
    (h : ∀ expr, parse source = .ok expr → Expr.SameUnder root root' expr.identifiers) :
    typeOf root source = typeOf root' source := by
  unfold typeOf
  cases hparse : parse source with
  | error error => rfl
  | ok expr => exact expr.typeIn_congr .any (h expr hparse)

/-! ## The part of a root that is read -/

/-- The object of the shapes that some names stand for in a root. -/
def Shape.seenThrough (names : List String) (root : Shape) : Shape :=
  .object (Keyed.ofList (names.map fun name => (name, root.step (.key name))))

namespace Expr

variable {root : Shape} {names : List String}

/-- The names stand for the same shapes in the object that is made of these. -/
theorem sameUnder_seenThrough (root : Shape) (names : List String) :
    SameUnder root (root.seenThrough names) names := by
  intro name hname
  rw [Shape.seenThrough, Shape.step, Keyed.get?_ofList_map fun name => root.step (.key name),
    if_pos hname, Option.getD_some]

/-- What is written under another name does not change what the names stand for. Of a union it would: the
write puts an object in its place. -/
theorem sameUnder_setAt (hroot : root.isUnion = false) {name : String} (hname : name ∉ names) (rest : Path)
    (value : Shape) : SameUnder (root.setAt (.key name :: rest) value) root names := by
  intro other hother
  have hne : name ≠ other := fun heq => hname (heq ▸ hother)
  exact Shape.step_setAt_of_ne hne rest hroot value

/--
**The shape of an expression depends on what its identifiers stand for, and on nothing else of the root.**

Under two roots in which each identifier of an expression stands for the same shape, the expression has the
same shape, or the same error with the same shapes in it; that holds whatever `#` stands for. So it has the
shape that it has under the object of these shapes alone, and what is written into a root under another name,
along whatever path, makes no difference. Only a union has to be left out there.
-/
theorem typeIn_reads_identifiers (expr : Expr) :
    (∀ root root' : Shape,
        (∀ name ∈ expr.identifiers, root.step (.key name) = root'.step (.key name)) →
        ∀ item, expr.typeIn root item = expr.typeIn root' item)
      ∧ (∀ root item : Shape,
        expr.typeIn root item = expr.typeIn (root.seenThrough expr.identifiers) item)
      ∧ ∀ (root : Shape) (name : String), root.isUnion = false → name ∉ expr.identifiers →
        ∀ rest value item,
          expr.typeIn (root.setAt (.key name :: rest) value) item = expr.typeIn root item := by
  refine ⟨?_, ?_, ?_⟩
  · intro root root' h item
    exact expr.typeIn_congr item h
  · intro root item
    exact expr.typeIn_congr item (sameUnder_seenThrough root expr.identifiers)
  · intro root name hroot hname rest value item
    exact expr.typeIn_congr item (sameUnder_setAt hroot hname rest value)

/-- A closure that binds `#`, and an error that shows a shape, under an object and under a union with the same
shapes for the identifiers. -/
theorem typeIn_reads_identifiers_union :
    let order : Shape := .object [("price", .union [.null, .number])]
    let fields : Keyed Shape := [("orders", .array order), ("rate", .number)]
    let root : Shape := .object fields
    let root' : Shape := .union [root, .object (("note", .text) :: fields)]
    let product : Expr := .binary .multiply (.member .pointer "price") (.identifier "rate")
    let lines : Expr := .call "map" [.identifier "orders", .object [("total", product)]]
    let wrong : Expr := .index (.unary .negate (.identifier "orders")) (.literal (.text "rate"))
    root ≠ root'
      ∧ lines.typeIn root .any = lines.typeIn root' .any
      ∧ lines.typeIn root' .any = .ok (.array (.object [("total", .number)]))
      ∧ wrong.typeIn root .any = wrong.typeIn root' .any
      ∧ wrong.typeIn root' .any = .error (.invalidOperand "-" (.array order))
      ∧ lines.typeIn (root.setAt [.key "note"] .text) .any = lines.typeIn root .any := by
  intro order fields root root' product lines wrong
  have horders : root.step (.key "orders") = root'.step (.key "orders") := by rfl
  have hrate : root.step (.key "rate") = root'.step (.key "rate") := by rfl
  have hlines : ∀ name ∈ lines.identifiers, root.step (.key name) = root'.step (.key name) :=
    List.forall_mem_cons.mpr ⟨horders, List.forall_mem_singleton.mpr hrate⟩
  have hwrong : ∀ name ∈ wrong.identifiers, root.step (.key name) = root'.step (.key name) :=
    List.forall_mem_singleton.mpr horders
  obtain ⟨hsame, -, hbeside⟩ := lines.typeIn_reads_identifiers
  refine ⟨nofun, hsame root root' hlines .any, rfl, ?_, rfl, ?_⟩
  · exact wrong.typeIn_reads_identifiers.1 root root' hwrong .any
  · exact hbeside root "note" rfl (by decide) [] .text .any

end Expr

end DecisionGraph
